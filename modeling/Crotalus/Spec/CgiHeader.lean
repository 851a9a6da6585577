import Crotalus.Server.Pipe
import Crotalus.Spec.Reply

namespace Crotalus

open Stateful ByteMem

/-! The bounds of `process_cgi_header`: where it stores, and where it leaves the end of the
script's output. -/

theorem bytesToRead_eq {r : Request} (h : r.headerEnd ≤ bufferSize + 1) :
    r.bytesToRead = bufferSize + 1 - r.headerEnd := by
  simp only [Request.bytesToRead, u32, bufferSize] at h ⊢
  omega

/-- What `write_from_pipe` is still to write. -/
def Request.unsent (r : Request) : List Byte :=
  slice r.buffer r.headerLine (r.headerEnd - r.headerLine)

theorem length_unsent (r : Request) : r.unsent.length = r.headerEnd - r.headerLine :=
  length_slice _ _ _

theorem length_cstr_le (m : Nat → Byte) (k i : Nat) : (cstr m k i).length ≤ k := by
  induction k generalizing i with
  | zero => exact Nat.le_refl 0
  | succ k ih =>
    unfold cstr
    split
    · exact Nat.zero_le _
    · exact Nat.succ_le_succ (ih _)

theorem length_strAt_le (r : Request) (off : Nat) :
    (r.strAt off).length ≤ bufferSize + 1 - off := length_cstr_le _ _ _

theorem length_le_of_startsWith {s pat : Text} (h : startsWith s pat = true) :
    pat.length ≤ s.length := by
  have hlen := congrArg List.length (of_decide_eq_true h)
  rw [List.length_take] at hlen
  omega

theorem strstr_le {pat s : Text} {i : Nat} (h : strstr pat s = some i) :
    i + pat.length ≤ s.length := by
  induction s generalizing i with
  | nil =>
    rw [strstr] at h
    split at h
    · rename_i hp
      cases h
      rw [hp]
      exact Nat.le_refl 0
    · exact nomatch h
  | cons b s ih =>
    rw [strstr] at h
    split at h
    · rename_i hp
      cases h
      rw [Nat.zero_add]
      exact length_le_of_startsWith hp
    · obtain ⟨j, hj, rfl⟩ := Option.map_eq_some_iff.mp h
      have hle := ih hj
      rw [List.length_cons]
      omega

theorem strstr_cons {pat : Text} {b : Byte} {s : Text} :
    strstr pat (b :: s) =
      if startsWith (b :: s) pat then some 0 else (strstr pat s).map (· + 1) := rfl

/-- The pattern stands where it has been found. -/
theorem strstr_some {pat s : Text} {i : Nat} (h : strstr pat s = some i) :
    startsWith (s.drop i) pat = true := by
  induction s generalizing i with
  | nil =>
    rw [strstr] at h
    split at h
    · rename_i hp
      cases h
      rw [hp]
      rfl
    · exact nomatch h
  | cons b s ih =>
    rw [strstr_cons] at h
    split at h
    · rename_i hp
      cases h
      exact hp
    · obtain ⟨j, hj, rfl⟩ := Option.map_eq_some_iff.mp h
      exact ih hj

/-- And nowhere before. -/
theorem strstr_first {pat s : Text} {i j : Nat} (h : strstr pat s = some i) (hj : j < i) :
    startsWith (s.drop j) pat = false := by
  induction s generalizing i j with
  | nil =>
    rw [strstr] at h
    split at h
    · cases h
      exact absurd hj (Nat.not_lt_zero j)
    · exact nomatch h
  | cons b s ih =>
    rw [strstr_cons] at h
    split at h
    · cases h
      exact absurd hj (Nat.not_lt_zero j)
    · rename_i hp
      obtain ⟨k, hk, rfl⟩ := Option.map_eq_some_iff.mp h
      cases j with
      | zero => exact Bool.eq_false_iff.mpr hp
      | succ j => exact ih hk (Nat.lt_of_succ_lt_succ hj)

theorem strstr_none {a : Byte} {pat s : Text} (h : strstr (a :: pat) s = none) (j : Nat) :
    startsWith (s.drop j) (a :: pat) = false := by
  induction s generalizing j with
  | nil =>
    rw [List.drop_nil]
    rfl
  | cons b s ih =>
    rw [strstr_cons] at h
    split at h
    · exact nomatch h
    · rename_i hp
      cases j with
      | zero => exact Bool.eq_false_iff.mpr hp
      | succ j => exact ih (Option.map_eq_none_iff.mp h) j

theorem blankLine_le {s : Text} {i : Nat} (h : blankLine s = some i) : i + 2 ≤ s.length := by
  unfold blankLine at h
  cases hcr : strstr [10, 13, 10] s with
  | some j =>
    rw [hcr] at h
    cases h
    have hle := strstr_le hcr
    simp only [List.length_cons, List.length_nil] at hle
    omega
  | none =>
    rw [hcr, Option.none_or] at h
    exact strstr_le h

/-- The bytes of the pattern, one by one. -/
theorem getElem?_of_startsWith {pat s : Text} {i j : Nat} (h : startsWith (s.drop i) pat = true)
    (hj : j < pat.length) : s[i + j]? = pat[j]? := by
  have htake : (s.drop i).take pat.length = pat := of_decide_eq_true h
  rw [← List.getElem?_drop, ← List.getElem?_take_of_lt hj, htake]

theorem strstr_head {b : Byte} {pat s : Text} {i : Nat} (h : strstr (b :: pat) s = some i) :
    s[i]? = some b :=
  getElem?_of_startsWith (strstr_some h) (j := 0) (Nat.succ_pos _)

theorem blankLine_lf {s : Text} {i : Nat} (h : blankLine s = some i) : s[i]? = some 10 := by
  unfold blankLine at h
  cases hcr : strstr [10, 13, 10] s with
  | some j =>
    rw [hcr] at h
    cases h
    exact strstr_head hcr
  | none =>
    rw [hcr, Option.none_or] at h
    exact strstr_head h

/-- What is compared is among the characters of the literal. -/
theorem mem_of_strncaseEq {s t : Text} (h : strncaseEq s t = true) {i : Nat} {b : Byte}
    (hi : i < t.length) (hb : s[i]? = some b) : lowerByte b ∈ t.map lowerByte := by
  have hmap : (s.take t.length).map lowerByte = t.map lowerByte := of_decide_eq_true h
  rw [← hmap]
  apply List.mem_map_of_mem
  apply List.mem_of_getElem? (i := i)
  rw [List.getElem?_take_of_lt hi, hb]

theorem length_le_of_strncaseEq {s t : Text} (h : strncaseEq s t = true) :
    t.length ≤ s.length := by
  have hlen := congrArg List.length (of_decide_eq_true h)
  rw [List.length_map, List.length_map, List.length_take] at hlen
  omega

theorem strchr_le {b : Byte} {s : Text} : (strchr b s).getD 0 ≤ s.length - 1 := by
  unfold strchr
  cases h : s.findIdx? (· = b) with
  | none => exact Nat.zero_le _
  | some i =>
    have hlt := (List.findIdx?_eq_some_iff_getElem.mp h).1
    rw [Option.getD_some]
    omega

theorem skipCrBack_le (m : Nat → Byte) (i : Nat) : skipCrBack m i ≤ i := by
  induction i with
  | zero => exact Nat.le_refl 0
  | succ i ih =>
    unfold skipCrBack
    split
    · exact Nat.le_succ_of_le ih
    · exact Nat.le_refl _

/-- The memory behind the array stays, and so does a `header_end` that is at most one byte
behind it. -/
structure Confined (c c' : Conn) : Prop where
  beyond : ∀ i, bufferSize < i → c'.req.buffer i = c.req.buffer i
  stop : c.req.headerEnd ≤ bufferSize + 1 → c'.req.headerEnd ≤ bufferSize + 1

section Confined

variable {c c' c'' : Conn}

theorem Confined.same (hb : c'.req.buffer = c.req.buffer)
    (he : c'.req.headerEnd = c.req.headerEnd) : Confined c c' :=
  ⟨fun i _ => congrFun hb i, fun h => he ▸ h⟩

theorem Confined.refl (c : Conn) : Confined c c := .same rfl rfl

theorem Confined.trans (h : Confined c c') (h' : Confined c' c'') : Confined c c'' :=
  ⟨fun i hi => (h'.beyond i hi).trans (h.beyond i hi), fun hle => h'.stop (h.stop hle)⟩

theorem Confined.modReq {f : Request → Request} (c : Conn) (hb : ∀ r, (f r).buffer = r.buffer)
    (he : ∀ r, (f r).headerEnd = r.headerEnd) : Confined c (exec (modReq f) c) :=
  .same (hb c.req) (he c.req)

theorem Replied.confined (h : Replied c c') : Confined c c' := by
  have hstop : c'.req.aside.headerEnd = c.req.aside.headerEnd := by rw [h.aside]
  exact ⟨h.beyond, fun hle => Nat.le_trans (Nat.le_of_eq hstop) hle⟩

theorem poke_confined (c : Conn) (i : Nat) (bs : List Byte) (h : i + bs.length ≤ bufferSize + 1) :
    Confined c (exec (poke i bs) c) :=
  ⟨fun _ hj => store_above _ _ _ _ (by omega), fun hle => hle⟩

end Confined

section Header

variable (e : Config)

/-- The URL of a redirect ends before the end of the array. -/
theorem locationUrl_confined {c : Conn} {url : Nat} (h0 : 0 < url) (hurl : url ≤ bufferSize) :
    Confined c (exec (locationUrl e url) c) := by
  have hlf := strchr_le (b := 10) (s := c.req.strAt url)
  have hlen := length_strAt_le c.req url
  have hback := skipCrBack_le c.req.buffer (url + (strchr 10 (c.req.strAt url)).getD 0 - 1)
  simp only [locationUrl, exec_bind, exec_getReq, value_getReq]
  refine (poke_confined c (skipCrBack c.req.buffer
    (url + (strchr 10 (c.req.strAt url)).getD 0 - 1) + 1) [0] ?_).trans ?_
  · simp only [List.length_cons, List.length_nil]
    omega
  · split <;> exact (reply_replies e _ _ _ _ _).confined

theorem cgiLocation_confined {c : Conn} (hline : c.req.headerLine + 10 ≤ bufferSize) :
    Confined c (exec (cgiLocation e) c) := by
  have hreply : ∀ d : Conn, d.req.headerLine + 10 ≤ bufferSize →
      Confined d (exec (locationReply e (d.req.headerLine + 10)) d) := by
    intro d hd
    simp only [locationReply, exec_bind, exec_getReq, value_getReq, exec_ite]
    split
    · exact (reply_replies e _ _ _ _ d).confined
    · exact locationUrl_confined e (Nat.succ_pos _) hd
  have hmark : Confined c (exec (mark .locationDone) c) := .same rfl rfl
  exact (hmark.trans (hreply _ hline)).trans (.same rfl rfl)

/-- For HEAD the output ends with its header. -/
def Request.headOnly (r : Request) (lf : Nat) : Request :=
  if r.method = .head then
    { r with headerEnd := if r.buffer (lf + 1) = 13 then lf + 2 else lf + 1, cgiStatus := .done }
  else r

/-- The script's output behind the server's header. -/
def Request.merged (r : Request) : Request :=
  { r.append (slice r.buffer r.headerLine (r.headerEnd - r.headerLine)) with
    headerLine := r.bufferEnd + (r.headerEnd - r.headerLine)
    headerEnd := r.bufferEnd + (r.headerEnd - r.headerLine) }

/-- `process_cgi_header` once the server's header is in the buffer. -/
def mergeTail : Srv Int := do
  let r ← getReq
  if r.bufferEnd + (r.headerEnd - r.headerLine) > bufferSize then
    modReq Request.emptied
    sendRError e
    return 0
  else
    modReq Request.merged
    let _ ← reqFlush e
    if r.method = .head then return 0 else return 1

theorem cgiMerge_run (lf : Nat) (c : Conn) :
    exec (cgiMerge e lf) c =
        exec (mergeTail e) (exec (modReq (·.headOnly lf)) (exec (sendRRequestOk e) c)) ∧
      value (cgiMerge e lf) c =
        value (mergeTail e) (exec (modReq (·.headOnly lf)) (exec (sendRRequestOk e) c)) := by
  have hhead : exec (modReq fun r =>
      if r.method = .head then
        { r with headerEnd := if r.buffer (lf + 1) = 13 then lf + 2 else lf + 1, cgiStatus := .done }
      else r) (exec (sendRRequestOk e) c) =
        exec (modReq (·.headOnly lf)) (exec (sendRRequestOk e) c) := rfl
  unfold cgiMerge mergeTail
  simp only [exec_bind, value_bind]
  rw [hhead]
  generalize exec (modReq (·.headOnly lf)) (exec (sendRRequestOk e) c) = d
  simp only [value_getReq, exec_getReq, exec_ite, value_ite, exec_bind, value_bind]
  exact ⟨rfl, rfl⟩

theorem headOnly_confined {lf : Nat} (hlf : lf + 2 ≤ bufferSize + 1) (c : Conn) :
    Confined c (exec (modReq (·.headOnly lf)) c) := by
  rw [exec_modReq]
  unfold Request.headOnly
  split
  · refine ⟨fun _ _ => rfl, fun _ => ?_⟩
    dsimp only
    split <;> omega
  · exact .refl c

theorem mergeTail_confined (c : Conn) : Confined c (exec (mergeTail e) c) := by
  simp only [mergeTail, exec_bind, exec_getReq, value_getReq, exec_ite, exec_modReq, exec_pure]
  split
  · have hempty : Confined c { c with req := c.req.emptied } := .same rfl rfl
    exact hempty.trans (reply_replies e _ _ _ _ _).confined
  · rename_i hfit
    have hlen := length_slice c.req.buffer c.req.headerLine (c.req.headerEnd - c.req.headerLine)
    have hmove : Confined c { c with req := c.req.merged } := by
      refine ⟨fun i hi => store_above _ _ _ _ (by omega), fun _ => ?_⟩
      exact Nat.le_trans (Nat.le_of_not_lt hfit) (Nat.le_succ _)
    have hflush := (reqFlush_replies e { c with req := c.req.merged }).confined
    split <;> exact hmove.trans hflush

theorem cgiMerge_confined {c : Conn} {lf : Nat} (hlf : lf + 2 ≤ bufferSize + 1) :
    Confined c (exec (cgiMerge e lf) c) := by
  rw [(cgiMerge_run e lf c).1]
  exact ((sendRRequestOk_replies e c).confined.trans (headOnly_confined hlf _)).trans
    (mergeTail_confined e _)

/-! The branches of `process_cgi_header`. -/

/-- The header counts as handled. -/
def Request.cgiHandled (r : Request) : Request :=
  { r with cgiStatus := if r.cgiStatus ≠ .done then .buffer else .done }

def Conn.cgiHandled (c : Conn) : Conn := { c with req := c.req.cgiHandled }

/-- The script's output as the string functions see it. -/
def Request.output (r : Request) : Text := r.strAt r.headerLine

def Request.cutAt (r : Request) (lf : Nat) : Request :=
  { r with headerLine := if r.buffer (lf + 1) = 13 then lf + 2 else lf + 1 }

/-- `Status: ` and the byte before it become the version. -/
def Request.versioned (r : Request) : Request :=
  { r with
    buffer := store r.buffer (r.headerLine - 1) (str "HTTP/1.0 ")
    headerLine := r.headerLine - 1 }

section Branches

variable {c : Conn} {i : Nat}

theorem exec_handled (c : Conn) : exec (modReq fun r => { r with
    cgiStatus := if r.cgiStatus ≠ .done then .buffer else .done }) c = c.cgiHandled := rfl

theorem processCgiHeader_none (h : blankLine c.req.output = none) :
    exec (processCgiHeader e) c = exec (sendRBadGateway e) c.cgiHandled ∧
      value (processCgiHeader e) c = 0 := by
  have hb : blankLine (c.cgiHandled.req.strAt c.cgiHandled.req.headerLine) = none := h
  simp only [processCgiHeader, exec_bind, value_bind, exec_getReq, value_getReq, exec_handled, hb]
  exact ⟨rfl, rfl⟩

theorem processCgiHeader_some (h : blankLine c.req.output = some i) :
    exec (processCgiHeader e) c =
        (if c.req.httpVersion = .http09 then
          { c.cgiHandled with req := c.req.cgiHandled.cutAt (c.req.headerLine + i) }
        else if strncaseEq c.req.output (str "Status: ") then
          { c.cgiHandled with req := c.req.cgiHandled.versioned }
        else if strncaseEq c.req.output (str "Location: ") then exec (cgiLocation e) c.cgiHandled
        else exec (cgiMerge e (c.req.headerLine + i)) c.cgiHandled) ∧
      value (processCgiHeader e) c =
        (if c.req.httpVersion = .http09 then 1
        else if strncaseEq c.req.output (str "Status: ") then 1
        else if strncaseEq c.req.output (str "Location: ") then 1
        else value (cgiMerge e (c.req.headerLine + i)) c.cgiHandled) := by
  have hb : blankLine (c.cgiHandled.req.strAt c.cgiHandled.req.headerLine) = some i := h
  simp only [processCgiHeader, exec_bind, value_bind, exec_getReq, value_getReq, exec_handled, hb,
    exec_ite, value_ite]
  exact ⟨rfl, rfl⟩

end Branches

theorem processCgiHeader_confined (c : Conn) : Confined c (exec (processCgiHeader e) c) := by
  have hstart : Confined c c.cgiHandled := .same rfl rfl
  cases hblank : blankLine c.req.output with
  | none =>
    rw [(processCgiHeader_none e hblank).1]
    exact hstart.trans (reply_replies e _ _ _ _ _).confined
  | some i =>
    have hi := blankLine_le hblank
    have hlen := length_strAt_le c.req c.req.headerLine
    unfold Request.output at hi
    rw [(processCgiHeader_some e hblank).1]
    split
    · exact .same rfl rfl
    · split
      · rename_i hstatus
        have hst := length_le_of_strncaseEq hstatus
        have hstr : (str "Status: ").length = 8 := by decide
        have hsize : 9 ≤ bufferSize := by decide
        have hpoke := poke_confined c.cgiHandled (c.req.headerLine - 1) (str "HTTP/1.0 ")
          (by
            unfold Request.output at hst
            rw [show (str "HTTP/1.0 ").length = 9 by decide]
            omega)
        exact (hstart.trans hpoke).trans (.same rfl rfl)
      · split
        · rename_i hloc
          have hurl : 10 ≤ i := by
            by_contra hlt
            have hmem := mem_of_strncaseEq hloc (Nat.lt_of_not_le hlt) (blankLine_lf hblank)
            exact absurd hmem (by decide)
          have hline : c.cgiHandled.req.headerLine + 10 ≤ bufferSize := by
            change c.req.headerLine + 10 ≤ bufferSize
            omega
          exact hstart.trans (cgiLocation_confined e hline)
        · exact hstart.trans (cgiMerge_confined e (by omega))

/-- What goes on after `process_cgi_header` has a header that is handled and a window that
starts in the buffer. -/
theorem mergeTail_room {c : Conn} (h : value (mergeTail e) c = 1) :
    (exec (mergeTail e) c).req.headerLine ≤ bufferSize ∧
      (exec (mergeTail e) c).req.cgiStatus = c.req.cgiStatus := by
  simp only [mergeTail, exec_bind, value_bind, exec_getReq, value_getReq, exec_ite, value_ite,
    exec_modReq, exec_pure, value_pure] at h ⊢
  split at h
  · exact absurd h (by decide)
  · rename_i hfit
    have haside := (reqFlush_replies e { c with req := c.req.merged }).aside
    have hline := congrArg Request.headerLine haside
    have hcgi := congrArg Request.cgiStatus haside
    rw [if_neg hfit]
    split
    all_goals exact ⟨Nat.le_trans (Nat.le_of_eq hline) (Nat.le_of_not_lt hfit), hcgi⟩

theorem headOnly_parsed (r : Request) (lf : Nat) (h : r.cgiStatus ≠ .parse) :
    (r.headOnly lf).cgiStatus ≠ .parse := by
  unfold Request.headOnly
  split
  · exact nofun
  · exact h

theorem cgiHandled_parsed (r : Request) : r.cgiHandled.cgiStatus ≠ .parse := by
  change (if r.cgiStatus ≠ .done then CgiStatus.buffer else .done) ≠ .parse
  split <;> decide

theorem sendRRequestOk_aside (c : Conn) :
    (exec (sendRRequestOk e) c).req.cgiStatus = c.req.cgiStatus := by
  have hcgi := congrArg Request.cgiStatus (sendRRequestOk_replies e c).aside
  exact hcgi

theorem Replies.keeps {α : Type} {m : Srv α} (h : Replies m) :
    Keeps (fun c : Conn => c.req.aside) m := fun c => (h c).aside

/-- A redirect leaves all but the buffer and its indices. -/
theorem locationUrl_keeps (url : Nat) : Keeps (fun c : Conn => c.req.aside) (locationUrl e url) := by
  refine .bind (fun _ => rfl) fun r => .bind (fun _ => rfl) fun _ => .bind (fun _ => rfl) fun r => ?_
  exact .ite (reply_replies e _ _ _ _).keeps (reply_replies e _ _ _ _).keeps

theorem cgiLocation_keeps : Keeps (fun c : Conn => c.req.aside) (cgiLocation e) := by
  have hreply : ∀ url, Keeps (fun c : Conn => c.req.aside) (locationReply e url) := fun url =>
    .bind (fun _ => rfl) fun r => .ite (reply_replies e _ _ _ _).keeps (locationUrl_keeps e url)
  refine .bind (fun _ => rfl) fun _ => .bind (fun _ => rfl) fun r => .bind (hreply _) fun _ => ?_
  exact .bind (fun _ => rfl) fun _ => .pure _

theorem getElem?_cstr {m : Nat → Byte} {k i j : Nat} (h : j < (cstr m k i).length) :
    (cstr m k i)[j]? = some (m (i + j)) := by
  induction k generalizing i j with
  | zero => exact absurd h (Nat.not_lt_zero j)
  | succ k ih =>
    unfold cstr at h ⊢
    split at h
    · exact absurd h (Nat.not_lt_zero j)
    · rename_i hne
      rw [if_neg hne]
      cases j with
      | zero => rfl
      | succ j =>
        rw [List.getElem?_cons_succ, ih (Nat.lt_of_succ_lt_succ h), Nat.add_assoc,
          Nat.add_comm 1 j]

/-- Behind the blank line found there is at least its last LF. -/
theorem blankLine_cut {m : Nat → Byte} {k off i : Nat} (h : blankLine (cstr m k off) = some i) :
    (if m (off + i + 1) = 13 then i + 2 else i + 1) < (cstr m k off).length := by
  unfold blankLine at h
  cases hcr : strstr [10, 13, 10] (cstr m k off) with
  | some j =>
    rw [hcr] at h
    cases h
    have hle := strstr_le hcr
    simp only [List.length_cons, List.length_nil] at hle
    split <;> omega
  | none =>
    rw [hcr, Option.none_or] at h
    have hle := strstr_le h
    simp only [List.length_cons, List.length_nil] at hle
    have hlf : (cstr m k off)[i + 1]? = some 10 :=
      getElem?_of_startsWith (strstr_some h) (j := 1) (by decide)
    rw [getElem?_cstr (by omega)] at hlf
    have hm : m (off + i + 1) = 10 := Option.some.inj hlf
    rw [hm, if_neg (by decide)]
    omega

theorem processCgiHeader_room {c : Conn} (h : value (processCgiHeader e) c = 1) :
    (exec (processCgiHeader e) c).req.headerLine ≤ bufferSize ∧
      (exec (processCgiHeader e) c).req.cgiStatus ≠ .parse := by
  have hparsed := cgiHandled_parsed c.req
  cases hblank : blankLine c.req.output with
  | none =>
    rw [(processCgiHeader_none e hblank).2] at h
    exact absurd h (by decide)
  | some i =>
    have hi := blankLine_le hblank
    have hlen := length_strAt_le c.req c.req.headerLine
    unfold Request.output at hi
    obtain ⟨hrun, hval⟩ := processCgiHeader_some e hblank
    rw [hval] at h
    rw [hrun]
    split
    · have hcut := blankLine_cut hblank
      refine ⟨?_, hparsed⟩
      change (if c.req.buffer (c.req.headerLine + i + 1) = 13 then c.req.headerLine + i + 2
        else c.req.headerLine + i + 1) ≤ bufferSize
      unfold Request.strAt at hlen hi
      split at hcut
      · rename_i hcr
        rw [if_pos hcr]
        omega
      · rename_i hcr
        rw [if_neg hcr]
        omega
    · rename_i hv
      rw [if_neg hv] at h
      split
      · refine ⟨?_, hparsed⟩
        change c.req.headerLine - 1 ≤ bufferSize
        omega
      · rename_i hstatus
        rw [if_neg hstatus] at h
        split
        · have haside := cgiLocation_keeps e c.cgiHandled
          have hline := congrArg Request.headerLine haside
          have hcgi := congrArg Request.cgiStatus haside
          refine ⟨Nat.le_trans (Nat.le_of_eq hline) ?_, fun hp => hparsed (hcgi.symm.trans hp)⟩
          change c.req.headerLine ≤ bufferSize
          omega
        · rename_i hloc
          rw [if_neg hloc, (cgiMerge_run e _ _).2] at h
          obtain ⟨hline, hcgi⟩ := mergeTail_room e h
          rw [(cgiMerge_run e _ _).1, hcgi]
          refine ⟨hline, ?_⟩
          rw [exec_modReq]
          refine headOnly_parsed _ _ ?_
          rw [sendRRequestOk_aside]
          exact hparsed

end Header

end Crotalus
