import Crotalus.Spec.Blank

namespace Crotalus

open Stateful ByteMem

/-! The boundary between the header and the body of a script's output. -/

/-! What `process_cgi_header` passes on. -/

/-- The buffer as `read_from_pipe` hands it over: the script's output, and a NUL behind it. -/
structure OutputRead (r : Request) : Prop where
  line : 0 < r.headerLine
  order : r.headerLine ≤ r.headerEnd
  room : r.headerEnd ≤ bufferSize + 1
  ended : r.buffer r.headerEnd = 0

def Request.namesStatus (r : Request) : Bool := strncaseEq r.output (str "Status: ")
def Request.redirects (r : Request) : Bool := strncaseEq r.output (str "Location: ")

/-- The request once the server's own header is in the buffer; for HEAD the window is cut. -/
def Conn.mergeable (e : Config) (c : Conn) (lf : Nat) : Request :=
  (exec (sendRRequestOk e) c.cgiHandled).req.headOnly lf

/-- The bytes that are moved behind that header. -/
def Request.moved (r : Request) : List Byte :=
  if r.bufferEnd + (r.headerEnd - r.headerLine) > bufferSize then [] else r.unsent

/-- The script's bytes in the answer: those that are moved, or left to `write_from_pipe`. An
error page has none. -/
def Conn.relays (e : Config) (c : Conn) : List Byte :=
  match blankLine c.req.output with
  | none => []
  | some i =>
    if c.req.httpVersion = .http09 ∨ c.req.namesStatus then (exec (processCgiHeader e) c).req.unsent
    else (c.mergeable e (c.req.headerLine + i)).moved

/-- The bytes of a header as they are to be relayed: `Status: ` becomes the version. -/
def Request.relayable (r : Request) (s : List Byte) : List Byte :=
  if r.namesStatus then str "HTTP/1.0 " ++ s.drop 8 else s

/-- Header and body are split behind the first `b` bytes: an HTTP/0.9 client gets the bytes
behind, the answer to HEAD has those before, as the script wrote them. -/
structure SplitsAt (e : Config) (b : Nat) (c : Conn) : Prop where
  body : c.req.httpVersion = .http09 →
    value (processCgiHeader e) c = 1 ∧ c.relays e = c.req.unsent.drop b
  head : c.req.httpVersion ≠ .http09 → c.req.method = .head → c.req.redirects = false →
    c.relays e = c.req.relayable (c.req.unsent.take b)
  own : c.req.httpVersion ≠ .http09 → c.req.method = .head → c.req.redirects = false →
    c.req.namesStatus = false → (exec (sendRRequestOk e) c.cgiHandled).req.unsent = c.req.unsent

section Split

variable (e : Config) {c : Conn} {b i : Nat}

theorem OutputRead.string {r : Request} (h : OutputRead r) :
    r.output = r.unsent.takeWhile (· ≠ 0) := by
  have hroom := h.room
  refine cstr_slice (by omega) (.inr ?_)
  rw [Nat.add_sub_cancel' h.order]
  exact h.ended

theorem OutputRead.starts {r : Request} (h : OutputRead r) : r.output <+: r.unsent := by
  rw [h.string]
  exact List.takeWhile_prefix _

theorem OutputRead.noNul {r : Request} (h : OutputRead r) (h0 : 0 ∉ r.unsent) :
    r.output = r.unsent := by
  rw [h.string, List.takeWhile_eq_self_iff]
  exact fun b hb => decide_eq_true fun hb0 => h0 (hb0 ▸ hb)

/-- The byte behind the line that was found is the one that decides on the cut. -/
theorem cut_eq {r : Request} (hi : blankLine r.output = some i) :
    (if r.buffer (r.headerLine + i + 1) = 13 then i + 2 else i + 1) =
      if r.output[i + 1]? = some 13 then i + 2 else i + 1 := by
  have hle := blankLine_le hi
  have hat : r.output[i + 1]? = some (r.buffer (r.headerLine + i + 1)) :=
    getElem?_cstr (j := i + 1) hle
  rw [hat]
  simp only [Option.some.injEq]

/-- The cut lies inside the output, and not behind its first blank line. -/
theorem cut_misses (h : OutputRead c.req) (hb : headLength c.req.unsent = some b)
    (hi : blankLine c.req.output = some i) {j : Nat}
    (hj : j = if c.req.buffer (c.req.headerLine + i + 1) = 13 then i + 2 else i + 1) :
    j ≠ b ∧ j < c.req.unsent.length := by
  have hcut : j < c.req.output.length := by
    rw [hj]
    exact blankLine_cut hi
  refine ⟨?_, Nat.lt_of_lt_of_le hcut h.starts.length_le⟩
  rw [hj, cut_eq hi]
  exact cut_ne h.starts hi hb

/-- HTTP/0.9: the last LF of the blank line is relayed too, or what was found is not the
first one. -/
theorem http09_misses (h : OutputRead c.req) (hb : headLength c.req.unsent = some b)
    (hv : c.req.httpVersion = .http09) :
    ¬(value (processCgiHeader e) c = 1 ∧ c.relays e = c.req.unsent.drop b) := by
  rintro ⟨hval, hrel⟩
  cases hi : blankLine c.req.output with
  | none =>
    rw [(processCgiHeader_none e hi).2] at hval
    cases hval
  | some i =>
    obtain ⟨j, hj⟩ : ∃ j, j = if c.req.buffer (c.req.headerLine + i + 1) = 13 then i + 2
      else i + 1 := ⟨_, rfl⟩
    obtain ⟨hne, hlt⟩ := cut_misses h hb hi hj
    obtain ⟨k, hk⟩ := headLength_blank hb
    have hle := hk.le
    have hline : (c.req.cgiHandled.cutAt (c.req.headerLine + i)).headerLine =
        c.req.headerLine + j := by
      rw [hj]
      change (if c.req.buffer (c.req.headerLine + i + 1) = 13 then c.req.headerLine + i + 2
        else c.req.headerLine + i + 1) = _
      split <;> omega
    have hrelays : c.relays e = (c.req.cgiHandled.cutAt (c.req.headerLine + i)).unsent := by
      simp only [Conn.relays, hi, hv, true_or, if_true, (processCgiHeader_some e hi).1]
    have hlen := congrArg List.length hrel
    rw [hrelays, length_unsent, hline, List.length_drop, length_unsent] at hlen
    rw [length_unsent] at hle hlt
    change c.req.headerEnd - (c.req.headerLine + j) = _ at hlen
    omega

/-- HEAD: the last LF is missing, or what was found is not the first blank line; too much to
move is not moved at all. -/
theorem merge_misses (h : OutputRead c.req) (hb : headLength c.req.unsent = some b)
    (hm : c.req.method = .head) (hi : blankLine c.req.output = some i)
    (hown : (exec (sendRRequestOk e) c.cgiHandled).req.unsent = c.req.unsent) :
    (c.mergeable e (c.req.headerLine + i)).moved ≠ c.req.unsent.take b := by
  obtain ⟨j, hj⟩ : ∃ j, j = if c.req.buffer (c.req.headerLine + i + 1) = 13 then i + 2
    else i + 1 := ⟨_, rfl⟩
  obtain ⟨hne, hlt⟩ := cut_misses h hb hi hj
  obtain ⟨k, hk⟩ := headLength_blank hb
  have hle := hk.le
  have hpos : 0 < b := by cases hk <;> omega
  have haside := (sendRRequestOk_replies e c.cgiHandled).aside
  unfold Conn.mergeable
  generalize (exec (sendRRequestOk e) c.cgiHandled).req = r at hown haside ⊢
  have hmethod : r.method = .head := (congrArg Request.method haside).trans hm
  have hline := congrArg Request.headerLine haside
  have hline' : r.headerLine = c.req.headerLine := hline
  have hbyte : r.buffer (c.req.headerLine + i + 1) = c.req.buffer (c.req.headerLine + i + 1) := by
    have hi1 : i + 1 < c.req.unsent.length :=
      Nat.lt_of_lt_of_le (blankLine_le hi) h.starts.length_le
    have hat := congrArg (fun s : List Byte => s[i + 1]?) hown
    have hi2 : i + 1 < r.unsent.length := by rw [hown]; exact hi1
    rw [length_unsent] at hi1 hi2
    simp only [Request.unsent, getElem?_slice _ hi1, getElem?_slice _ hi2, Option.some.injEq] at hat
    rw [hline'] at hat
    exact hat
  have hend : (r.headOnly (c.req.headerLine + i)).headerEnd = c.req.headerLine + j := by
    rw [Request.headOnly, if_pos hmethod, hj]
    change (if r.buffer (c.req.headerLine + i + 1) = 13 then c.req.headerLine + i + 2
      else c.req.headerLine + i + 1) = _
    rw [hbyte]
    split <;> omega
  have hstart : (r.headOnly (c.req.headerLine + i)).headerLine = c.req.headerLine := by
    rw [Request.headOnly, if_pos hmethod]
    exact hline'
  intro hrel
  have hlen := congrArg List.length hrel
  rw [List.length_take, Nat.min_eq_left hle, Request.moved] at hlen
  split at hlen
  · exact absurd hlen (Nat.ne_of_lt hpos)
  · rw [length_unsent, hend, hstart] at hlen
    omega

/-- `Status: ` goes out as the version, and all that follows goes out with it. -/
theorem status_relays (h : OutputRead c.req) (hi : blankLine c.req.output = some i)
    (hv : c.req.httpVersion ≠ .http09) (hs : c.req.namesStatus = true) :
    c.relays e = c.req.relayable c.req.unsent := by
  have hlen := Nat.le_trans (length_le_of_strncaseEq hs) h.starts.length_le
  have hstr : (str "Status: ").length = 8 := by decide
  have hnine : (str "HTTP/1.0 ").length = 9 := by decide
  have hline := h.line
  rw [hstr, length_unsent] at hlen
  have hrelays : c.relays e = c.req.cgiHandled.versioned.unsent := by
    have hstatus : strncaseEq c.req.output (str "Status: ") = true := hs
    have hrun := (processCgiHeader_some e hi).1
    rw [if_neg hv, if_pos hstatus] at hrun
    simp only [Conn.relays, hi, hs, or_true, if_true, hrun]
  rw [hrelays, Request.relayable, if_pos hs]
  change slice (store c.req.buffer (c.req.headerLine - 1) (str "HTTP/1.0 ")) (c.req.headerLine - 1)
    (c.req.headerEnd - (c.req.headerLine - 1)) = _
  have hsplit : c.req.headerEnd - (c.req.headerLine - 1) =
      (str "HTTP/1.0 ").length + (c.req.headerEnd - c.req.headerLine - 8) := by omega
  have hrest : c.req.headerLine - 1 + (str "HTTP/1.0 ").length = c.req.headerLine + 8 := by omega
  rw [hsplit, slice_append, slice_store, hrest, Request.unsent, slice_drop _ _ _ _ hlen]
  refine congrArg _ (slice_congr fun j hlo _ => store_above _ _ _ _ ?_)
  omega

/-- The first blank line stands behind `Status: `. -/
theorem status_before (h : OutputRead c.req) (hb : headLength c.req.unsent = some b)
    (hs : c.req.namesStatus = true) : 8 ≤ b ∧ b ≤ c.req.unsent.length := by
  obtain ⟨k, hk⟩ := headLength_blank hb
  have hlf : c.req.unsent[k]? = some 10 := by
    cases hk with
    | lf hk => exact getElem?_of_startsWith hk (j := 0) (by decide)
    | crlf hk => exact getElem?_of_startsWith hk (j := 0) (by decide)
  have hlen := length_le_of_strncaseEq hs
  have hstr : (str "Status: ").length = 8 := by decide
  refine ⟨?_, hk.le⟩
  by_contra hlt
  have hk8 : k < 8 := by cases hk <;> omega
  obtain ⟨t, ht⟩ := h.starts
  rw [← ht, List.getElem?_append_left (by omega)] at hlf
  exact absurd (mem_of_strncaseEq hs (by omega) hlf) (by decide)

theorem relayable_ne (hb : headLength c.req.unsent = some b) :
    [] ≠ c.req.relayable (c.req.unsent.take b) := by
  obtain ⟨k, hk⟩ := headLength_blank hb
  have hle := hk.le
  have hpos : 0 < b := by cases hk <;> omega
  intro hnil
  have hlen := congrArg List.length hnil
  unfold Request.relayable at hlen
  split at hlen
  · rw [List.length_append, show (str "HTTP/1.0 ").length = 9 by decide, List.length_nil] at hlen
    omega
  · rw [List.length_take, List.length_nil] at hlen
    omega

/-- Split at the first blank line: the script's output is not, unless there is nothing to
split. -/
theorem splits_iff (h : OutputRead c.req) (hb : headLength c.req.unsent = some b) :
    SplitsAt e b c ↔ c.req.httpVersion ≠ .http09 ∧
      (c.req.method = .head → c.req.redirects = false →
        c.req.namesStatus = true ∧ c.req.unsent.length = b ∧ 0 ∉ c.req.unsent) := by
  constructor
  · intro hsplit
    have hv : c.req.httpVersion ≠ .http09 := fun hv => http09_misses e h hb hv (hsplit.body hv)
    refine ⟨hv, fun hm hloc => ?_⟩
    have hhead := hsplit.head hv hm hloc
    cases hi : blankLine c.req.output with
    | none =>
      have hnil : c.relays e = [] := by simp only [Conn.relays, hi]
      rw [hnil] at hhead
      exact absurd hhead (relayable_ne hb)
    | some i =>
      cases hs : c.req.namesStatus with
      | false =>
        have hmoved : c.relays e = (c.mergeable e (c.req.headerLine + i)).moved := by
          simp only [Conn.relays, hi, hs, hv, or_self, Bool.false_eq_true, if_false]
        rw [hmoved, Request.relayable, if_neg (by rw [hs]; exact Bool.false_ne_true)] at hhead
        exact absurd hhead (merge_misses e h hb hm hi (hsplit.own hv hm hloc hs))
      | true =>
        obtain ⟨hlo, hle⟩ := status_before h hb hs
        rw [status_relays e h hi hv hs, Request.relayable, Request.relayable, if_pos hs,
          if_pos hs] at hhead
        have hlen := congrArg List.length (List.append_cancel_left hhead)
        rw [List.length_drop, List.length_drop, List.length_take, Nat.min_eq_left hle] at hlen
        have hall : c.req.unsent.length = b := by omega
        refine ⟨rfl, hall, ?_⟩
        have hout : c.req.output = c.req.unsent := by
          rcases blankLine_blank hi with ⟨hblank, -⟩ | ⟨hblank, -⟩
          · exact blank_all h.starts hblank (hall ▸ hb)
          · exact blank_all h.starts hblank (hall ▸ hb)
        rw [← hout, h.string]
        intro h0
        have hne := List.mem_takeWhile_imp h0
        exact absurd hne (by decide)
  · rintro ⟨hv, hcond⟩
    refine ⟨fun h09 => absurd h09 hv, fun _ hm hloc => ?_, fun _ hm hloc hs => ?_⟩
    · obtain ⟨hs, hall, h0⟩ := hcond hm hloc
      obtain ⟨k, hk⟩ := headLength_blank hb
      obtain ⟨i, hi⟩ := blankLine_of_blank hk
      rw [← h.noNul h0] at hi
      rw [status_relays e h hi hv hs, List.take_of_length_le (Nat.le_of_eq hall)]
    · rw [(hcond hm hloc).1] at hs
      cases hs

/-- What a read of `bs` leaves to `process_cgi_header`. -/
def Conn.gotOutput (c : Conn) (bs : List Byte) : Conn :=
  { c with req := { c.req with
      buffer := store c.req.buffer c.req.headerEnd (bs ++ [0])
      headerEnd := c.req.headerEnd + bs.length
      cgiStatus := .done } }

theorem readDone_handsOver {bs : List Byte} (hp : c.req.cgiStatus = .parse) (hbs : bs ≠ [])
    (hi : blankLine (c.gotOutput bs).req.output = some i) (writeStatus readStatus : Status) :
    exec (readDone e writeStatus readStatus bs) c = exec (processCgiHeader e) (c.gotOutput bs) := by
  have hparse : ¬c.req.cgiStatus ≠ .parse := not_not.mpr hp
  have hsome : ¬(blankLine (c.gotOutput bs).req.output).isNone = true := by
    rw [hi]
    exact Bool.false_ne_true
  simp only [readDone, exec_bind, exec_getReq, value_getReq, if_neg hbs, if_neg hparse, poke,
    exec_modReq, exec_ite]
  exact if_neg hsome

theorem gotOutput_read {bs : List Byte} (hline : 0 < c.req.headerLine)
    (horder : c.req.headerLine ≤ c.req.headerEnd)
    (hroom : c.req.headerEnd + bs.length ≤ bufferSize + 1) : OutputRead (c.gotOutput bs).req :=
  ⟨hline, Nat.le_trans horder (Nat.le_add_right _ _), hroom, store_last _ _ _ _⟩

end Split

/-- The output of a script in the upper half of the buffer. -/
def scripted (v : Version) (m : Method) (out : Text) : Conn where
  req := {
    status := .pipeRead, httpVersion := v, method := m, cgiType := .exec, cgiStatus := .parse
    buffer := store (fun _ => 0) 2048 out, headerLine := 2048, headerEnd := 2048 + out.length }

theorem scripted_read (v : Version) (m : Method) (out : Text) (h : out.length ≤ 2048) :
    OutputRead (scripted v m out).req := by
  refine ⟨Nat.succ_pos 2047, Nat.le_add_right _ _, ?_,
    store_above (fun _ => 0) 2048 (2048 + out.length) out (Nat.le_refl _)⟩
  change 2048 + out.length ≤ bufferSize + 1
  have hsize : bufferSize = 4096 := rfl
  omega

/-- `Status: 204 N`, and no body. -/
def statusOnly : Text := [83, 116, 97, 116, 117, 115, 58, 32, 50, 48, 52, 32, 78, 10, 10]

theorem splits_statusOnly : SplitsAt {} 15 (scripted .http11 .head statusOnly) :=
  (splits_iff {} (scripted_read _ _ _ (by decide)) (by decide +kernel)).mpr
    ⟨by decide, fun _ _ => by decide +kernel⟩

/-- `A: b` and the body `hi`. -/
def fieldAndBody : Text := [65, 58, 32, 98, 10, 10, 104, 105]

/-- The last LF of the blank line goes to the body. -/
theorem http09_missplit :
    OutputRead (scripted .http09 .get fieldAndBody).req ∧
      headLength (scripted .http09 .get fieldAndBody).req.unsent = some 6 ∧
      (scripted .http09 .get fieldAndBody).relays {} = [10, 104, 105] ∧
      ¬SplitsAt {} 6 (scripted .http09 .get fieldAndBody) := by
  have hrelays : (scripted .http09 .get fieldAndBody).relays {} = [10, 104, 105] := by
    decide +kernel
  refine ⟨scripted_read _ _ _ (by decide), by decide +kernel, hrelays, fun h => ?_⟩
  have hbody := (h.body rfl).2
  rw [hrelays] at hbody
  exact absurd hbody (by decide +kernel)

end Crotalus
