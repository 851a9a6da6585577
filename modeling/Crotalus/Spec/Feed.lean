import Crotalus.Spec.Parsed
import Crotalus.Spec.Turn

namespace Crotalus

open Stateful

/-! The reading of a header byte by byte. -/

/-- The two connections have parsed the same. -/
def Conn.Alike (a b : Conn) : Prop := a.parsed true = b.parsed true

/-- And so they have, but for the end of the body that may have come with the header. -/
def Conn.Like (a b : Conn) : Prop := a.parsed false = b.parsed false

section Alike

variable {a b : Conn}

theorem Conn.Alike.like (h : a.Alike b) : a.Like b := by
  have hf := congrArg (Conn.parsed false) h
  rwa [a.parsed_parsed, b.parsed_parsed] at hf

theorem Conn.Alike.map {γ : Type} (f : Conn → γ) (h : a.Alike b) :
    f (a.parsed true) = f (b.parsed true) := congrArg f h

theorem Conn.Like.map {γ : Type} (f : Conn → γ) (h : a.Like b) :
    f (a.parsed false) = f (b.parsed false) := congrArg f h

theorem Conn.Alike.status (h : a.Alike b) : a.req.status = b.req.status :=
  h.map fun c => c.req.status

theorem Conn.Like.status (h : a.Like b) : a.req.status = b.req.status :=
  h.map fun c => c.req.status

theorem Conn.Alike.pos (h : a.Alike b) : a.req.parsePos = b.req.parsePos :=
  h.map fun c => c.req.parsePos

theorem Conn.Alike.ends (h : a.Alike b) : a.req.headerEnd = b.req.headerEnd :=
  h.map fun c => c.req.headerEnd

theorem Conn.Alike.line (h : a.Alike b) : a.req.headerLine = b.req.headerLine :=
  h.map fun c => c.req.headerLine

theorem Conn.Alike.stream (h : a.Alike b) :
    a.req.clientStream.take a.req.parsePos = b.req.clientStream.take b.req.parsePos :=
  h.map fun c => c.req.clientStream

/-- A line that is complete has been parsed. -/
theorem Conn.Alike.take (h : a.Alike b) (hend : b.req.headerEnd ≤ b.req.parsePos) :
    a.req.clientStream.take a.req.headerEnd = b.req.clientStream.take b.req.headerEnd := by
  have htake : ∀ c : Conn, c.req.headerEnd ≤ c.req.parsePos →
      (c.req.clientStream.take c.req.parsePos).take c.req.headerEnd =
        c.req.clientStream.take c.req.headerEnd := fun c hc => by
    rw [List.take_take, Nat.min_eq_left hc]
  rw [← htake b hend, ← htake a (h.ends ▸ h.pos ▸ hend), h.stream, h.ends]

theorem Conn.Alike.text (h : a.Alike b) (hend : b.req.headerEnd ≤ b.req.parsePos) :
    a.req.headerText = b.req.headerText := by
  have hcut : ∀ r : Request, (r.clientStream.drop r.headerLine).take (r.headerEnd - r.headerLine) =
      (r.clientStream.take r.headerEnd).drop r.headerLine := fun r => List.drop_take.symm
  rw [Request.headerText, Request.headerText, hcut, hcut, h.take hend, h.line]

end Alike

section Bytes

variable {e : Config} {a b : Conn}

/-- A line whose texts are known. -/
def lineDone (e : Config) (first text : Text) : Srv (Option Int) := do
  let r ← getReq
  if r.headerEnd - r.headerLine ≥ maxHeaderLength then
    sendRBadRequest e
    return some 0
  else if r.logline ≠ none then
    if ← processOptionLine e text then
      modReq fun r => { r with headerLine := r.parsePos }
      return none
    else return some 0
  else if ← processLogline e first then
    if (← getReq).httpVersion = .http09 then
      let ret ← endHeader e
      return some ret
    else
      modReq fun r => { r with headerLine := r.parsePos }
      return none
  else return some 0

theorem headerLineDone_eq : headerLineDone e =
    getReq >>= fun r => lineDone e (r.clientStream.take r.headerEnd) r.headerText := rfl

theorem lineDone_blind (first text : Text) : Blinds true (lineDone e first text) := by
  refine .readReq (fun _ => rfl) fun r => .ite (sendRBadRequest_blind.returning _) <| .ite ?_ ?_
  · refine (processOptionLine_blind _).bind fun _ => .ite ?_ (.pure _)
    exact .setting (fun _ => ⟨rfl, rfl⟩) (.pure _)
  · refine (processLogline_blind _).bind fun _ => .ite ?_ (.pure _)
    refine .readReq (fun _ => rfl) fun r => .ite (endHeader_blind.bind fun _ => .pure _) ?_
    exact .setting (fun _ => ⟨rfl, rfl⟩) (.pure _)

theorem headerLineDone_alike (h : a.Alike b) (hend : b.req.headerEnd ≤ b.req.parsePos) :
    value (headerLineDone e) a = value (headerLineDone e) b ∧
      (exec (headerLineDone e) a).Alike (exec (headerLineDone e) b) := by
  rw [headerLineDone_eq]
  simp only [value_bind, exec_bind, value_getReq, exec_getReq, h.take hend, h.text hend]
  exact (lineDone_blind _ _).agree h

theorem startBody_blind (ret : Int) : Blinds false (startBody e ret) := by
  refine Blinds.bind (Blind.modify (fun c => ?_) fun _ => rfl) fun _ =>
    Blinds.bind (Blind.modify (fun c => ?_) fun _ => rfl) fun _ => ?_
  · exact c.parsed_self false
  · exact Conn.parsed_self false { c with req := { c.req with
      headerArea := .stream, headerLine := c.req.parsePos, headerEnd := 0 } }
  refine (Blinds.setStatus _).bind fun _ => .readReq (fun _ => rfl) fun r => ?_
  split
  · exact sendRBadRequest_blind.returning _
  · refine Blinds.bind (Blind.modify (fun c => ?_) fun _ => rfl) fun _ => .pure _
    exact Conn.parsed_self false { c with req := { c.req with
      filesize := _, filepos := 0, headerEnd := 0 } }

theorem headerDone_like (h : a.Alike b) :
    value (headerDone e) a = value (headerDone e) b ∧
      (exec (headerDone e) a).Like (exec (headerDone e) b) := by
  obtain ⟨hv, he⟩ := endHeader_blind.agree (m := endHeader e) h
  have hlike : (exec (endHeader e) a).Like (exec (endHeader e) b) := Conn.Alike.like he
  have hmethod : (exec (endHeader e) a).req.method = (exec (endHeader e) b).req.method :=
    hlike.map fun c => c.req.method
  simp only [headerDone, value_bind, exec_bind, value_getReq, exec_getReq, hv, hmethod]
  split
  · exact (startBody_blind _).agree hlike
  · exact ⟨rfl, hlike⟩

/-- One byte further. -/
def Request.bump (uc : Byte) (r : Request) : Request :=
  { r with
    headerEnd := if r.status = .readHeader ∧ (uc = 13 ∨ uc = 10) then r.parsePos else r.headerEnd
    parsePos := r.parsePos + 1 }

/-- One byte further, in the status that it leads to. -/
def Conn.bump (uc : Byte) (c : Conn) : Conn :=
  exec (setStatus (headerStatus c.req.status uc)) { c with req := c.req.bump uc }

/-- What the new status leads to. -/
def statusDone (e : Config) (st : Status) : Srv (Option Int) :=
  if st = .oneLf then headerLineDone e
  else if st = .bodyRead then do
    let ret ← headerDone e
    return some ret
  else return none

theorem readByte_legal {uc : Byte} (h : legalByte uc = true) (c : Conn) :
    value (readByte e uc) c = value (statusDone e (headerStatus c.req.status uc)) (c.bump uc) ∧
      exec (readByte e uc) c = exec (statusDone e (headerStatus c.req.status uc)) (c.bump uc) := by
  have hlegal : ¬(!legalByte uc) = true := by
    rw [h]
    exact Bool.false_ne_true
  rw [readByte, if_neg hlegal]
  exact ⟨rfl, rfl⟩

theorem Conn.Alike.bump {uc : Byte} (h : a.Alike b)
    (ha : a.req.clientStream[a.req.parsePos]? = some uc)
    (hb : b.req.clientStream[b.req.parsePos]? = some uc) : (a.bump uc).Alike (b.bump uc) := by
  have htake : ∀ c : Conn, c.req.clientStream[c.req.parsePos]? = some uc →
      c.req.clientStream.take (c.req.parsePos + 1) =
        c.req.clientStream.take c.req.parsePos ++ [uc] := by
    intro c hc
    rw [List.take_add_one, hc]
    rfl
  -- what is parsed then is what was parsed and the byte
  let next : Conn → Conn := fun c => { c with req := { c.req.bump uc with
    clientStream := c.req.clientStream ++ [uc] } }
  have hnext : ∀ c : Conn, c.req.clientStream[c.req.parsePos]? = some uc →
      ({ c with req := c.req.bump uc } : Conn).parsed true = next (c.parsed true) := by
    intro c hc
    exact congrArg (fun s => { c.parsed true with req := { c.req.bump uc with clientStream := s } })
      (htake c hc)
  have hreq : Conn.Alike { a with req := a.req.bump uc } { b with req := b.req.bump uc } := by
    unfold Conn.Alike
    rw [hnext a ha, hnext b hb, show a.parsed true = b.parsed true from h]
  rw [Conn.bump, Conn.bump, h.status]
  exact ((Blinds.setStatus _).agree hreq).2

/-- The end of a line in hand lies before the position. -/
def Conn.Marked (c : Conn) : Prop := c.req.status = .oneCr → c.req.headerEnd < c.req.parsePos

theorem bump_ends (uc : Byte) {c : Conn} (hm : c.Marked) (hs : c.req.status.reading = true)
    (hst : headerStatus c.req.status uc = .oneLf ∨ headerStatus c.req.status uc = .oneCr) :
    (c.bump uc).req.headerEnd < (c.bump uc).req.parsePos := by
  change (if c.req.status = .readHeader ∧ (uc = 13 ∨ uc = 10) then c.req.parsePos
    else c.req.headerEnd) < c.req.parsePos + 1
  unfold Conn.Marked at hm
  generalize c.req.status = st at hm hs hst
  cases st with
  | readHeader =>
    by_cases huc : uc = 13 ∨ uc = 10
    · rw [if_pos ⟨rfl, huc⟩]
      exact Nat.lt_succ_self _
    · rw [not_or] at huc
      simp only [headerStatus, if_neg huc.1, if_neg huc.2, reduceCtorEq, or_self] at hst
  | oneCr =>
    rw [if_neg (fun h => by cases h.1)]
    exact Nat.lt_succ_of_lt (hm rfl)
  | oneLf | twoCr =>
    simp only [headerStatus] at hst
    split at hst
    · simp only [reduceCtorEq, or_self] at hst
    · split at hst <;> simp only [reduceCtorEq, or_self] at hst
  | bodyRead | bodyWrite | write | buffPoll | buffRead | buffWrite | pipeRead | pipeWrite
  | ioshuffle | done | timedOut | dead => cases hs

theorem Responding.read : Responding Status.read (fun _ => True) := by
  constructor <;> intros <;> first | rfl | trivial

theorem endHeader_scans : Scans Status.read (fun _ => True) (endHeader e) := by
  intro c
  obtain ⟨host, hw⟩ := processHeaderEnd_works e (exec (mark .headerEnd) c) Responding.read
  exact (Works.mark trivial c).scanned.trans
    ⟨hw.place, hw.scanned.stream, hw.scanned.pos, hw.status, hw.passed⟩

/-- A line that is done leaves its status, or the reading. -/
theorem headerLineDone_scans : Scans Status.read (fun _ => True) (headerLineDone e) := by
  have hdead := Responding.read.dead
  refine .bind .getReq fun r _ => ?_
  refine .ite (.bind (sendRBadRequest_works e hdead).scans fun _ _ => .pure _) <| .ite ?_ ?_
  · refine .bind (processOptionLine_scans e hdead trivial _) fun _ _ => .ite ?_ (.pure _)
    exact .bind (.modReq fun _ => rfl) fun _ _ => .pure _
  · refine .bind (processLogline_scans e hdead trivial _) fun _ _ => .ite ?_ (.pure _)
    refine .bind .getReq fun r _ => .ite (.bind endHeader_scans fun _ _ => .pure _) ?_
    exact .bind (.modReq fun _ => rfl) fun _ _ => .pure _

/-- The same byte does the same, and what it does to a request that is still read keeps the end
of the line in hand. -/
theorem readByte_alike {uc : Byte} (h : a.Alike b)
    (ha : a.req.clientStream[a.req.parsePos]? = some uc)
    (hb : b.req.clientStream[b.req.parsePos]? = some uc) (hm : b.Marked)
    (hs : b.req.status.reading = true) :
    value (readByte e uc) a = value (readByte e uc) b ∧
      (exec (readByte e uc) a).Like (exec (readByte e uc) b) ∧
      (value (readByte e uc) b ≠ some 0 → (exec (readByte e uc) b).req.status.reading = true →
        (exec (readByte e uc) a).Alike (exec (readByte e uc) b) ∧
          (exec (readByte e uc) b).Marked) := by
  by_cases hlegal : legalByte uc = true
  · obtain ⟨hva, hea⟩ := readByte_legal (e := e) hlegal a
    obtain ⟨hvb, heb⟩ := readByte_legal (e := e) hlegal b
    rw [hva, hea, hvb, heb, h.status]
    have hbump := h.bump ha hb
    have hst : (b.bump uc).req.status = headerStatus b.req.status uc := rfl
    have hends := bump_ends uc hm hs
    generalize headerStatus b.req.status uc = st at hst hends
    unfold statusDone
    by_cases hlf : st = .oneLf
    · rw [if_pos hlf]
      obtain ⟨hv, halike⟩ := headerLineDone_alike (e := e) hbump (Nat.le_of_lt (hends (.inl hlf)))
      refine ⟨hv, halike.like, fun _ hreading => ⟨halike, fun hcr => ?_⟩⟩
      rcases (headerLineDone_scans (e := e) (b.bump uc)).status with hsame | hleft
      · rw [hsame, hst, hlf] at hcr
        cases hcr
      · rw [hleft] at hreading
        cases hreading
    rw [if_neg hlf]
    by_cases hbody : st = .bodyRead
    · rw [if_pos hbody]
      obtain ⟨hv, hlike⟩ := headerDone_like (e := e) hbump
      refine ⟨congrArg some hv, hlike, fun _ hreading => ?_⟩
      have hleft := headerDone_leaves e (hst.trans hbody)
      exact absurd (hleft.symm.trans hreading) Bool.false_ne_true
    · rw [if_neg hbody]
      exact ⟨rfl, hbump.like, fun _ _ => ⟨hbump, fun hcr => hends (.inr (hst.symm.trans hcr))⟩⟩
  · have hillegal : (!legalByte uc) = true := by
      rw [Bool.eq_false_iff.mpr hlegal]
      rfl
    have hrun : readByte e uc = sendRBadRequest e >>= fun _ => return some 0 := by
      rw [readByte, if_pos hillegal]
    rw [hrun]
    obtain ⟨hv, halike⟩ := (sendRBadRequest_blind.returning (some (0 : Int))).agree (m := do
      sendRBadRequest e
      return some (0 : Int)) h
    exact ⟨hv, Conn.Alike.like halike, fun hne _ => absurd rfl hne⟩

theorem headerLineDone_ahead (c : Conn) : (exec (headerLineDone e) c).ahead = c.ahead := by
  rw [headerLineDone_eq]
  exact (lineDone_blind _ _).keeps c

/-- A byte that the reading goes on behind has been parsed, and no more. -/
theorem readByte_ahead {uc : Byte} {c : Conn} (hv : value (readByte e uc) c ≠ some 0)
    (hreading : (exec (readByte e uc) c).req.status.reading = true) :
    (exec (readByte e uc) c).ahead = (c.sys.recv, c.req.clientStream, c.req.parsePos + 1) := by
  by_cases hlegal : legalByte uc = true
  · obtain ⟨-, he⟩ := readByte_legal (e := e) hlegal c
    rw [he] at hreading ⊢
    have hst : (c.bump uc).req.status = headerStatus c.req.status uc := rfl
    generalize headerStatus c.req.status uc = st at hreading hst ⊢
    unfold statusDone at hreading ⊢
    by_cases hlf : st = .oneLf
    · rw [if_pos hlf]
      exact headerLineDone_ahead _
    rw [if_neg hlf] at hreading ⊢
    by_cases hbody : st = .bodyRead
    · rw [if_pos hbody] at hreading
      have hleft := headerDone_leaves e (hst.trans hbody)
      exact absurd (hleft.symm.trans hreading) Bool.false_ne_true
    · rw [if_neg hbody]
      rfl
  · have hillegal : (!legalByte uc) = true := by
      rw [Bool.eq_false_iff.mpr hlegal]
      rfl
    rw [readByte, if_pos hillegal] at hv
    exact absurd rfl hv

end Bytes

/-! Whole headers. -/

/-- What a call of `read_header` leads to: the next one while the request stays in a status of
its header and the value is one for "blocked" or "more". -/
def unlessDecided (ret : Int) (next : Srv (Option Int)) : Srv (Option Int) := do
  if (ret = 1 ∨ ret = -1) ∧ (← getReq).status.reading then next else return some ret

/-- At most `n` calls of `read_header`; `none` when the header is still being read. -/
def readHeaders (e : Config) : Nat → Srv (Option Int)
  | 0 => return none
  | n + 1 => do
    let ret ← readHeader e
    unlessDecided ret (readHeaders e n)

/-- Results of `read` that bring the bytes `s` in pieces, with EAGAIN and EINTR in between, and
go on with `fin`. -/
inductive Delivers (fin : List RecvRes) : List RecvRes → List Byte → Prop where
  | done : Delivers fin fin []
  | data {bs : List Byte} {rs : List RecvRes} {s : List Byte} (hbs : bs ≠ [])
      (h : Delivers fin rs s) : Delivers fin (.data bs :: rs) (bs ++ s)
  | again {rs : List RecvRes} {s : List Byte} (h : Delivers fin rs s) :
      Delivers fin (.fail .again :: rs) s
  | intr {rs : List RecvRes} {s : List Byte} (h : Delivers fin rs s) :
      Delivers fin (.fail .intr :: rs) s

/-- Behind its bytes the client is silent or gone. -/
inductive Stops : List RecvRes → Prop where
  | silent : Stops []
  | closed (rs : List RecvRes) : Stops (.data [] :: rs)
  | failed {err : Errno} (ha : err ≠ .again) (hi : err ≠ .intr) (rs : List RecvRes) :
      Stops (.fail err :: rs)

/-- The bytes of `s` one after the other. -/
def readEach (e : Config) (fin : List RecvRes) : List Byte → Srv (Option Int)
  | [] => do
    modify fun c => { c with sys := { c.sys with recv := fin } }
    let ret ← readMore
    return if ret = 0 then some 0 else none
  | uc :: s => do
    if (← getReq).clientStream.length < clientStreamSize then
      modReq fun r => { r with clientStream := r.clientStream ++ [uc] }
      match ← readByte e uc with
      | some ret => unlessDecided ret (readEach e fin s)
      | none => readEach e fin s
    else
      let ret ← readMore
      return some ret

/-- How many calls of `read` the results can last for. -/
def readsLeft : List RecvRes → Nat
  | [] => 0
  | .data bs :: rs => 2 * bs.length + 1 + readsLeft rs
  | .fail _ :: rs => 1 + readsLeft rs

/-- What one `read` takes of the delivery. -/
theorem Delivers.takes {fin rs : List RecvRes} {y : List Byte} {k : Nat} (hk : 0 < k)
    (h : Delivers fin rs y) :
    (rs = fin ∧ y = []) ∨
      (∃ bs rs' y', takeRecv k rs = (.ok bs, rs') ∧ bs ≠ [] ∧ bs.length ≤ k ∧ y = bs ++ y' ∧
        Delivers fin rs' y' ∧ bs.length + readsLeft rs' < readsLeft rs) ∨
      ∃ err rs', takeRecv k rs = (.error err, rs') ∧ (err = .again ∨ err = .intr) ∧
        Delivers fin rs' y ∧ readsLeft rs' < readsLeft rs := by
  cases h with
  | done => exact .inl ⟨rfl, rfl⟩
  | @data bs rs s hbs h =>
    have hpos : 0 < bs.length := List.length_pos_iff.mpr hbs
    refine .inr (.inl ?_)
    by_cases hle : bs.length ≤ k
    · have htake : takeRecv k (.data bs :: rs) = (.ok bs, rs) := by
        rw [takeRecv, if_pos hle, List.take_of_length_le hle]
      refine ⟨bs, rs, s, htake, hbs, hle, rfl, h, ?_⟩
      rw [readsLeft]
      omega
    · have hlen : (bs.take k).length = k := List.length_take_of_le (by omega)
      have hdrop : bs.drop k ≠ [] := fun hnil => hle (List.drop_eq_nil_iff.mp hnil)
      refine ⟨bs.take k, .data (bs.drop k) :: rs, bs.drop k ++ s, ?_, ?_, by omega, ?_,
        .data hdrop h, ?_⟩
      · rw [takeRecv, if_neg hle]
      · exact List.ne_nil_of_length_pos (by omega)
      · rw [← List.append_assoc, List.take_append_drop]
      · rw [readsLeft, readsLeft, hlen, List.length_drop]
        omega
  | @again rs s h => exact .inr (.inr ⟨.again, rs, rfl, .inl rfl, h, by rw [readsLeft]; omega⟩)
  | @intr rs s h => exact .inr (.inr ⟨.intr, rs, rfl, .inr rfl, h, by rw [readsLeft]; omega⟩)

/-- `a` has parsed what `b` has, and its buffer holds the bytes `x` besides. -/
structure Tracks (a b : Conn) (x : List Byte) : Prop where
  alike : a.Alike b
  stream : a.req.clientStream = b.req.clientStream ++ x
  whole : b.req.clientStream.length = b.req.parsePos
  room : a.req.clientStream.length ≤ clientStreamSize
  reading : b.req.status.reading = true
  marked : b.Marked

/-- Two programs end the same. -/
structure SameEnd (m m' : Srv (Option Int)) (a b : Conn) : Prop where
  value : value m a = value m' b
  like : (exec m a).Like (exec m' b)

section Runs

variable {e : Config} {fin : List RecvRes} {a b : Conn} {x y : List Byte}

theorem Conn.Alike.growing (h : a.Alike b) (hb : b.req.clientStream.length = b.req.parsePos)
    (s : List Byte) :
    a.Alike { b with req := { b.req with clientStream := b.req.clientStream ++ s } } := by
  refine Eq.trans h ?_
  have htake : (b.req.clientStream ++ s).take b.req.parsePos =
      b.req.clientStream.take b.req.parsePos := by
    rw [← hb, List.take_left, List.take_length]
  exact congrArg (fun s => { b.parsed true with req := { b.req with clientStream := s } })
    htake.symm

/-- One byte on both sides. -/
theorem Tracks.byte {uc : Byte} (h : Tracks a b (uc :: x)) {b' : Conn}
    (hb' : b' = { b with req := { b.req with clientStream := b.req.clientStream ++ [uc] } }) :
    value (readByte e uc) a = value (readByte e uc) b' ∧
      (exec (readByte e uc) a).Like (exec (readByte e uc) b') ∧
      (value (readByte e uc) b' ≠ some 0 → (exec (readByte e uc) b').req.status.reading = true →
        Tracks (exec (readByte e uc) a) (exec (readByte e uc) b') x ∧
          (exec (readByte e uc) a).sys.recv = a.sys.recv) := by
  have halike : a.Alike b' := by
    rw [hb']
    exact h.alike.growing h.whole [uc]
  have hstream : b'.req.clientStream = b.req.clientStream ++ [uc] := by rw [hb']
  have hpos : b'.req.parsePos = b.req.clientStream.length := by rw [hb', h.whole]
  have hata : a.req.clientStream[a.req.parsePos]? = some uc := by
    rw [halike.pos, hpos, h.stream, List.getElem?_append_right (Nat.le_refl _), Nat.sub_self]
    rfl
  have hatb : b'.req.clientStream[b'.req.parsePos]? = some uc := by
    rw [hpos, hstream, List.getElem?_append_right (Nat.le_refl _), Nat.sub_self]
    rfl
  have hm : b'.Marked := by
    rw [hb']
    exact h.marked
  have hs : b'.req.status.reading = true := by
    rw [hb']
    exact h.reading
  obtain ⟨hv, hlike, hon⟩ := readByte_alike (e := e) halike hata hatb hm hs
  refine ⟨hv, hlike, fun hne hreading => ?_⟩
  obtain ⟨halike', hm'⟩ := hon hne hreading
  obtain ⟨-, hb⟩ := Prod.mk.inj (readByte_ahead hne hreading)
  obtain ⟨hbs, hbp⟩ := Prod.mk.inj hb
  have hreading' := hreading
  rw [← halike'.status] at hreading'
  rw [← hv] at hne
  obtain ⟨hrecv, ha⟩ := Prod.mk.inj (readByte_ahead hne hreading')
  have has : (exec (readByte e uc) a).req.clientStream = a.req.clientStream :=
    congrArg Prod.fst ha
  refine ⟨⟨halike', ?_, ?_, has ▸ h.room, hreading, hm'⟩, hrecv⟩
  · rw [has, h.stream, hbs, hstream, List.append_assoc]
    rfl
  · rw [hbs, hbp, hstream, hpos, List.length_append]
    rfl

/-- What follows the bytes that were there. -/
def afterLoop (e : Config) (n : Nat) : Option Int → Srv (Option Int)
  | some ret => unlessDecided ret (readHeaders e n)
  | none => do
    if (← getReq).status.rank < Status.rank .bodyRead then
      let ret ← readMore
      unlessDecided ret (readHeaders e n)
    else unlessDecided 1 (readHeaders e n)

theorem readHeaders_succ (n : Nat) (c : Conn) :
    value (readHeaders e (n + 1)) c = value (do
      let res ← readLoop e (c.req.clientStream.length - c.req.parsePos)
      afterLoop e n res) c ∧
    exec (readHeaders e (n + 1)) c = exec (do
      let res ← readLoop e (c.req.clientStream.length - c.req.parsePos)
      afterLoop e n res) c := by
  simp only [readHeaders, readHeader, value_bind, exec_bind, value_getReq, exec_getReq]
  cases value (readLoop e (c.req.clientStream.length - c.req.parsePos)) c with
  | some ret => exact ⟨rfl, rfl⟩
  | none =>
    simp only [afterLoop, value_bind, exec_bind, value_getReq, exec_getReq]
    by_cases hrank : (exec (readLoop e (c.req.clientStream.length - c.req.parsePos)) c).req.status.rank
        < Status.rank .bodyRead
    · simp only [if_pos hrank, value_bind, exec_bind]
      exact ⟨trivial, trivial⟩
    · simp only [if_neg hrank]
      exact ⟨rfl, rfl⟩

/-- The next call, or the end. -/
theorem unlessDecided_same {ret : Int} {m m' : Srv (Option Int)} (h : a.Like b)
    (hon : (ret = 1 ∨ ret = -1) → b.req.status.reading = true → SameEnd m m' a b) :
    SameEnd (unlessDecided ret m) (unlessDecided ret m') a b := by
  by_cases hret : (ret = 1 ∨ ret = -1) ∧ b.req.status.reading = true
  · have hreta : (ret = 1 ∨ ret = -1) ∧ a.req.status.reading = true := by rwa [h.status]
    obtain ⟨hv, hl⟩ := hon hret.1 hret.2
    constructor
    · simp only [unlessDecided, value_bind, value_getReq, exec_getReq, if_pos hret, if_pos hreta]
      exact hv
    · simp only [unlessDecided, exec_bind, value_getReq, exec_getReq, if_pos hret, if_pos hreta]
      exact hl
  · have hreta : ¬((ret = 1 ∨ ret = -1) ∧ a.req.status.reading = true) := by rwa [h.status]
    constructor
    · simp only [unlessDecided, value_bind, value_getReq, exec_getReq, if_neg hret, if_neg hreta]
      rfl
    · simp only [unlessDecided, exec_bind, value_getReq, exec_getReq, if_neg hret, if_neg hreta]
      exact h

/-- With its buffer full the request is dead. -/
theorem readMore_full {c : Conn} (h : c.req.clientStream.length = clientStreamSize) :
    value readMore c = 0 ∧ exec readMore c = exec (do
      modReq fun r => { r with responseStatus := rBadRequest }
      setStatus .dead) c := by
  have hfull : clientStreamSize - c.req.clientStream.length < 1 := by omega
  simp only [readMore, value_bind, exec_bind, value_getReq, exec_getReq, if_pos hfull]
  exact ⟨rfl, rfl⟩

/-- A `read` leaves no trace in what is parsed. -/
theorem sockRead_parsed (k : Nat) (ends : Bool) (c : Conn) :
    (exec (sockRead k) c).parsed ends = c.parsed ends := by
  rw [exec_sockRead]
  rfl

section Room

variable {c : Conn} {rs : List RecvRes}

theorem readMore_read (h : c.req.clientStream.length < clientStreamSize) {bs : List Byte}
    (hbs : bs ≠ [])
    (htake : takeRecv (clientStreamSize - c.req.clientStream.length) c.sys.recv = (.ok bs, rs)) :
    value readMore c = 1 ∧ exec readMore c = exec (do
      let _ ← sockRead (clientStreamSize - c.req.clientStream.length)
      modReq fun r => { r with clientStream := r.clientStream ++ bs }) c := by
  have hfull : ¬clientStreamSize - c.req.clientStream.length < 1 := by omega
  simp only [readMore, value_bind, exec_bind, value_getReq, exec_getReq, if_neg hfull,
    value_sockRead, htake, if_neg hbs]
  exact ⟨rfl, rfl⟩

theorem readMore_waits (h : c.req.clientStream.length < clientStreamSize) {err : Errno}
    (herr : err = .again ∨ err = .intr)
    (htake : takeRecv (clientStreamSize - c.req.clientStream.length) c.sys.recv =
      (.error err, rs)) :
    (value readMore c = 1 ∨ value readMore c = -1) ∧
      exec readMore c = exec (sockRead (clientStreamSize - c.req.clientStream.length)) c := by
  have hfull : ¬clientStreamSize - c.req.clientStream.length < 1 := by omega
  simp only [readMore, value_bind, exec_bind, value_getReq, exec_getReq, if_neg hfull,
    value_sockRead, htake]
  rcases herr with rfl | rfl
  · exact ⟨.inr rfl, rfl⟩
  · exact ⟨.inl rfl, rfl⟩

/-- The client has closed, or the connection is broken. -/
theorem readMore_gone (h : c.req.clientStream.length < clientStreamSize)
    (hstop : Stops c.sys.recv) (hne : c.sys.recv ≠ []) :
    value readMore c = 0 ∧ exec readMore c = exec (do
      let _ ← sockRead (clientStreamSize - c.req.clientStream.length)
      modReq fun r => { r with responseStatus := rBadRequest }) c := by
  have hfull : ¬clientStreamSize - c.req.clientStream.length < 1 := by omega
  simp only [readMore, value_bind, exec_bind, value_getReq, exec_getReq, if_neg hfull,
    value_sockRead]
  generalize c.sys.recv = fin at hstop hne
  cases hstop with
  | silent => exact absurd rfl hne
  | closed rs =>
    simp only [takeRecv, List.take_nil, if_true]
    exact ⟨rfl, rfl⟩
  | @failed err ha hi rs =>
    simp only [takeRecv]
    cases err with
    | again => exact absurd rfl ha
    | intr => exact absurd rfl hi
    | connReset | pipe | noEnt | acces | perm | noMem | noSpc | inval | other => exact ⟨rfl, rfl⟩

end Room

/-- The end of a reading that fails. -/
def refused : Srv Unit := modReq fun r => { r with responseStatus := rBadRequest }

theorem refused_blind (k : Bool) : Blinds k refused := .modReq fun _ => ⟨rfl, rfl⟩

/-- While nothing comes the header is still being read. -/
theorem readHeaders_silent (n : Nat) (h : Tracks a b []) (hrecv : a.sys.recv = [])
    (hroom : a.req.clientStream.length < clientStreamSize) :
    value (readHeaders e n) a = none ∧ (exec (readHeaders e n) a).Like b := by
  induction n generalizing a with
  | zero => exact ⟨rfl, h.alike.like⟩
  | succ n ih =>
    have hlen : a.req.clientStream.length - a.req.parsePos = 0 := by
      rw [h.stream, h.alike.pos, List.append_nil, h.whole, Nat.sub_self]
    have htake : takeRecv (clientStreamSize - a.req.clientStream.length) a.sys.recv =
        (.error .again, []) := by rw [hrecv]; rfl
    obtain ⟨hv, he⟩ := readMore_waits hroom (.inl rfl) htake
    obtain ⟨hv', he'⟩ := readHeaders_succ (e := e) n a
    have hreading : a.req.status.reading = true := by rw [h.alike.status]; exact h.reading
    have hrank : a.req.status.rank < Status.rank .bodyRead := of_decide_eq_true hreading
    rw [hv', he', hlen]
    simp only [readLoop, afterLoop, unlessDecided, value_bind, exec_bind, value_pure, exec_pure,
      value_getReq, exec_getReq, if_pos hrank, he]
    have hsame : (exec (sockRead (clientStreamSize - a.req.clientStream.length)) a).Alike b :=
      (sockRead_parsed _ true a).trans h.alike
    have hcond : (value readMore a = 1 ∨ value readMore a = -1) ∧
        (exec (sockRead (clientStreamSize - a.req.clientStream.length)) a).req.status.reading = true :=
      ⟨hv, by rw [hsame.status]; exact h.reading⟩
    rw [if_pos hcond]
    have hrun := exec_sockRead (clientStreamSize - a.req.clientStream.length) a
    rw [htake] at hrun
    generalize exec (sockRead (clientStreamSize - a.req.clientStream.length)) a = a' at hsame hrun
    refine ih ⟨hsame, ?_, h.whole, ?_, h.reading, h.marked⟩ ?_ ?_
    · rw [hrun]
      exact h.stream
    · rw [hrun]
      exact h.room
    · rw [hrun]
    · rw [hrun]
      exact hroom

theorem readEach_full (fin : List RecvRes) (h : b.req.clientStream.length = clientStreamSize)
    (y : List Byte) :
    value (readEach e fin y) b = some 0 ∧ (exec (readEach e fin y) b).parsed true =
      (exec (refused >>= fun _ => setStatus .dead) b).parsed true := by
  cases y with
  | nil =>
    obtain ⟨hv, he⟩ := readMore_full (c := { b with sys := { b.sys with recv := fin } }) h
    simp only [readEach, value_bind, exec_bind, exec_modify, hv, he]
    exact ⟨rfl, rfl⟩
  | cons uc y =>
    obtain ⟨hv, he⟩ := readMore_full h
    have hroom : ¬b.req.clientStream.length < clientStreamSize := by omega
    simp only [readEach, value_bind, exec_bind, value_getReq, exec_getReq, if_neg hroom, hv, he]
    exact ⟨rfl, rfl⟩

/-- What follows the bytes that are there when all of them are parsed. -/
def readOn (e : Config) (n : Nat) : Srv (Option Int) := do
  let ret ← readMore
  unlessDecided ret (readHeaders e n)

/-- The next call has more to look at, or nothing new. -/
theorem readMore_on {n : Nat} {m : Srv (Option Int)}
    (hv : value readMore a = 1 ∨ value readMore a = -1)
    (hr : (exec readMore a).req.status.reading = true)
    (h : SameEnd (readHeaders e n) m (exec readMore a) b) :
    SameEnd (readOn e n) m a b := by
  have hcond : (value readMore a = 1 ∨ value readMore a = -1) ∧
      (exec readMore a).req.status.reading = true := ⟨hv, hr⟩
  constructor
  · simp only [readOn, unlessDecided, value_bind, value_getReq, exec_getReq, if_pos hcond]
    exact h.value
  · simp only [readOn, unlessDecided, exec_bind, value_getReq, exec_getReq, if_pos hcond]
    exact h.like

theorem Tracks.waited (h : Tracks a b x) (k : Nat) : Tracks (exec (sockRead k) a) b x := by
  have halike : (exec (sockRead k) a).Alike b := (sockRead_parsed k true a).trans h.alike
  rw [exec_sockRead] at halike ⊢
  exact ⟨halike, h.stream, h.whole, h.room, h.reading, h.marked⟩

theorem Tracks.read (h : Tracks a b []) {bs : List Byte}
    (hle : bs.length ≤ clientStreamSize - a.req.clientStream.length) (k : Nat) :
    Tracks (exec (do
      let _ ← sockRead k
      modReq fun r => { r with clientStream := r.clientStream ++ bs }) a) b bs := by
  have hw := h.waited k
  have hstream : (exec (sockRead k) a).req.clientStream = a.req.clientStream := by
    rw [exec_sockRead]
  have hsize := h.room
  rw [exec_bind]
  generalize exec (sockRead k) a = a1 at hw hstream
  have hwhole : a1.req.clientStream.length = a1.req.parsePos := by
    rw [hw.stream, List.append_nil, hw.whole, hw.alike.pos]
  refine ⟨Eq.symm (Conn.Alike.growing (Eq.symm hw.alike) hwhole bs), ?_, h.whole, ?_, h.reading,
    h.marked⟩
  · change a1.req.clientStream ++ bs = _
    rw [hw.stream, List.append_nil]
  · change (a1.req.clientStream ++ bs).length ≤ clientStreamSize
    rw [List.length_append, hstream]
    omega

/-- A call that decides for 0. -/
theorem readOn_zero {n : Nat} {m : Srv Unit} (h : a.Alike b) (hm : Blinds true m)
    (hv : value readMore a = 0) (he : (exec readMore a).Alike (exec m a))
    (hv' : value (readEach e fin y) b = some 0)
    (he' : (exec (readEach e fin y) b).Alike (exec m b)) :
    SameEnd (readOn e n) (readEach e fin y) a b := by
  have halike : (exec readMore a).Alike (exec (readEach e fin y) b) :=
    (Eq.trans he (hm.agree h).2).trans (Eq.symm he')
  constructor
  · simp only [readOn, unlessDecided, value_bind, hv, hv', value_getReq, exec_getReq]
    rfl
  · simp only [readOn, unlessDecided, exec_bind, hv, value_getReq, exec_getReq]
    exact halike.like

theorem readOn_full {n : Nat} (h : Tracks a b [])
    (hfull : a.req.clientStream.length = clientStreamSize) :
    SameEnd (readOn e n) (readEach e fin y) a b := by
  have hstream : a.req.clientStream = b.req.clientStream := by rw [h.stream, List.append_nil]
  obtain ⟨hv, he⟩ := readMore_full hfull
  obtain ⟨hv', he'⟩ := readEach_full (e := e) fin (hstream ▸ hfull) y
  refine readOn_zero (m := refused >>= fun _ => setStatus .dead) h.alike
    ((refused_blind true).bind fun _ => .setStatus _) hv ?_ hv' he'
  rw [he]
  rfl

/-- Nothing more comes. -/
theorem readOn_silent {n : Nat} (h : Tracks a b []) (hrecv : a.sys.recv = [])
    (hroom : a.req.clientStream.length < clientStreamSize) :
    SameEnd (readOn e n) (readEach e [] []) a b := by
  have hroomb : b.req.clientStream.length < clientStreamSize := by
    rwa [← show a.req.clientStream = b.req.clientStream by rw [h.stream, List.append_nil]]
  have hnone : takeRecv (clientStreamSize - b.req.clientStream.length) [] =
    (.error .again, []) := rfl
  obtain ⟨hv', he'⟩ := readMore_waits (c := { b with sys := { b.sys with recv := [] } }) hroomb
    (.inl rfl) hnone
  have hnonea : takeRecv (clientStreamSize - a.req.clientStream.length) a.sys.recv =
    (.error .again, []) := by rw [hrecv]; rfl
  obtain ⟨hv, he⟩ := readMore_waits hroom (.inl rfl) hnonea
  have hwaited := h.waited (clientStreamSize - a.req.clientStream.length)
  have hrun := exec_sockRead (clientStreamSize - a.req.clientStream.length) a
  rw [← he] at hrun hwaited
  rw [hnonea] at hrun
  have hne : ¬value readMore { b with sys := { b.sys with recv := [] } } = 0 := by omega
  have hend : value (readEach e [] []) b = none ∧ (exec (readEach e [] []) b).Alike b := by
    simp only [readEach, value_bind, exec_bind, exec_modify, if_neg hne, he']
    exact ⟨rfl, sockRead_parsed _ true _⟩
  have hsilent := readHeaders_silent (e := e) n hwaited (by rw [hrun]) (by rw [hrun]; exact hroom)
  refine readMore_on hv (by rw [hwaited.alike.status]; exact h.reading) ⟨?_, ?_⟩
  · rw [hsilent.1, hend.1]
  · exact Eq.trans hsilent.2 (Eq.symm hend.2.like)

theorem readOn_gone {n : Nat} (h : Tracks a b []) (hrecv : a.sys.recv = fin) (hfin : Stops fin)
    (hne : fin ≠ []) (hroom : a.req.clientStream.length < clientStreamSize) :
    SameEnd (readOn e n) (readEach e fin []) a b := by
  have hroomb : b.req.clientStream.length < clientStreamSize := by
    rwa [← show a.req.clientStream = b.req.clientStream by rw [h.stream, List.append_nil]]
  have hgone : Stops a.sys.recv := hrecv ▸ hfin
  obtain ⟨hv, he⟩ := readMore_gone hroom hgone (hrecv ▸ hne)
  obtain ⟨hv', he'⟩ := readMore_gone (c := { b with sys := { b.sys with recv := fin } }) hroomb
    hfin hne
  refine readOn_zero (m := refused) h.alike (refused_blind true) hv ?_ ?_ ?_
  · rw [he]
    exact ((refused_blind true).agree (sockRead_parsed _ true a)).2
  · simp only [readEach, value_bind, exec_modify, hv']
    rfl
  · simp only [readEach, exec_bind, exec_modify, he']
    exact ((refused_blind true).agree (sockRead_parsed _ true _)).2

/-- What is there has been parsed: the next bytes are read. -/
theorem readOn_same (hfin : Stops fin) {n : Nat}
    (ih : ∀ {a b : Conn} {x y : List Byte}, Tracks a b x → Delivers fin a.sys.recv y →
      x.length + readsLeft a.sys.recv < n →
        SameEnd (readHeaders e n) (readEach e fin (x ++ y)) a b)
    (h : Tracks a b []) (hd : Delivers fin a.sys.recv y) (hn : readsLeft a.sys.recv < n + 1) :
    SameEnd (readOn e n) (readEach e fin y) a b := by
  by_cases hfull : a.req.clientStream.length = clientStreamSize
  · exact readOn_full h hfull
  have hroom : a.req.clientStream.length < clientStreamSize :=
    Nat.lt_of_le_of_ne h.room hfull
  rcases hd.takes (k := clientStreamSize - a.req.clientStream.length) (by omega) with
    ⟨hrecv, rfl⟩ | ⟨bs, rs, y', htake, hbs, hle, rfl, hd', hcost⟩ |
      ⟨err, rs, htake, herr, hd', hcost⟩
  · by_cases hnil : fin = []
    · subst hnil
      exact readOn_silent h hrecv hroom
    · exact readOn_gone h hrecv hfin hnil hroom
  · obtain ⟨hv, he⟩ := readMore_read hroom hbs htake
    have hread := h.read hle (clientStreamSize - a.req.clientStream.length)
    rw [← he] at hread
    have hrecv : (exec readMore a).sys.recv = rs := by
      rw [he, exec_bind, exec_modReq, exec_sockRead, htake]
    refine readMore_on (.inl hv) (by rw [hread.alike.status]; exact h.reading) ?_
    exact ih hread (hrecv ▸ hd') (by rw [hrecv]; omega)
  · obtain ⟨hv, he⟩ := readMore_waits hroom herr htake
    have hwaited := h.waited (clientStreamSize - a.req.clientStream.length)
    rw [← he] at hwaited
    have hrecv : (exec readMore a).sys.recv = rs := by rw [he, exec_sockRead, htake]
    refine readMore_on hv (by rw [hwaited.alike.status]; exact h.reading) ?_
    exact ih hwaited (hrecv ▸ hd') (by rw [hrecv, List.length_nil]; omega)

/-- While the header is read the next call follows. -/
theorem afterLoop_reading (n : Nat) (h : a.req.status.reading = true) :
    value (afterLoop e n none) a = value (readOn e n) a ∧
      exec (afterLoop e n none) a = exec (readOn e n) a := by
  have hrank : a.req.status.rank < Status.rank .bodyRead := of_decide_eq_true h
  simp only [afterLoop, readOn, value_bind, exec_bind, value_getReq, exec_getReq, if_pos hrank]
  exact ⟨trivial, trivial⟩

/-- The bytes that are there. -/
theorem readLoop_same (hfin : Stops fin) {n : Nat}
    (ih : ∀ {a b : Conn} {x y : List Byte}, Tracks a b x → Delivers fin a.sys.recv y →
      x.length + readsLeft a.sys.recv < n →
        SameEnd (readHeaders e n) (readEach e fin (x ++ y)) a b)
    (h : Tracks a b x) (hd : Delivers fin a.sys.recv y)
    (hn : x.length + readsLeft a.sys.recv < n + 1) :
    SameEnd (readLoop e x.length >>= afterLoop e n) (readEach e fin (x ++ y)) a b := by
  induction x generalizing a b with
  | nil =>
    have hreading : a.req.status.reading = true := by rw [h.alike.status]; exact h.reading
    have hsame := readOn_same hfin ih h hd (by rwa [List.length_nil, Nat.zero_add] at hn)
    obtain ⟨hv, he⟩ := afterLoop_reading (e := e) n hreading
    exact ⟨hv.trans hsame.value, he ▸ hsame.like⟩
  | cons uc x ihx =>
    have hbyte : a.req.clientStream[a.req.parsePos]? = some uc := by
      rw [h.alike.pos, ← h.whole, h.stream, List.getElem?_append_right (Nat.le_refl _),
        Nat.sub_self]
      rfl
    have hroom : b.req.clientStream.length < clientStreamSize := by
      have hlen := h.room
      rw [h.stream, List.length_append, List.length_cons] at hlen
      omega
    obtain ⟨hv, hlike, hon⟩ := h.byte (e := e) rfl
    have hs : ({ b with req := { b.req with clientStream := b.req.clientStream ++ [uc] } } :
        Conn).req.status.reading = true := h.reading
    have hstep := readByte_step e hs uc
    rw [List.length_cons] at hn ⊢
    cases hres : value (readByte e uc)
        { b with req := { b.req with clientStream := b.req.clientStream ++ [uc] } } with
    | some ret =>
      rw [hres] at hv hon
      have hnext : SameEnd (unlessDecided ret (readHeaders e n))
          (unlessDecided ret (readEach e fin (x ++ y))) _ _ :=
        unlessDecided_same hlike fun hret hreading => by
          have hne : some ret ≠ some 0 := fun h0 => by
            cases h0
            rcases hret with h1 | h1 <;> cases h1
          obtain ⟨htracks, hrecv⟩ := hon hne hreading
          exact ih htracks (hrecv ▸ hd) (by rw [hrecv]; omega)
      constructor
      · simp only [readLoop, readEach, List.cons_append, value_bind, exec_bind, exec_modReq,
          value_getReq, exec_getReq, hbyte, if_pos hroom, hv, hres]
        exact hnext.value
      · simp only [readLoop, readEach, List.cons_append, value_bind, exec_bind, exec_modReq,
          value_getReq, exec_getReq, hbyte, if_pos hroom, hv, hres]
        exact hnext.like
    | none =>
      rw [hres] at hv hon hstep
      cases hstep with
      | reads hadv hreading =>
        obtain ⟨htracks, hrecv⟩ := hon (fun h0 => by cases h0) hreading
        have hnext := ihx htracks (hrecv ▸ hd) (by rw [hrecv]; omega)
        constructor
        · simp only [readLoop, readEach, List.cons_append, value_bind, exec_bind, exec_modReq,
            value_getReq, exec_getReq, hbyte, if_pos hroom, hv, hres]
          exact hnext.value
        · simp only [readLoop, readEach, List.cons_append, value_bind, exec_bind, exec_modReq,
            value_getReq, exec_getReq, hbyte, if_pos hroom, hv, hres]
          exact hnext.like

theorem readHeaders_each (hfin : Stops fin) (n : Nat) (h : Tracks a b x)
    (hd : Delivers fin a.sys.recv y) (hn : x.length + readsLeft a.sys.recv < n) :
    SameEnd (readHeaders e n) (readEach e fin (x ++ y)) a b := by
  induction n generalizing a b x y with
  | zero => exact absurd hn (Nat.not_lt_zero _)
  | succ n ih =>
    have hlen : a.req.clientStream.length - a.req.parsePos = x.length := by
      rw [h.stream, h.alike.pos, ← h.whole, List.length_append, Nat.add_sub_cancel_left]
    obtain ⟨hv, he⟩ := readHeaders_succ (e := e) n a
    rw [hlen] at hv he
    obtain ⟨hv', hl⟩ := readLoop_same hfin ih h hd hn
    exact ⟨hv.trans hv', he ▸ hl⟩

end Runs

end Crotalus
