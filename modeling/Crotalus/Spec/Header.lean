import Crotalus.Spec.Answer

namespace Crotalus

open Stateful

/-! The reading of a header, byte by byte. -/

/-- What the code that looks at a line leaves alone. -/
structure Scanned (T : Status → Prop) (S : Site → Prop) (c c' : Conn) : Prop where
  place : c'.place = c.place
  stream : c'.req.clientStream = c.req.clientStream
  pos : c'.req.parsePos = c.req.parsePos
  status : c'.req.status = c.req.status ∨ T c'.req.status
  passed : Passed S c c'

def Scans {α : Type} (T : Status → Prop) (S : Site → Prop) (m : Srv α) : Prop :=
  Rel (Scanned T S) m

@[grind =] def Request.scan (r : Request) : List Byte × Nat × Status :=
  (r.clientStream, r.parsePos, r.status)

section Rules

variable {T : Status → Prop} {S : Site → Prop} {c c' c'' : Conn}

theorem Scanned.refl (c : Conn) : Scanned T S c c := ⟨rfl, rfl, rfl, .inl rfl, .refl c⟩

theorem Scanned.trans (h : Scanned T S c c') (h' : Scanned T S c' c'') : Scanned T S c c'' := by
  refine ⟨h'.place.trans h.place, h'.stream.trans h.stream, h'.pos.trans h.pos, ?_,
    h.passed.trans h'.passed⟩
  rcases h'.status with hs | hs
  · rw [hs]
    exact h.status
  · exact .inr hs

theorem Worked.scanned (h : Worked T S c c') : Scanned T S c c' := by
  have hr := h.req
  simp only [Request.steady, Prod.mk.injEq] at hr
  exact ⟨h.place, hr.2.2.2.2.2.2.1, hr.2.2.2.2.2.1, h.status, h.passed⟩

@[grind ←] theorem Works.scans {α : Type} {m : Srv α} (h : Works T S m) : Scans T S m :=
  fun c => (h c).scanned

@[grind ←]
theorem Scans.bind {α β : Type} {m : Srv α} {f : α → Srv β} (hm : Scans T S m)
    (hf : ∀ a, Returns m a → Scans T S (f a)) : Scans T S (m >>= f) :=
  Rel.seq (fun h => h.trans) hm hf

@[grind ←]
theorem Scans.map {α β : Type} {m : Srv α} (f : α → β) (hm : Scans T S m) :
    Scans T S (f <$> m) := hm

@[grind ←] theorem Scans.pure {α : Type} (a : α) : Scans T S (Pure.pure a : Srv α) := Scanned.refl
@[grind ←] theorem Scans.getReq : Scans T S getReq := Scanned.refl

@[grind ←]
theorem Scans.modReq {f : Request → Request} (h : ∀ r, (f r).scan = r.scan) :
    Scans T S (modReq f) := by
  intro c
  have hr := h c.req
  simp only [Request.scan, Prod.mk.injEq] at hr
  exact ⟨rfl, hr.1, hr.2.1, .inl hr.2.2, .same rfl⟩

theorem Scans.ite {α : Type} {p : Prop} [Decidable p] {m n : Srv α} (hm : Scans T S m)
    (hn : Scans T S n) : Scans T S (if p then m else n) :=
  Rel.ite hm hn

/-- A field that only the answer uses. -/
theorem Scans.set {α : Type} {f : Request → Request} (h : ∀ r, (f r).scan = r.scan) (a : α) :
    Scans T S (Crotalus.modReq f >>= fun _ => Pure.pure a) :=
  .bind (.modReq h) fun _ _ => .pure _

end Rules

section Lines

variable {T : Status → Prop} {S : Site → Prop} (e : Config)

@[grind ←] theorem setVersion_scans (h : T .dead) (v : Version) : Scans T S (setVersion e v) := by
  refine .bind (.modReq fun _ => rfl) fun _ _ => .bind .getReq fun r _ => ?_
  split
  · exact (badRequest_works e h).scans
  · refine .bind (.modReq fun _ => rfl) fun _ _ => .pure _

@[grind ←] theorem rangeOption_works (h : T .dead) (val : Text) :
    Works T S (rangeOption e val) := by
  apply Works.bind .getReq
  intro r _
  split
  · exact .pure _
  · refine .bind (.modReq fun _ => rfl) fun _ _ => ?_
    split
    · exact .pure _
    · exact .bind (sendRInvalidRange_works e h) fun _ _ => .pure _

@[grind ←]
theorem knownOption_scans (h : T .dead) (name val : Text) :
    Scans T S (knownOption e name val) := by
  apply Scans.bind .getReq
  intro r _
  have henv : ∀ (key : Text) (a b : Option Bool), Scans T S (do
      if ← addCgiEnv key val true then return a else return b) := by
    intro key a b
    exact .bind (addCgiEnv_works _ _ _).scans fun _ _ => .ite (.pure _) (.pure _)
  refine .ite (.set ?_ _) <| .ite (.pure _) <| .ite (.set ?_ _) <| .ite (.set ?_ _) <|
    .ite (.set ?_ _) <| .ite (.set ?_ _) <| .ite (.set ?_ _) <| .ite ?referer <|
    .ite (rangeOption_works e h val).scans <| .ite ?agent (.pure _)
  case referer =>
    refine .bind (.modReq ?_) fun _ _ => henv _ _ _
    exact fun _ => rfl
  case agent =>
    refine .bind (.modReq ?_) fun _ _ => .bind (addCgiEnv_works _ _ _).scans fun _ _ => .pure _
    exact fun _ => rfl
  all_goals exact fun _ => rfl

/-- What `process_option_line` does behind its mark. -/
theorem processOptionLine_rest (line : Text) : ∃ rest : Srv Bool,
    processOptionLine e line = (mark .optionLine >>= fun _ => rest) ∧
    ∀ {T : Status → Prop} {S : Site → Prop}, T .dead → Scans T S rest := by
  refine ⟨_, rfl, fun {T S} h => ?_⟩
  split
  · exact .pure _
  · refine .ite (.pure _) <| .bind (knownOption_scans e h _ _) fun _ _ => ?_
    split
    · exact .pure _
    · exact (addCgiEnv_works _ _ _).scans

theorem processOptionLine_scans (h : T .dead) (hs : S .optionLine) (line : Text) :
    Scans T S (processOptionLine e line) := by
  obtain ⟨rest, hrun, hrest⟩ := processOptionLine_rest e line
  rw [hrun]
  exact .bind (Works.mark hs).scans fun _ _ => hrest h

/-- The status, how far the buffer is filled, and the request line. -/
def Conn.quiet (c : Conn) : Status × Nat × Option Text :=
  (c.req.status, c.req.bufferEnd, c.req.logline)

/-- An entry of the environment changes nothing else. -/
theorem addCgiEnv_keeps {γ : Type} {f : Conn → γ}
    (hf : ∀ (c : Conn) env i w,
      f { c with req := { c.req with cgiEnv := env, cgiEnvIndex := i }, sys := w } = f c)
    (key val : Text) (http : Bool) : Keeps f (addCgiEnv key val http) := by
  apply Keeps.bind (fun _ => rfl)
  intro r
  apply Keeps.ite
  · apply Keeps.bind
    · intro c
      exact hf c _ _ _
    · intro ok
      apply Keeps.ite
      · apply Keeps.bind
        · intro c
          exact hf c _ _ c.sys
        · intro _
          exact .pure _
      · exact .pure _
  · exact .pure _

/-- Whatever it answers, except `bad`, it writes nothing and the request is not dead by it. -/
def Quiets {α : Type} (bad : α) (m : Srv α) : Prop :=
  ∀ c, value m c ≠ bad → (exec m c).quiet = c.quiet

section Quiets

variable {α β : Type} {bad : α}

theorem Keeps.quiets {m : Srv α} (h : Keeps Conn.quiet m) : Quiets bad m := fun c _ => h c

theorem Quiets.bind {m : Srv β} {f : β → Srv α} (hm : Keeps Conn.quiet m)
    (hf : ∀ b, Quiets bad (f b)) : Quiets bad (m >>= f) :=
  fun c hv => (hf _ _ hv).trans (hm c)

theorem Quiets.pure (a : α) : Quiets bad (Pure.pure a : Srv α) := fun _ _ => rfl

theorem Quiets.ite {p : Prop} [Decidable p] {m n : Srv α} (hm : Quiets bad m)
    (hn : Quiets bad n) : Quiets bad (if p then m else n) := by
  split
  · exact hm
  · exact hn

theorem Quiets.refuse (m : Srv β) : Quiets bad (m >>= fun _ => Pure.pure bad) :=
  fun _ hv => absurd rfl hv

end Quiets

/-- What `process_logline` does behind its mark with the string it has noted: accepted or not,
the line only fills in fields and is refused with an error page. -/
theorem processLogline_rest (line : Text) : ∃ rest : Srv Bool,
    processLogline e line = (do
      mark .logline
      modReq fun r => { r with logline := some line }
      rest) ∧ Quiets false rest ∧
    ∀ {T : Status → Prop} {S : Site → Prop}, T .dead → Scans T S rest := by
  refine ⟨_, rfl, ?_, fun {T S} h => ?_⟩
  · refine .ite (.refuse _) ?_
    split
    · exact .refuse _
    · refine .bind (fun _ => rfl) fun _ => .ite (.refuse _) ?_
      split
      · exact .refuse _
      · refine .bind (fun _ => rfl) fun _ => ?_
        split
        · exact .refuse _
        · refine .bind (fun _ => rfl) fun _ => .bind (fun _ => rfl) fun r => .ite (.refuse _) ?_
          exact .bind (fun _ => rfl) fun _ => .pure _
  · refine .ite (badRequest_works e h).scans ?_
    split
    · exact .bind (sendRNotImplemented_works e h).scans fun _ _ => .pure _
    · refine .bind (.modReq fun _ => rfl) fun _ _ => .ite (badRequest_works e h).scans ?_
      split
      · exact (badRequest_works e h).scans
      · refine .bind (.modReq fun _ => rfl) fun _ _ => ?_
        split
        · exact (badRequest_works e h).scans
        · exact setVersion_scans e h _

theorem processLogline_scans {T : Status → Prop} {S : Site → Prop} (h : T .dead) (hs : S .logline)
    (line : Text) : Scans T S (processLogline e line) := by
  obtain ⟨rest, hrun, -, hrest⟩ := processLogline_rest e line
  rw [hrun]
  exact .bind (Works.mark hs).scans fun _ _ => .bind (.modReq fun _ => rfl) fun _ _ => hrest h

/-- An accepted request line keeps the request alive. -/
theorem processLogline_accepts (line : Text) {c : Conn}
    (h : value (processLogline e line) c = true) :
    (exec (processLogline e line) c).quiet = (c.req.status, c.req.bufferEnd, some line) := by
  obtain ⟨rest, hrun, hquiet, -⟩ := processLogline_rest e line
  rw [hrun] at h ⊢
  exact hquiet _ fun hf => Bool.false_ne_true (hf.symm.trans h)

theorem rangeOption_quiets (val : Text) : Quiets (some false) (rangeOption e val) := by
  apply Quiets.bind (fun _ => rfl)
  intro r
  split
  · exact .pure _
  · refine .bind (fun _ => rfl) fun _ => ?_
    split
    · exact .pure _
    · exact .refuse _

theorem addCgiEnv_quiet (key val : Text) (http : Bool) :
    Keeps Conn.quiet (addCgiEnv key val http) :=
  addCgiEnv_keeps (fun _ _ _ _ => rfl) key val http

theorem knownOption_quiets (name val : Text) :
    Quiets (some false) (knownOption e name val) := by
  apply Quiets.bind (fun _ => rfl)
  intro r
  have henv : ∀ (key : Text) (a b : Option Bool), Quiets (some false) (do
      if ← addCgiEnv key val true then return a else return b) := by
    intro key a b
    exact .bind (addCgiEnv_quiet _ _ _) fun _ => .ite (.pure _) (.pure _)
  have hset : ∀ (f : Request → Request), (∀ r, (f r).scan = r.scan) →
      (∀ r, ((f r).bufferEnd, (f r).logline) = (r.bufferEnd, r.logline)) →
      Quiets (some false) (modReq f >>= fun _ => Pure.pure (some true)) := by
    intro f hf hb c _
    have hs := hf c.req
    simp only [Request.scan, Prod.mk.injEq] at hs
    exact Prod.ext hs.2.2 (hb c.req)
  refine .ite (hset _ ?_ ?_) <| .ite (.pure _) <| .ite (hset _ ?_ ?_) <| .ite (hset _ ?_ ?_) <|
    .ite (hset _ ?_ ?_) <| .ite (hset _ ?_ ?_) <| .ite (hset _ ?_ ?_) <| .ite ?referer <|
    .ite (rangeOption_quiets e val) <| .ite ?agent (.pure _)
  case referer =>
    refine .bind (fun _ => rfl) fun _ => henv _ _ _
  case agent =>
    exact .bind (fun _ => rfl) fun _ => .bind (addCgiEnv_quiet _ _ _) fun _ => .pure _
  all_goals exact fun _ => rfl

theorem processOptionLine_quiets (line : Text) : Quiets false (processOptionLine e line) := by
  apply Quiets.bind (fun _ => rfl)
  intro _
  split
  · exact .pure _
  · split
    · exact .pure _
    · rename_i name val _ _
      intro c hv
      have hk := knownOption_quiets e name val c
      simp only [exec_bind, value_bind] at hv ⊢
      generalize value (knownOption e name val) c = v at hv hk
      generalize exec (knownOption e name val) c = c1 at hv hk
      cases v with
      | none => exact (addCgiEnv_quiet name val true c1).trans (hk nofun)
      | some ok =>
        apply hk
        intro h
        exact hv (Option.some.inj h)

end Lines

/-- `status < BODY_READ`: the header is still being read. -/
def Status.reading (st : Status) : Bool := st.rank < Status.rank .bodyRead

def Site.isLine (s : Site) : Prop := s = .logline ∨ s = .optionLine

/-- `n` bytes further, behind some lines. -/
structure Advanced (n : Nat) (c c' : Conn) : Prop where
  place : c'.place = c.place
  stream : c'.req.clientStream = c.req.clientStream
  pos : c'.req.parsePos = c.req.parsePos + n
  buffered : c'.req.bufferEnd = c.req.bufferEnd
  passed : Passed Site.isLine c c'

theorem Advanced.trans {n m : Nat} {c c' c'' : Conn} (h : Advanced n c c')
    (h' : Advanced m c' c'') : Advanced (n + m) c c'' := by
  refine ⟨h'.place.trans h.place, h'.stream.trans h.stream, ?_,
    h'.buffered.trans h.buffered, h.passed.trans h'.passed⟩
  rw [h'.pos, h.pos, Nat.add_assoc]

theorem Scanned.advanced {T : Status → Prop} {n : Nat} {c c' c'' : Conn} (h : Advanced n c c')
    (h' : Scanned T Site.isLine c' c'') (hb : c''.req.bufferEnd = c'.req.bufferEnd) :
    Advanced n c c'' :=
  ⟨h'.place.trans h.place, h'.stream.trans h.stream, h'.pos.trans h.pos, hb.trans h.buffered,
    h.passed.trans h'.passed⟩

/-- How the reading of `n` bytes ends: it goes on, or at one of them the request is refused
or the header is complete, for want of a version or by its blank line. -/
inductive ReadStep (e : Config) (c : Conn) (n : Nat) : Option Int → Conn → Prop where
  | reads {c' : Conn} (h : Advanced n c c') (hs : c'.req.status.reading = true) :
      ReadStep e c n none c'
  | refused {c' : Conn} (hp : c'.place = c.place)
      (hstream : c'.req.clientStream = c.req.clientStream) (ht : Passed Site.isLine c c') :
      ReadStep e c n (some 0) c'
  | short {k : Nat} {c1 : Conn} (h : Advanced k c c1) (hs : c1.req.status = .oneLf)
      (hv : c1.req.httpVersion = .http09) :
      ReadStep e c n (some (value (endHeader e) c1)) (exec (endHeader e) c1)
  | ended {k : Nat} {c1 : Conn} (hk : 0 < k ∧ k ≤ n) (h : Advanced k c c1)
      (hs : c1.req.status = .bodyRead) :
      ReadStep e c n (some (value (headerDone e) c1)) (exec (headerDone e) c1)

section Read

variable (e : Config)

theorem ReadStep.after {n m : Nat} {c c1 c' : Conn} {v : Option Int} (h : ReadStep e c1 m v c')
    (ha : Advanced n c c1) : ReadStep e c (n + m) v c' := by
  cases h with
  | reads h hs => exact .reads (ha.trans h) hs
  | refused hp hstream ht =>
    exact .refused (hp.trans ha.place) (hstream.trans ha.stream) (ha.passed.trans ht)
  | short h hs hv => exact .short (ha.trans h) hs hv
  | ended hk h hs =>
    have hk' : 0 < n + _ ∧ n + _ ≤ n + m := ⟨Nat.add_pos_right n hk.1, Nat.add_le_add_left hk.2 n⟩
    exact .ended hk' (ha.trans h) hs

/-- The end of a line: of the request line when there is none yet. -/
theorem headerLineDone_step {c : Conn} (hs : c.req.status = .oneLf) :
    ReadStep e c 0 (value (headerLineDone e) c) (exec (headerLineDone e) c) := by
  have hadv : Advanced 0 c c := ⟨rfl, rfl, rfl, rfl, .refl c⟩
  simp only [headerLineDone, value_bind, exec_bind, value_getReq, exec_getReq]
  by_cases hlong : c.req.headerEnd - c.req.headerLine ≥ maxHeaderLength
  · simp only [if_pos hlong]
    have hw := sendRBadRequest_works (T := fun _ => True) (S := Site.isLine) e trivial c
    exact .refused hw.place hw.scanned.stream hw.passed
  simp only [if_neg hlong]
  by_cases hl : c.req.logline ≠ none
  · simp only [if_pos hl, value_bind, exec_bind]
    generalize c.req.headerText = line
    have hscan := processOptionLine_scans (T := fun _ => True) (S := Site.isLine) e trivial
      (.inr rfl) line c
    have hquiet := processOptionLine_quiets e line c
    generalize value (processOptionLine e line) c = v at hquiet
    generalize exec (processOptionLine e line) c = c1 at hscan hquiet
    cases v with
    | true =>
      obtain ⟨hst, hb, -⟩ : _ = _ ∧ _ = _ ∧ _ = _ := by
        simpa only [Conn.quiet, Prod.mk.injEq] using hquiet (by decide)
      have hline : Advanced 0 c (exec (modReq fun r => { r with headerLine := r.parsePos }) c1) :=
        ⟨hscan.place, hscan.stream, hscan.pos, hb, hscan.passed⟩
      have hreading : c1.req.status.reading = true := by
        rw [hst, hs]
        rfl
      exact .reads hline hreading
    | false => exact .refused hscan.place hscan.stream hscan.passed
  · simp only [if_neg hl, value_bind, exec_bind]
    generalize c.req.clientStream.take c.req.headerEnd = line
    have hscan := processLogline_scans (T := fun _ => True) (S := Site.isLine) e trivial
      (.inl rfl) line c
    have hquiet := processLogline_accepts e line (c := c)
    generalize value (processLogline e line) c = v at hquiet
    generalize exec (processLogline e line) c = c1 at hscan hquiet
    cases v with
    | true =>
      obtain ⟨hstatus, hb, -⟩ : _ = _ ∧ _ = _ ∧ _ = _ := by
        simpa only [Conn.quiet, Prod.mk.injEq] using hquiet rfl
      have hst : c1.req.status = .oneLf := hstatus.trans hs
      simp only [if_true, value_bind, exec_bind, value_getReq, exec_getReq]
      by_cases hv : c1.req.httpVersion = .http09
      · simp only [if_pos hv]
        exact .short (hscan.advanced hadv hb) hst hv
      · simp only [if_neg hv]
        have hline : Advanced 0 c (exec (modReq fun r => { r with headerLine := r.parsePos }) c1) :=
          ⟨hscan.place, hscan.stream, hscan.pos, hb, hscan.passed⟩
        have hreading : c1.req.status.reading = true := by rw [hst]; rfl
        exact .reads hline hreading
    | false => exact .refused hscan.place hscan.stream hscan.passed

/-- The automaton stays in the statuses of the header until its blank line. -/
theorem headerStatus_reading {st : Status} (h : st.reading = true) (uc : Byte) :
    (headerStatus st uc).reading = true ∨ headerStatus st uc = .bodyRead := by
  cases st with
  | readHeader | oneCr | oneLf | twoCr =>
    simp only [headerStatus]
    repeat' split
    all_goals first | exact .inl rfl | exact .inr rfl
  | bodyRead | bodyWrite | write | buffPoll | buffRead | buffWrite | pipeRead | pipeWrite
  | ioshuffle | done | timedOut | dead => cases h

theorem readByte_step {c : Conn} (hs : c.req.status.reading = true) (uc : Byte) :
    ReadStep e c 1 (value (readByte e uc) c) (exec (readByte e uc) c) := by
  simp only [readByte]
  by_cases hlegal : (!legalByte uc) = true
  · simp only [if_pos hlegal]
    have hw := sendRBadRequest_works (T := fun _ => True) (S := Site.isLine) e trivial c
    exact .refused hw.place hw.scanned.stream hw.passed
  simp only [if_neg hlegal, value_bind, exec_bind, value_getReq, exec_getReq]
  let c0 := exec (modReq fun r => { r with
    headerEnd := if r.status = .readHeader ∧ (uc = 13 ∨ uc = 10) then r.parsePos else r.headerEnd
    parsePos := r.parsePos + 1 }) c
  have hadv : ∀ st, Advanced 1 c (exec (setStatus st) c0) := fun st =>
    ⟨rfl, rfl, rfl, rfl, .same rfl⟩
  have hnext := headerStatus_reading hs uc
  change ReadStep e c 1
    (value (if headerStatus c.req.status uc = .oneLf then headerLineDone e
      else if headerStatus c.req.status uc = .bodyRead then do
        let ret ← headerDone e
        return some ret
      else return none) (exec (setStatus (headerStatus c.req.status uc)) c0))
    (exec (if headerStatus c.req.status uc = .oneLf then headerLineDone e
      else if headerStatus c.req.status uc = .bodyRead then do
        let ret ← headerDone e
        return some ret
      else return none) (exec (setStatus (headerStatus c.req.status uc)) c0))
  generalize headerStatus c.req.status uc = st at hnext
  have hst : (exec (setStatus st) c0).req.status = st := rfl
  by_cases hlf : st = .oneLf
  · simp only [if_pos hlf]
    exact (headerLineDone_step e (hst.trans hlf)).after e (hadv st)
  by_cases hb : st = .bodyRead
  · simp only [if_neg hlf, if_pos hb]
    exact .ended ⟨Nat.one_pos, Nat.le_refl 1⟩ (hadv st) (hst.trans hb)
  · simp only [if_neg hlf, if_neg hb]
    exact .reads (hadv st) (hnext.resolve_right hb)

/-- All the bytes that are there are read, unless the reading ends before. -/
theorem readLoop_step (k : Nat) {c : Conn} (hs : c.req.status.reading = true)
    (hk : k ≤ c.req.clientStream.length - c.req.parsePos) :
    ReadStep e c k (value (readLoop e k) c) (exec (readLoop e k) c) := by
  induction k generalizing c with
  | zero => exact .reads ⟨rfl, rfl, rfl, rfl, .refl c⟩ hs
  | succ k ih =>
    simp only [readLoop, value_bind, exec_bind, value_getReq, exec_getReq]
    have hlt : c.req.parsePos < c.req.clientStream.length := by omega
    rw [List.getElem?_eq_getElem hlt]
    simp only [value_bind, exec_bind]
    have hone := readByte_step e hs c.req.clientStream[c.req.parsePos]
    generalize value (readByte e c.req.clientStream[c.req.parsePos]) c = v at hone
    generalize exec (readByte e c.req.clientStream[c.req.parsePos]) c = c1 at hone
    cases hone with
    | reads h hs' =>
      rw [Nat.add_comm k 1]
      apply (ih hs' ?_).after e h
      rw [h.pos, h.stream]
      omega
    | refused hp hstream ht => exact .refused hp hstream ht
    | short h hs' hv => exact .short h hs' hv
    | ended hk h hs' => exact .ended ⟨hk.1, Nat.le_trans hk.2 (Nat.le_add_left 1 k)⟩ h hs'

/-- `read_header` reads what is there, and then asks for more. -/
theorem readHeader_cases {c : Conn} (hs : c.req.status.reading = true) :
    (∃ ret c', ReadStep e c (c.req.clientStream.length - c.req.parsePos) (some ret) c' ∧
        value (readHeader e) c = ret ∧ exec (readHeader e) c = c') ∨
      ∃ c', Advanced (c.req.clientStream.length - c.req.parsePos) c c' ∧
        c'.req.status.reading = true ∧ value (readHeader e) c = value readMore c' ∧
        exec (readHeader e) c = exec readMore c' := by
  have hloop := readLoop_step e (c.req.clientStream.length - c.req.parsePos) hs (Nat.le_refl _)
  simp only [readHeader, value_bind, exec_bind, value_getReq, exec_getReq]
  generalize value (readLoop e (c.req.clientStream.length - c.req.parsePos)) c = v at hloop
  generalize exec (readLoop e (c.req.clientStream.length - c.req.parsePos)) c = c' at hloop
  cases v with
  | some ret => exact .inl ⟨ret, c', hloop, rfl, rfl⟩
  | none =>
    cases hloop with
    | reads h hs' =>
      have hlt : c'.req.status.rank < Status.rank .bodyRead := of_decide_eq_true hs'
      simp only [value_bind, exec_bind, value_getReq, exec_getReq, if_pos hlt]
      exact .inr ⟨c', h, hs', rfl, rfl⟩

/-- A `read` for more of the header: nothing of it is looked at yet. -/
theorem readMore_outcome (c : Conn) :
    (exec readMore c).place = c.place ∧ (exec readMore c).trace = c.trace ∧
      (exec readMore c).req.parsePos = c.req.parsePos ∧
      (value readMore c = 0 ∨ ((exec readMore c).req.status = c.req.status ∧
        (value readMore c = 1 ∨ (value readMore c = -1 ∧ (exec readMore c).waits.isSome = true ∧
          (exec readMore c).req.clientStream = c.req.clientStream)))) := by
  simp only [readMore, value_bind, exec_bind, value_getReq, exec_getReq]
  by_cases hfull : clientStreamSize - c.req.clientStream.length < 1
  · simp only [if_pos hfull]
    exact ⟨rfl, rfl, rfl, .inl rfl⟩
  · simp only [if_neg hfull, value_bind, exec_bind]
    have hrun := exec_sockRead (clientStreamSize - c.req.clientStream.length) c
    have hval := value_sockRead (clientStreamSize - c.req.clientStream.length) c
    rw [hval, hrun]
    match (takeRecv (clientStreamSize - c.req.clientStream.length) c.sys.recv).1 with
    | .ok [] => exact ⟨rfl, rfl, rfl, .inl rfl⟩
    | .ok (b :: bs) => exact ⟨rfl, rfl, rfl, .inr ⟨rfl, .inl rfl⟩⟩
    | .error .intr => exact ⟨rfl, rfl, rfl, .inr ⟨rfl, .inl rfl⟩⟩
    | .error .again => exact ⟨rfl, rfl, rfl, .inr ⟨rfl, .inr ⟨rfl, rfl, rfl⟩⟩⟩
    | .error .connReset | .error .pipe | .error .noEnt | .error .acces | .error .perm
    | .error .noMem | .error .noSpc | .error .inval | .error .other =>
      exact ⟨rfl, rfl, rfl, .inl rfl⟩

theorem takeRecv_length {k : Nat} {rs rest : List RecvRes} {bs : List Byte}
    (h : takeRecv k rs = (.ok bs, rest)) : bs.length ≤ k := by
  cases rs with
  | nil => cases h
  | cons r rs =>
    cases r with
    | fail err => cases h
    | data ds =>
      have hbs : ds.take k = bs := by
        injection (Prod.mk.inj h).1
      rw [← hbs]
      exact List.length_take_le k ds

/-- The client's bytes never outgrow their buffer. -/
theorem readMore_stream {c : Conn} (h : c.req.clientStream.length ≤ clientStreamSize) :
    (exec readMore c).req.clientStream.length ≤ clientStreamSize := by
  simp only [readMore, exec_bind, value_getReq, exec_getReq]
  by_cases hfull : clientStreamSize - c.req.clientStream.length < 1
  · simp only [if_pos hfull]
    exact h
  · simp only [if_neg hfull, exec_bind]
    rw [value_sockRead, exec_sockRead]
    match hres : takeRecv (clientStreamSize - c.req.clientStream.length) c.sys.recv with
    | (.ok [], rest) => exact h
    | (.ok (b :: bs), rest) =>
      have hlen := takeRecv_length hres
      change (c.req.clientStream ++ b :: bs).length ≤ clientStreamSize
      rw [List.length_append]
      omega
    | (.error .again, rest) | (.error .intr, rest) | (.error .connReset, rest)
    | (.error .pipe, rest) | (.error .noEnt, rest) | (.error .acces, rest)
    | (.error .perm, rest) | (.error .noMem, rest) | (.error .noSpc, rest)
    | (.error .inval, rest) | (.error .other, rest) => exact h

end Read

end Crotalus
