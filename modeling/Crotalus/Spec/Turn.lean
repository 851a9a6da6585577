import Crotalus.Spec.Select
import Crotalus.Spec.Header

namespace Crotalus

open Stateful

/-! A turn of `process_requests`: the flush at its top, and what becomes of the request. -/

section Turn

variable (e : Config)

theorem topFlush_idles : Idles (topFlush e) := by
  unfold topFlush
  grind

/-- The flush at the top lets the handler run, has lost the connection, or would block. -/
theorem topFlush_outcome (c : Conn) :
    value (topFlush e) c = 1 ∨
      (value (topFlush e) c = 0 ∧ (exec (topFlush e) c).req.status = .dead) ∨
      (value (topFlush e) c = -1 ∧ (exec (topFlush e) c).waits = some (c.req.fd, .write) ∧
        wouldBlock c.sys.sock = true ∧ c.req.bufferEnd ≠ 0) := by
  simp only [topFlush, value_bind, exec_bind, value_getReq, exec_getReq]
  by_cases hb : c.req.bufferEnd ≠ 0 ∧ (!c.req.status.over) = true
  · simp only [if_pos hb, value_bind, exec_bind]
    by_cases hfail : value (reqFlush e) c = -2
    · simp only [if_pos hfail]
      exact .inr (.inl ⟨rfl, rfl⟩)
    by_cases hle : value (reqFlush e) c ≥ 0
    · simp only [if_neg hfail, if_pos hle]
      exact .inl rfl
    · simp only [if_neg hfail, if_neg hle]
      have hv : value (reqFlush e) c = -1 := by
        rcases reqFlush_values e c with h | h | h
        · exact absurd h hle
        · exact h
        · exact absurd h hfail
      exact .inr (.inr ⟨hv, reqFlush_waits e hv⟩)
  · simp only [if_neg hb]
    exact .inl rfl

theorem topFlush_skip {c : Conn} (h : c.req.bufferEnd = 0 ∨ c.req.status.over = true) :
    value (topFlush e) c = 1 ∧ exec (topFlush e) c = c := by
  have hc : ¬(c.req.bufferEnd ≠ 0 ∧ (!c.req.status.over) = true) := by
    rcases h with h | h <;> simp [h]
  constructor
  · simp only [topFlush, value_bind, exec_getReq, value_getReq, if_neg hc, value_pure]
  · simp only [topFlush, exec_bind, exec_getReq, value_getReq, if_neg hc, exec_pure]

/-- A turn of `process_requests` up to what its handler returns. -/
def serveTurn : Srv Int := do
  let ret ← topFlush e
  if ret = 1 then processStatus e else return ret

theorem serveTurn_drained {c : Conn} (h : c.req.bufferEnd = 0) :
    exec (serveTurn e) c = exec (processStatus e) c ∧
      value (serveTurn e) c = value (processStatus e) c := by
  obtain ⟨hv, he⟩ := topFlush_skip e (c := c) (.inl h)
  simp only [serveTurn, exec_bind, value_bind, hv, he, if_true, and_self]

/-- The request as the switch finds it. -/
def Conn.dispatched (e : Config) (c : Conn) : Conn := { exec (topFlush e) c with waits := none }

/-- A turn: the handler and what follows it, or only the end of a flush that is not over. -/
theorem processRequest_run (c : Conn) :
    (value (topFlush e) c = 1 ∧ exec (processRequest e) c =
        exec (settle e (value (processStatus e) (c.dispatched e)))
          (exec (processStatus e) (c.dispatched e))) ∨
      (value (topFlush e) c ≠ 1 ∧ exec (processRequest e) c =
        exec (settle e (value (topFlush e) c)) (exec (topFlush e) c)) := by
  simp only [processRequest, exec_bind]
  by_cases hv : value (topFlush e) c = 1
  · rw [if_pos hv]
    exact .inl ⟨hv, rfl⟩
  · rw [if_neg hv]
    exact .inr ⟨hv, rfl⟩

theorem dispatched_idled (c : Conn) : Idled c (c.dispatched e) := by
  have hidle := topFlush_idles e c
  exact ⟨hidle.core, hidle.place, hidle.trace, hidle.status⟩

/-- What a turn does after its handler has returned `ret`. A request that is at its end is
still being flushed, closed, or recycled and parked. -/
inductive TurnEnd (c : Conn) (ret : Int) (c' : Conn) : Prop where
  | blocked (hret : ret = -1) (hc : c'.core = c.core) (hs : c'.req.status = c.req.status)
      (hp : c'.place = .block) (ht : c'.trace = c.trace)
  | goesOn (hret : ret = 1) (hc : c'.core = c.core) (hs : c'.req.status = c.req.status)
      (hp : c'.place = c.place) (ht : c'.trace = c.trace)
  | dies (hret : ret ≠ -1 ∧ ret ≠ 0 ∧ ret ≠ 1) (hc : c'.core = c.core)
      (hs : c'.req.status = .dead) (hp : c'.place = c.place) (ht : c'.trace = c.trace)
  | flushing (hret : ret = 0) (hc : c'.core = c.core)
      (hs : c'.req.status = .done ∨ c'.req.status = .dead) (hp : c'.place = c.place)
      (ht : c'.trace = c.trace)
  | closed (hret : ret = 0) (hp : c'.place = .free) (ht : Passed (· = .filterFlush) c c')
  | recycled (hret : ret = 0) (c1 : Conn) (hc : c1.core = c.core)
      (ht : Passed (· = .filterFlush) c c1) (hr : c'.req.status = .readHeader)
      (hl : c'.req.logline = none) (hpos : c'.req.parsePos = 0)
      (hstream : c'.req.clientStream = c1.req.clientStream.drop c1.req.parsePos)
      (hi : c'.input = c1.input) (hp : c'.place = .block)
      (htrace : c'.trace = c1.trace ++ [⟨.sanitize, c1.req, c1.sys⟩])

theorem freeFlush_outcome (c : Conn) :
    (exec (freeFlush e) c).core = c.core ∧ (exec (freeFlush e) c).place = c.place ∧
      (exec (freeFlush e) c).trace = c.trace ∧
      (value (freeFlush e) c = true →
        (exec (freeFlush e) c).req.status = .done ∨ (exec (freeFlush e) c).req.status = .dead) := by
  simp only [freeFlush, value_bind, exec_bind, value_getReq, exec_getReq]
  by_cases hb : c.req.bufferEnd ≠ 0 ∧ (!c.req.status.over) = true
  · simp only [if_pos hb, value_bind, exec_bind]
    have hf := reqFlush_idles e (exec (setStatus .done) c)
    generalize value (reqFlush e) (exec (setStatus .done) c) = i
    generalize exec (reqFlush e) (exec (setStatus .done) c) = c1 at hf
    by_cases hi : i = -2
    · simp only [if_pos hi]
      exact ⟨hf.core, hf.place, hf.trace, fun _ => .inr rfl⟩
    · simp only [if_neg hi]
      exact ⟨hf.core, hf.place, hf.trace, fun _ => hf.status⟩
  · simp only [if_neg hb]
    exact ⟨rfl, rfl, rfl, nofun⟩

theorem finishFilter_outcome (c : Conn) :
    (exec (finishFilter e) c).core = c.core ∧
      Passed (· = .filterFlush) c (exec (finishFilter e) c) := by
  simp only [finishFilter, exec_bind, value_getReq, exec_getReq]
  cases c.req.filter with
  | none => exact ⟨rfl, .refl c⟩
  | some f =>
    have hf := mimeFilterFlush_idles e f (exec (mark .filterFlush) c)
    have hmark : Passed (· = .filterFlush) c (exec (mark .filterFlush) c) :=
      ⟨[_], rfl, fun v hv => by rw [List.mem_singleton.mp hv]⟩
    exact ⟨hf.core, hmark.trans (.same hf.trace)⟩

theorem Request.core_timedOut (r : Request) : r.timedOut.core = r.core := by
  unfold Request.timedOut
  split <;> rfl

/-- The descriptor sets are all that changes. -/
def Conn.cleared (c c' : Conn) : Prop :=
  c'.req = c.req ∧ c'.core = c.core ∧ c'.place = c.place ∧ c'.trace = c.trace

theorem clrIf_cleared (b : Bool) (fd : Nat) (d : Dir) (c : Conn) :
    c.cleared (exec (onlyIf b (fdClr fd d)) c) := by
  cases b <;> cases d <;> exact ⟨rfl, rfl, rfl, rfl⟩

/-- The state in which `release` decides. -/
def Conn.settled (c : Conn) : Conn :=
  let c0 := exec (modReq fun r => { r.timedOut with ranges := [] }) c
  exec (onlyIf (c0.req.postDataFd ≠ 0) (fdClr c0.req.postDataFd .write))
    (exec (onlyIf (c0.req.dataFd ≠ 0) (fdClr c0.req.dataFd .read)) c0)

theorem settled_outcome (c : Conn) :
    c.settled.req = { c.req.timedOut with ranges := [] } ∧ c.settled.core = c.core ∧
      c.settled.place = c.place ∧ c.settled.trace = c.trace := by
  let c0 := exec (modReq fun r => { r.timedOut with ranges := [] }) c
  let c1 := exec (onlyIf (c0.req.dataFd ≠ 0) (fdClr c0.req.dataFd .read)) c0
  obtain ⟨hr1, hc1, hp1, ht1⟩ := clrIf_cleared (c0.req.dataFd ≠ 0) c0.req.dataFd .read c0
  obtain ⟨hr2, hc2, hp2, ht2⟩ := clrIf_cleared (c0.req.postDataFd ≠ 0) c0.req.postDataFd .write c1
  have h0 : c0.core = c.core := by
    have hr : ({ c.req.timedOut with ranges := [] } : Request).core = c.req.timedOut.core := rfl
    change (({ c.req.timedOut with ranges := [] } : Request).core, _) = _
    rw [hr, c.req.core_timedOut]
    rfl
  exact ⟨hr2.trans hr1, hc2.trans (hc1.trans h0), hp2.trans hp1, ht2.trans ht1⟩

theorem exec_release (c : Conn) :
    exec release c = if c.settled.req.keepsAlive then exec recycle c.settled
      else exec closeConn c.settled := by
  rw [(settled_outcome c).1]
  simp only [release, exec_bind, exec_modReq, value_getReq, exec_getReq, exec_ite]
  rfl

theorem closeConn_outcome (c : Conn) :
    (exec closeConn c).place = .free ∧ (exec closeConn c).trace = c.trace := by
  by_cases h : c.req.method = .post
  · simp only [closeConn, exec_bind, value_getReq, exec_getReq, h, decide_true, exec_onlyIf,
      if_true, exec_sockRead, exec_setPlace]
    exact ⟨trivial, rfl⟩
  · simp only [closeConn, exec_bind, value_getReq, exec_getReq, decide_eq_false h, exec_onlyIf,
      Bool.false_eq_true, if_false, exec_setPlace]
    exact ⟨trivial, rfl⟩

/-- A connection that leaves the ready queue is closed, or parked for its next request. -/
theorem dispose_turnEnd (c : Conn) : TurnEnd c 0 (exec (dispose e) c) := by
  obtain ⟨hcore, hpass⟩ := finishFilter_outcome e c
  simp only [dispose, exec_bind]
  generalize exec (finishFilter e) c = c1 at hcore hpass
  obtain ⟨-, hc, -, ht⟩ := settled_outcome c1
  have hpass' : Passed (· = .filterFlush) c c1.settled := hpass.trans (.same ht)
  rw [exec_release]
  generalize c1.settled = c2 at hc hpass'
  cases c2.req.keepsAlive with
  | true =>
    exact .recycled rfl c2 (hc.trans hcore) hpass' rfl rfl rfl rfl rfl rfl rfl
  | false =>
    obtain ⟨hp, ht'⟩ := closeConn_outcome c2
    exact .closed rfl hp (hpass'.trans (.same ht'))

/-- What comes before the end of a turn and leaves the core alone. -/
theorem TurnEnd.after {c c1 c' : Conn} {ret : Int} (h : TurnEnd c1 ret c')
    (hcore : c1.core = c.core) (hplace : c1.place = c.place) (htrace : c1.trace = c.trace)
    (hst : ret ≠ 0 → c1.req.status = c.req.status) : TurnEnd c ret c' := by
  have hpass : Passed (· = .filterFlush) c c1 := .same htrace
  cases h with
  | blocked hret hc hs hp ht =>
    have hne : ret ≠ 0 := by omega
    exact .blocked hret (hc.trans hcore) (hs.trans (hst hne)) hp (ht.trans htrace)
  | goesOn hret hc hs hp ht =>
    have hne : ret ≠ 0 := by omega
    exact .goesOn hret (hc.trans hcore) (hs.trans (hst hne)) (hp.trans hplace) (ht.trans htrace)
  | dies hret hc hs hp ht =>
    exact .dies hret (hc.trans hcore) hs (hp.trans hplace) (ht.trans htrace)
  | flushing hret hc hs hp ht =>
    exact .flushing hret (hc.trans hcore) hs (hp.trans hplace) (ht.trans htrace)
  | closed hret hp ht => exact .closed hret hp (hpass.trans ht)
  | recycled hret c2 hc ht hr hl hpos hstream hin hp ht' =>
    exact .recycled hret c2 (hc.trans hcore) (hpass.trans ht) hr hl hpos hstream hin hp ht'

theorem freeRequest_turnEnd (c : Conn) : TurnEnd c 0 (exec (freeRequest e) c) := by
  obtain ⟨hcore, hp, ht, hstays⟩ := freeFlush_outcome e c
  simp only [freeRequest, exec_bind]
  generalize exec (freeFlush e) c = c1 at hcore hp ht hstays
  cases hv : value (freeFlush e) c with
  | true => exact .flushing rfl hcore (hstays hv) hp ht
  | false => exact (dispose_turnEnd e c1).after hcore hp ht fun h => absurd rfl h

theorem blockRequest_outcome (c : Conn) :
    (exec (blockRequest e) c).core = c.core ∧
      (exec (blockRequest e) c).req.status = c.req.status ∧
      (exec (blockRequest e) c).place = .block ∧ (exec (blockRequest e) c).trace = c.trace := by
  simp only [blockRequest, exec_bind, value_getReq, exec_getReq]
  cases ((exec (setPlace .block) c).req.registration e).2 <;> exact ⟨rfl, rfl, rfl, rfl⟩

theorem settle_turnEnd (ret : Int) (c : Conn) : TurnEnd c ret (exec (settle e ret) c) := by
  simp only [settle, exec_bind, value_get, exec_get]
  have hka : Idled c (exec (onlyIf c.sys.sigterm squashKa) c) ∧
      (exec (onlyIf c.sys.sigterm squashKa) c).req.status = c.req.status := by
    cases c.sys.sigterm
    · exact ⟨.refl c, rfl⟩
    · exact ⟨.same rfl rfl, rfl⟩
  generalize exec (onlyIf c.sys.sigterm squashKa) c = c0 at hka
  apply TurnEnd.after ?_ hka.1.core hka.1.place hka.1.trace fun _ => hka.2
  by_cases hblock : ret = -1
  · simp only [if_pos hblock]
    obtain ⟨hc, hs, hp, ht⟩ := blockRequest_outcome e c0
    exact .blocked hblock hc hs hp ht
  by_cases hend : ret = 0
  · simp only [if_neg hblock, if_pos hend, exec_bind]
    subst hend
    exact (freeRequest_turnEnd e (exec touch c0)).after rfl rfl rfl fun _ => rfl
  by_cases hone : ret = 1
  · simp only [if_neg hblock, if_neg hend, if_pos hone]
    exact .goesOn hone rfl rfl rfl rfl
  · simp only [if_neg hblock, if_neg hend, if_neg hone]
    exact .dies ⟨hblock, hend, hone⟩ rfl rfl rfl rfl

/-- What the end of a turn passes. -/
theorem TurnEnd.sites {c c' : Conn} {ret : Int} (h : TurnEnd c ret c') :
    Passed (fun s => s = .filterFlush ∨ s = .sanitize) c c' := by
  cases h with
  | blocked _ _ _ _ ht | goesOn _ _ _ _ ht | dies _ _ _ _ ht | flushing _ _ _ _ ht => exact .same ht
  | closed _ _ ht => exact ht.mono fun _ hs => .inl hs
  | recycled _ c1 _ ht _ _ _ _ _ _ htrace =>
    apply (ht.mono fun _ hs => .inl hs).trans
    exact ⟨_, htrace, fun v hv => .inr (by rw [List.mem_singleton.mp hv])⟩

theorem TurnEnd.passed {c c' : Conn} {ret : Int} (h : TurnEnd c ret c') :
    Passed (fun _ => True) c c' := h.sites.mono fun _ _ => trivial

end Turn

/-! The handlers that are not the reading of a header. -/

/-- Not the lines of a header, its end, or the end of its request. -/
def Site.inTurn (s : Site) : Prop :=
  s ≠ .logline ∧ s ≠ .optionLine ∧ s ≠ .headerEnd ∧ s ≠ .sanitize

/-- Not a status of the reading of a header. -/
def Status.read (st : Status) : Prop := st.reading = false

theorem Responding.inTurn : Responding Status.read Site.inTurn := by
  constructor <;> intros <;> first | rfl | exact ⟨nofun, nofun, nofun, nofun⟩

section Handlers

variable (e : Config)

theorem postWrite_works {T : Status → Prop} {S : Site → Prop} (bs : List Byte) :
    Works T S (postWrite bs) := by
  intro c
  have hp := postWrite_posted bs c
  generalize value (postWrite bs) c = v at hp
  generalize exec (postWrite bs) c = c' at hp ⊢
  cases hp <;> exact .same rfl rfl rfl

theorem readBody_works {T : Status → Prop} {S : Site → Prop} (h : T .dead) (h' : T .bodyWrite) :
    Works T S (readBody e) :=
  readBody_rel (worked_carries e h) sockRead_works h'

theorem startBody_works {T : Status → Prop} {S : Site → Prop} (h : T .dead) (h' : T .bodyWrite)
    (ret : Int) : Works T S (startBody e ret) := by
  have hbody : Works T S (modify fun c : Conn =>
      { c with body := c.req.clientStream.drop c.req.parsePos }) := fun _ => .same rfl rfl rfl
  refine .bind hbody fun _ _ => .bind (.modReq fun _ => rfl) fun _ _ => ?_
  refine .bind (.setStatus h') fun _ _ => .bind .getReq fun r _ => ?_
  split
  · exact .bind (sendRBadRequest_works e h) fun _ _ => .pure _
  · exact .bind (.modReq fun _ => rfl) fun _ _ => .pure _

/-- The end of a header, up to the start of the body of a POST. -/
theorem headerDone_works {T : Status → Prop} {S : Site → Prop} (h : Responding T S)
    (h' : T .bodyWrite) (c : Conn) :
    ∃ host, Worked T S ((exec (mark .headerEnd) c).withHost host) (exec (headerDone e) c) := by
  obtain ⟨host, hw⟩ := processHeaderEnd_works e (exec (mark .headerEnd) c) h
  refine ⟨host, ?_⟩
  change Worked T S _ (exec (endHeader e) c) at hw
  simp only [headerDone, exec_bind, value_getReq, exec_getReq]
  split
  · exact hw.trans (startBody_works e h.dead h' _ _)
  · exact hw

theorem endHeader_status (c : Conn) :
    (exec (endHeader e) c).req.status = c.req.status ∨
      (exec (endHeader e) c).req.status.reading = false := by
  obtain ⟨host, hw⟩ := processHeaderEnd_works e (exec (mark .headerEnd) c) Responding.inTurn
  exact hw.status

/-- Behind the blank line the request is not read any more. -/
theorem headerDone_leaves {c : Conn} (hs : c.req.status = .bodyRead) :
    (exec (headerDone e) c).req.status.reading = false := by
  obtain ⟨host, hw⟩ := headerDone_works e Responding.inTurn rfl c
  rcases hw.status with hst | hst
  · rw [hst]
    change c.req.status.reading = false
    rw [hs]
    rfl
  · exact hst

theorem mark_passed (site : Site) (c : Conn) :
    Passed (fun _ => True) c (exec (mark site) c) := ⟨[_], rfl, fun _ _ => trivial⟩

/-- `S` allows what the reading of a header passes. -/
structure Reads (S : Site → Prop) : Prop where
  line : ∀ s, s.isLine → S s
  headerEnd : S .headerEnd
  responding : Responding (fun _ => True) S

theorem Reads.all : Reads (fun _ => True) := ⟨fun _ _ => trivial, trivial, .all⟩

theorem Passed.mark {S : Site → Prop} {site : Site} (h : S site) (c : Conn) :
    Passed S c (exec (mark site) c) :=
  ⟨[_], rfl, fun _ hv => by rw [List.mem_singleton.mp hv]; exact h⟩

theorem endHeader_frame {S : Site → Prop} (h : Reads S) (c : Conn) :
    (exec (endHeader e) c).place = c.place ∧ Passed S c (exec (endHeader e) c) := by
  obtain ⟨host, hw⟩ := processHeaderEnd_works e (exec (mark .headerEnd) c) h.responding
  have hpass : Passed S (exec (mark .headerEnd) c) (exec (endHeader e) c) := hw.passed
  exact ⟨hw.place, (Passed.mark h.headerEnd c).trans hpass⟩

theorem ReadStep.frame {S : Site → Prop} (hr : Reads S) {n : Nat} {c c' : Conn} {v : Option Int}
    (h : ReadStep e c n v c') : c'.place = c.place ∧ Passed S c c' := by
  cases h with
  | reads h _ => exact ⟨h.place, h.passed.mono hr.line⟩
  | refused hp _ ht => exact ⟨hp, ht.mono hr.line⟩
  | @short k c1 h _ _ =>
    obtain ⟨hp, ht⟩ := endHeader_frame e hr c1
    exact ⟨hp.trans h.place, (h.passed.mono hr.line).trans ht⟩
  | @ended k c1 _ h _ =>
    obtain ⟨host, hw⟩ := headerDone_works e hr.responding trivial c1
    have hp : (exec (headerDone e) c1).place = c1.place := hw.place
    have hpass : Passed S (exec (mark .headerEnd) c1) (exec (headerDone e) c1) := hw.passed
    have hmark := Passed.mark hr.headerEnd c1
    exact ⟨hp.trans h.place, ((h.passed.mono hr.line).trans hmark).trans hpass⟩

theorem readHeader_frame {S : Site → Prop} (hr : Reads S) {c : Conn}
    (hs : c.req.status.reading = true) :
    (exec (readHeader e) c).place = c.place ∧ Passed S c (exec (readHeader e) c) := by
  rcases readHeader_cases e hs with ⟨ret, c', hstep, -, he⟩ | ⟨c', hadv, -, -, he⟩
  · rw [he]
    exact hstep.frame e hr
  · rw [he]
    obtain ⟨hp, ht, -⟩ := readMore_outcome c'
    exact ⟨hp.trans hadv.place, (hadv.passed.mono hr.line).trans (.same ht)⟩

theorem writeBody_works {T : Status → Prop} {S : Site → Prop} (h : Responding T S)
    (h' : T .bodyRead) (hs : ∀ file body, S (.bodyDone file body)) : Works T S (writeBody e) :=
  writeBody_rel (worked_carries e h.dead)
    (worked_launches e h.dead h.pipeRead h.buffPoll h.startCgi h.pushWork) postWrite_works
    (fun file body => Works.mark (hs file body)) h'

/-- The results of workers move a request on, or leave it alone. -/
theorem cgiWorkResps_scanned {T : Status → Prop} {S : Site → Prop} (hr : T .buffRead)
    (hs : S .workResp) (rs : List (Int × List Byte)) (c : Conn) :
    Scanned T S c (exec (cgiWorkResps rs) c) := by
  induction rs generalizing c with
  | nil => exact .refl c
  | cons r rs ih =>
    obtain ⟨err, data⟩ := r
    refine Scanned.trans ?_ (ih (exec (cgiWorkResp err data) c))
    rcases cgiWorkResp_works hr hs err data c with ⟨hw, -⟩ | ⟨bs, hw, -⟩
    · exact hw.scanned
    · have hsc := hw.scanned
      exact ⟨hsc.place, hsc.stream, hsc.pos, hsc.status, hsc.passed⟩

theorem cgiWorkResps_same (rs : List (Int × List Byte)) (c : Conn) :
    exec (cgiWorkResps rs) c = c ∨ (exec (cgiWorkResps rs) c).req.status = .buffRead := by
  induction rs generalizing c with
  | nil => exact .inl rfl
  | cons r rs ih =>
    obtain ⟨err, data⟩ := r
    simp only [cgiWorkResps, exec_bind]
    by_cases herr : err ≠ 0
    · simp only [cgiWorkResp, if_pos herr]
      exact ih c
    · have hstatus : (exec (cgiWorkResp err data) c).req.status = .buffRead := by
        simp only [cgiWorkResp, if_neg herr]
        rfl
      rcases ih (exec (cgiWorkResp err data) c) with hsame | hs
      · rw [hsame]
        exact .inr hstatus
      · exact .inr hs

theorem pollFromShbuff_scanned {T : Status → Prop} {S : Site → Prop} (hr : T .buffRead)
    (hs : S .workResp) (c : Conn) : Scanned T S c (exec (pollFromShbuff e) c) := by
  by_cases hlib : e.build.haveLibshare = true
  · simp only [pollFromShbuff, if_pos hlib, exec_bind, value_get, exec_get]
    by_cases hpool : c.sys.pool = true
    · simp only [if_pos hpool, exec_bind, exec_set]
      have hw := cgiWorkResps_scanned hr hs c.sys.results
        { c with sys := { c.sys with results := [] } }
      generalize exec (cgiWorkResps c.sys.results) { c with sys := { c.sys with results := [] } } =
        c1 at hw
      have hstart : Scanned T S c c1 := ⟨hw.place, hw.stream, hw.pos, hw.status, hw.passed⟩
      apply hstart.trans
      simp only [pollCollect, exec_bind, value_getReq, exec_getReq, exec_onlyIf]
      split
      · exact ⟨rfl, rfl, rfl, .inr hr, .same rfl⟩
      · exact .refl c1
    · simp only [if_neg hpool]
      exact .refl c
  · simp only [pollFromShbuff, if_neg hlib]
    exact .refl c

theorem readFromShbuff_scanned {T : Status → Prop} {S : Site → Prop} (h : T .dead) (h' : T .done)
    (hr : T .buffRead) (hw : T .buffWrite) (hs : S .locationDone) (c : Conn) :
    Scanned T S c (exec (readFromShbuff e) c) := by
  cases hb : c.req.buff with
  | some bs =>
    obtain ⟨bs', hw'⟩ := readFromShbuff_works e h h' hr hw hs hb
    have hsc := hw'.scanned
    exact ⟨hsc.place, hsc.stream, hsc.pos, hsc.status, hsc.passed⟩
  | none =>
    have hsame : exec (readFromShbuff e) c = c := by
      simp only [readFromShbuff]
      split
      · simp only [exec_bind, value_getReq, exec_getReq, hb, exec_pure]
      · rfl
    rw [hsame]
    exact .refl c

theorem processStatus_reading {c : Conn} (hs : c.req.status.reading = true) :
    value (processStatus e) c = value (readHeader e) c ∧
      exec (processStatus e) c = exec (readHeader e) c := by
  simp only [processStatus, value_bind, exec_bind, value_getReq, exec_getReq]
  generalize c.req.status = st at hs
  cases st <;> first | exact ⟨rfl, rfl⟩ | cases hs

/-- `T` and `S` allow what the other handlers do outside of a body. -/
structure Turning (T : Status → Prop) (S : Site → Prop) : Prop where
  responding : Responding T S
  buffRead : T .buffRead
  buffWrite : T .buffWrite
  pipeWrite : T .pipeWrite
  locationDone : S .locationDone
  noneSent : S .noneSent
  workResp : S .workResp

theorem Turning.inTurn : Turning Status.read Site.inTurn := by
  refine ⟨.inTurn, rfl, rfl, rfl, ?_, ?_, ?_⟩
  · exact ⟨nofun, nofun, nofun, nofun⟩
  · exact ⟨nofun, nofun, nofun, nofun⟩
  · exact ⟨nofun, nofun, nofun, nofun⟩

theorem Turning.all : Turning Status.read (fun _ => True) := by
  refine ⟨?_, rfl, rfl, rfl, trivial, trivial, trivial⟩
  constructor <;> intros <;> first | rfl | trivial

/-- The statuses in which a response reads its file. -/
def Status.transfers (st : Status) : Bool := st = .write || st = .ioshuffle

/-- The handlers of the other statuses of a response. -/
theorem processStatus_rests {T : Status → Prop} {S : Site → Prop} (hdead : T .dead)
    (hdone : T .done) (hbuff : T .buffRead ∧ T .buffWrite) (hpipe : T .pipeRead ∧ T .pipeWrite)
    (hwork : S .workResp) (hloc : S .locationDone) {c : Conn} (hs : c.req.status.responds = true)
    (ht : c.req.status.transfers = false) : Scanned T S c (exec (processStatus e) c) := by
  simp only [processStatus, exec_bind, value_getReq, exec_getReq]
  cases hst : c.req.status with
  | readHeader | oneCr | oneLf | twoCr | bodyRead | bodyWrite =>
    rw [hst] at hs
    cases hs
  | write | ioshuffle =>
    rw [hst] at ht
    cases ht
  | buffPoll => exact pollFromShbuff_scanned e hbuff.1 hwork c
  | buffRead => exact readFromShbuff_scanned e hdead hdone hbuff.1 hbuff.2 hloc c
  | buffWrite =>
    simp only [writeFromShbuff]
    split
    · exact (writeFrom_works hdead hbuff.1 c).scanned
    · exact .refl c
  | pipeRead => exact (readFromPipe_works e hdead hdone hpipe.1 hpipe.2 hloc c).scanned
  | pipeWrite => exact (writeFrom_works hdead hpipe.1 c).scanned
  | done => exact (processDone_works e hdead c).scanned
  | timedOut | dead => exact (processOver_works c).scanned

/-- No handler but `read_header` leads back to the reading of a header, and none but those
of a body to a body. -/
theorem processStatus_scanned {T : Status → Prop} {S : Site → Prop} (h : Turning T S) {c : Conn}
    (hs : c.req.status.reading = false) (hread : c.req.status = .bodyRead → T .bodyWrite)
    (hwrite : c.req.status = .bodyWrite → T .bodyRead ∧ ∀ file body, S (.bodyDone file body)) :
    Scanned T S c (exec (processStatus e) c) := by
  have hr := h.responding
  by_cases hrest : c.req.status.responds = true ∧ c.req.status.transfers = false
  · exact processStatus_rests e hr.dead hr.done ⟨h.buffRead, h.buffWrite⟩
      ⟨hr.pipeRead, h.pipeWrite⟩ h.workResp h.locationDone hrest.1 hrest.2
  simp only [processStatus, exec_bind, value_getReq, exec_getReq]
  cases hst : c.req.status with
  | readHeader | oneCr | oneLf | twoCr =>
    rw [hst] at hs
    cases hs
  | bodyRead => exact (readBody_works e hr.dead (hread hst) c).scanned
  | bodyWrite =>
    obtain ⟨ht, hsite⟩ := hwrite hst
    exact (writeBody_works e hr ht hsite c).scanned
  | write => exact (processGet_works e hr.dead hr.done hr.completeResponse hr.fileAccess c).scanned
  | ioshuffle =>
    dsimp only
    split
    · exact (ioShuffleSendfile_works e hr.dead hr.done hr.completeResponse hr.fileAccess h.noneSent
        c).scanned
    · exact (ioShuffle_works e hr.dead hr.done hr.completeResponse hr.fileAccess c).scanned
  | buffPoll | buffRead | buffWrite | pipeRead | pipeWrite | done | timedOut | dead =>
    rw [hst] at hrest
    exact absurd ⟨rfl, rfl⟩ hrest

theorem processStatus_frame (c : Conn) :
    (exec (processStatus e) c).place = c.place ∧
      Passed (fun _ => True) c (exec (processStatus e) c) := by
  cases hs : c.req.status.reading with
  | true =>
    rw [(processStatus_reading e hs).2]
    exact readHeader_frame e .all hs
  | false =>
    have hscan := processStatus_scanned e .all hs (fun _ => rfl) fun _ => ⟨rfl, fun _ _ => trivial⟩
    exact ⟨hscan.place, hscan.passed⟩

theorem processRequest_passed (c : Conn) :
    Passed (fun _ => True) c (exec (processRequest e) c) := by
  have htop : Passed (fun _ => True) c (c.dispatched e) := .same (dispatched_idled e c).trace
  rcases processRequest_run e c with ⟨-, hrun⟩ | ⟨-, hrun⟩
  · rw [hrun]
    exact htop.trans ((processStatus_frame e _).2.trans (settle_turnEnd e _ _).passed)
  · have hflush : Passed (fun _ => True) c (exec (topFlush e) c) := .same (topFlush_idles e c).trace
    rw [hrun]
    exact hflush.trans (settle_turnEnd e _ _).passed

/-- What the handler visits, the turn visits. -/
theorem processRequest_visits {c : Conn} (hv : value (topFlush e) c = 1) :
    (c.dispatched e).visits (exec (processStatus e) (c.dispatched e)) ⊆
      c.visits (exec (processRequest e) c) := by
  have htop : Passed (fun _ => True) c (c.dispatched e) := .same (dispatched_idled e c).trace
  intro v hmem
  rcases processRequest_run e c with ⟨-, hrun⟩ | ⟨hne, -⟩
  · rw [hrun]
    exact mem_visits_after htop (mem_visits_before (settle_turnEnd e _ _).passed hmem)
  · exact absurd hv hne

/-- Waking and waiting. -/
structure Woken (c c' : Conn) : Prop where
  req : c'.req = c.req
  trace : c'.trace = c.trace
  core : c'.core = c.core
  place : c'.place = c.place ∨ c'.place = .ready

theorem Woken.fdSet (fd : Nat) (d : Dir) (c : Conn) : Woken c (exec (fdSet fd d) c) := by
  cases d <;> exact ⟨rfl, rfl, rfl, .inl rfl⟩

theorem Woken.readyRequest (c : Conn) : Woken c (exec (readyRequest e) c) := by
  simp only [Crotalus.readyRequest, exec_bind, value_getReq, exec_getReq]
  cases ((exec (setPlace .ready) c).req.registration e).2 <;> exact ⟨rfl, rfl, rfl, .inr rfl⟩

theorem Woken.awaitFd (fd : Nat) (d : Dir) (c : Conn) : Woken c (exec (awaitFd e fd d) c) := by
  simp only [Crotalus.awaitFd, exec_bind, value_get, exec_get]
  split
  · exact .readyRequest e c
  · exact .fdSet fd d c

theorem Woken.updateBlocked (c : Conn) : Woken c (exec (updateBlocked e) c) := by
  simp only [Crotalus.updateBlocked, exec_bind, value_getReq, exec_getReq]
  split
  · exact .awaitFd e _ _ c
  · split
    · split
      · simp only [exec_bind, value_get, exec_get]
        split
        · exact .readyRequest e c
        · exact ⟨rfl, rfl, rfl, .inl rfl⟩
      · exact .awaitFd e _ _ c
    all_goals first | exact .awaitFd e _ _ c | exact .readyRequest e c

/-- A pass of `fdset_update`: the request can be woken, and can run out of time. -/
theorem select_outcome (readyR readyW : Nat → Bool) (c : Conn) :
    Woken c (exec (do
        selectFds readyR readyW
        fdsetUpdate e) c) ∨
      ∃ v, v.site = .timeout ∧ Woken { c with
          req := { c.req with status := .timedOut }, trace := c.trace ++ [v] }
        (exec (do
          selectFds readyR readyW
          fdsetUpdate e) c) := by
  let c0 := exec (selectFds readyR readyW) c
  have hrun : exec (do
      selectFds readyR readyW
      fdsetUpdate e) c = exec (fdsetUpdate e) c0 := rfl
  rw [hrun]
  simp only [fdsetUpdate, exec_bind, value_get, exec_get, exec_onlyIf]
  split
  · have hw := Woken.updateBlocked e (exec (setStatus .timedOut) (exec (mark .timeout) c0))
    exact .inr ⟨⟨.timeout, c.req, c.sys⟩, rfl, hw.req, hw.trace, hw.core, hw.place⟩
  · have hw := Woken.updateBlocked e c0
    exact .inl ⟨hw.req, hw.trace, hw.core, hw.place⟩

theorem sendRServiceUnavailable_works {T : Status → Prop} {S : Site → Prop} (h : T .dead) :
    Works T S (sendRServiceUnavailable e) := reply_works e h _ _ _ _

theorem refuseConn_works {T : Status → Prop} {S : Site → Prop} (h : T .dead) (h' : T .done)
    (hs : S .serviceUnavailable) (c : Conn) :
    Worked T S { c with req := { c.req with httpVersion := .http10, method := .get } }
      (exec (refuseConn e) c) := by
  have hsend := sendRServiceUnavailable_works (T := T) (S := S) e h
    { c with req := { c.req with httpVersion := .http10, method := .get } }
  simp only [refuseConn, exec_bind]
  exact (hsend.trans (Works.mark hs _)).trans (Works.setStatus h' _)

/-- A connection starts on the ready queue. -/
theorem accepted_ready {c : Conn} (h : Accepted e c) : c.place = .ready := by
  obtain ⟨c0, now, fd, localIp, remoteIp, port, h | h⟩ := h
  · rw [h]
    rfl
  · have hw := refuseConn_works (T := fun _ => True) (S := fun _ => True) e trivial trivial trivial
      (acceptConn e now fd localIp remoteIp port c0)
    rw [h, hw.place]
    rfl

end Handlers

end Crotalus
