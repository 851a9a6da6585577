import Crotalus.Spec.Cgi
import Crotalus.Spec.Handlers

namespace Crotalus

open Stateful

/-! What the end of a header leads to, for each value that `process_header_end` returns. -/

/-- The visits between two states of a run. -/
def Conn.visits (c c' : Conn) : List Visit := c'.trace.drop c.trace.length

section Visits

variable {S : Site → Prop} {c c' c'' : Conn}

theorem visits_of_append {l : List Visit} (h : c'.trace = c.trace ++ l) : c.visits c' = l := by
  rw [Conn.visits, h, List.drop_left]

theorem Passed.trace (h : Passed S c c') : c'.trace = c.trace ++ c.visits c' := by
  obtain ⟨vs, ht, -⟩ := h
  rw [visits_of_append ht, ht]

theorem Passed.visit (h : Passed S c c') {v : Visit} (hv : v ∈ c.visits c') : S v.site := by
  obtain ⟨vs, ht, hs⟩ := h
  rw [visits_of_append ht] at hv
  exact hs v hv

theorem visits_trans {S S' : Site → Prop} (h : Passed S c c') (h' : Passed S' c' c'') :
    c.visits c'' = c.visits c' ++ c'.visits c'' := by
  apply visits_of_append
  rw [h'.trace, h.trace, List.append_assoc, visits_of_append h.trace]

/-- A visit of a later part of the run. -/
theorem mem_visits_after (h : Passed S c c') {v : Visit} (hv : v ∈ c'.visits c'') :
    v ∈ c.visits c'' := by
  obtain ⟨vs, ht, -⟩ := h
  rw [Conn.visits, ht, List.length_append, ← List.drop_drop] at hv
  exact List.mem_of_mem_drop hv

/-- A visit of an earlier part. -/
theorem mem_visits_before (h : Passed S c' c'') {v : Visit} (hv : v ∈ c.visits c') :
    v ∈ c.visits c'' := by
  obtain ⟨vs, ht, -⟩ := h
  have hdrop : c'.trace.drop c.trace.length <+: (c'.trace ++ vs).drop c.trace.length := by
    rw [List.drop_append]
    exact List.prefix_append _ _
  rw [Conn.visits, ht]
  exact hdrop.subset hv

theorem visits_eq (h : c'.trace = c.trace) : c.visits c' = [] := by
  rw [Conn.visits, h, List.drop_length]

end Visits

/-- The statuses of a response; the others are those of the reading of a request. -/
def Status.responds (st : Status) : Bool := Status.rank .bodyWrite < st.rank

/-- The points of the code behind the choice of a responder. -/
def Site.respond : Site → Bool
  | .completeResponse | .serveFile | .startCgi | .pushWork | .gzip | .dirmaker | .initGet
  | .handlerDeclined | .locationDone | .noneSent | .workResp | .fileAccess .. => true
  | _ => false

theorem Responding.responds :
    Responding (fun st => st.responds = true) (fun s => s.respond = true) := by
  constructor <;> intros <;> rfl

/-- No value says that the request is to be blocked. -/
def NeverBlocks (m : Srv Int) : Prop := ∀ c, value m c ≠ -1

section NeverBlocks

@[grind ←]
theorem NeverBlocks.pure {a : Int} (h : a ≠ -1) : NeverBlocks (Pure.pure a) := fun _ => h

@[grind ←]
theorem NeverBlocks.bind {α : Type} {m : Srv α} {f : α → Srv Int} (h : ∀ a, NeverBlocks (f a)) :
    NeverBlocks (m >>= f) :=
  fun c => h (value m c) (exec m c)

variable (e : Config)

@[grind ←] theorem completeResponse_neverBlocks : NeverBlocks (completeResponse e) := by
  unfold completeResponse
  grind

@[grind ←] theorem fillBuffer_neverBlocks : NeverBlocks (fillBuffer e) := by
  unfold fillBuffer
  grind

@[grind ←]
theorem serveFile_neverBlocks (fd : Nat) (f : File) : NeverBlocks (serveFile e fd f) := by
  unfold serveFile
  grind

@[grind ←]
theorem initGetFile_neverBlocks (fd : Nat) (f : File) : NeverBlocks (initGetFile e fd f) := by
  unfold initGetFile serveEmpty
  grind

@[grind ←] theorem redirectDir_neverBlocks : NeverBlocks (redirectDir e) := by
  unfold redirectDir
  grind

@[grind ←]
theorem initGetDir_neverBlocks (dir : File) : NeverBlocks (initGetDir e dir) := by
  apply NeverBlocks.bind
  intro r
  split
  · exact redirectDir_neverBlocks e
  · apply NeverBlocks.bind
    rintro ⟨fd, f⟩
    dsimp only
    split
    · exact .pure (by decide)
    · split
      · exact .pure (by omega)
      · exact initGetFile_neverBlocks e _ f

@[grind ←] theorem openGet_neverBlocks : NeverBlocks (openGet e) := by
  unfold openGet
  grind

theorem startGet_neverBlocks : NeverBlocks (startGet e) := by
  unfold startGet initGet
  grind

end NeverBlocks

/-! `init_cgi` and the handlers. -/

section Cgi

variable (e : Config) (c : Conn)

theorem cgiParent_answer (pipe : Nat) :
    value (cgiParent pipe) c = 0 ∨
      (value (cgiParent pipe) c = 1 ∧ (exec (cgiParent pipe) c).req.status = .pipeRead) := by
  simp only [cgiParent, value_bind, exec_bind, value_getReq, exec_getReq]
  cases (exec (modReq fun r => if r.method = .post then { r with postDataFd := 0 } else r)
    c).req.usePipes with
  | false => exact .inl rfl
  | true => exact .inr ⟨rfl, rfl⟩

theorem forkCgi_answer :
    value (forkCgi e) c = 0 ∨
      (value (forkCgi e) c = 1 ∧ (exec (forkCgi e) c).req.status = .pipeRead) := by
  cases hf : c.forks with
  | false => exact .inl (forkCgi_fails e hf).1
  | true =>
    obtain ⟨hv, he⟩ := forkCgi_run e hf
    rw [hv, he]
    exact cgiParent_answer _ _

/-- The bytes of the client that no line has taken yet. -/
def Request.unparsed (r : Request) : List Byte := r.clientStream.drop r.parsePos

/-- A point is passed and the request keeps the status it had there, or dies. -/
structure Stuck (site : Site) (c c' : Conn) (v : Visit) : Prop where
  mem : v ∈ c.visits c'
  site : v.site = site
  unparsed : v.req.unparsed = c.req.unparsed
  version : v.req.httpVersion = c.req.httpVersion
  method : v.req.method = c.req.method
  before : v.req.status = c.req.status ∨ v.req.status = .dead
  after : c'.req.status = v.req.status ∨ c'.req.status = .dead

/-- What a responder has made of the request when it returns `ret`. -/
inductive Answer (c c' : Conn) (ret : Int) : Prop where
  | declined (h : ret = 0)
  | responds (h : ret ≠ -1) (hs : c'.req.status.responds = true)
  | rejected (v : Visit) (h : Stuck .pushWork c c' v) (hv : v.sys.shprocPush = ret) (hne : ret ≠ 0)
  | gzip (v : Visit) (h : Stuck .gzip c c' v) (hm : c.req.method ≠ .post)
      (hv : ret = 1 ∨ (ret = -1 ∧ v.sys.gzopen = none))

/-- What can happen to a request on the way to its responder. -/
structure Leads (c c1 : Conn) : Prop where
  passed : Passed (fun _ => True) c c1
  unparsed : c1.req.unparsed = c.req.unparsed
  version : c1.req.httpVersion = c.req.httpVersion
  method : c1.req.method = c.req.method
  status : c1.req.status = c.req.status ∨ c1.req.status = .dead

theorem Worked.leads {S : Site → Prop} {c c1 : Conn} (h : Worked (· = .dead) S c c1) :
    Leads c c1 := by
  have hr := h.req
  simp only [Request.steady, Prod.mk.injEq] at hr
  have hun : c1.req.unparsed = c.req.unparsed := by
    rw [Request.unparsed, hr.2.2.2.2.2.1, hr.2.2.2.2.2.2.1]
    rfl
  exact ⟨⟨_, h.passed.trace, fun _ _ => trivial⟩, hun, hr.2.1, hr.1, h.status⟩

theorem Stuck.follows {site : Site} {c c1 c' : Conn} {v : Visit} (h : Stuck site c1 c' v)
    (hl : Leads c c1) : Stuck site c c' v := by
  refine ⟨mem_visits_after hl.passed h.mem, h.site, h.unparsed.trans hl.unparsed,
    h.version.trans hl.version,
    h.method.trans hl.method, ?_, h.after⟩
  rcases h.before with hb | hb
  · rw [hb]
    exact hl.status
  · exact .inr hb

theorem Answer.follows {c c1 c' : Conn} {ret : Int} (h : Answer c1 c' ret) (hl : Leads c c1) :
    Answer c c' ret := by
  cases h with
  | declined h => exact .declined h
  | responds h hs => exact .responds h hs
  | rejected v h hv hne => exact .rejected v (h.follows hl) hv hne
  | gzip v h hm hv => exact .gzip v (h.follows hl) (hl.method ▸ hm) hv

theorem forkCgi_answers : Answer c (exec (forkCgi e) c) (value (forkCgi e) c) := by
  rcases forkCgi_answer e c with hv | ⟨hv, hs⟩
  · exact .declined hv
  · apply Answer.responds
    · rw [hv]
      decide
    · rw [hs]
      rfl

theorem initWorkCgi_answers : Answer c (exec (initWorkCgi e) c) (value (initWorkCgi e) c) := by
  have hw := completeEnv_works (T := (· = .dead)) (S := fun _ => False) e c
  refine Answer.follows ?_ hw.leads
  simp only [initWorkCgi, value_bind, exec_bind, value_get, exec_get]
  generalize exec (completeEnv e) c = c1
  by_cases hpush : (exec (mark .pushWork) c1).sys.shprocPush ≠ 0
  · simp only [if_pos hpush]
    have hv : c1.visits (exec (mark .pushWork) c1) = [⟨.pushWork, c1.req, c1.sys⟩] :=
      visits_of_append rfl
    refine .rejected ⟨.pushWork, c1.req, c1.sys⟩ ⟨?_, rfl, rfl, rfl, rfl, .inl rfl, .inl rfl⟩ rfl hpush
    rw [exec_pure, hv]
    exact List.mem_singleton.mpr rfl
  · simp only [if_neg hpush]
    have hone : (1 : Int) ≠ -1 := by decide
    exact .responds hone rfl

theorem initCgi_answers : Answer c (exec (initCgi e) c) (value (initCgi e) c) := by
  have hka : Worked (· = .dead) (fun _ => False) c (exec squashKa c) := .same rfl rfl rfl
  refine Answer.follows ?_ hka.leads
  simp only [initCgi, value_bind, exec_bind, value_getReq, exec_getReq]
  generalize exec squashKa c = c1
  split
  · exact initWorkCgi_answers e c1
  · split
    · have hw := completeEnv_works (T := (· = .dead)) (S := fun _ => False) e c1
      refine Answer.follows ?_ hw.leads
      simp only [value_bind, exec_bind]
      split
      · exact forkCgi_answers e _
      · exact .declined rfl
    · exact forkCgi_answers e c1

theorem mimeGetGzip_answers (hm : c.req.method ≠ .post) :
    Answer c (exec (mimeGetGzip e) c) (value (mimeGetGzip e) c) := by
  have hvisit : c.visits (exec (mark .gzip) c) = [⟨.gzip, c.req, c.sys⟩] := visits_of_append rfl
  have hmem : (⟨.gzip, c.req, c.sys⟩ : Visit) ∈ c.visits (exec (mark .gzip) c) := by
    rw [hvisit]
    exact List.mem_singleton.mpr rfl
  simp only [mimeGetGzip, value_bind, exec_bind, value_get, exec_get]
  have hsys : (exec (mark .gzip) c).sys = c.sys := rfl
  have hstatus : (exec (mark .gzip) c).req.status = c.req.status := rfl
  generalize exec (mark .gzip) c = c1 at hmem hsys hstatus
  have hstuck : ∀ c2, Worked (· = .dead) (fun _ => True) c1 c2 →
      Stuck .gzip c c2 ⟨.gzip, c.req, c.sys⟩ := by
    intro c2 hw
    refine ⟨mem_visits_before hw.passed hmem, rfl, rfl, rfl, rfl, .inl rfl, ?_⟩
    rw [← hstatus]
    exact hw.status
  rw [hsys]
  cases hgz : c.sys.gzopen with
  | none =>
    have hw := sendRBadGateway_works (T := (· = .dead)) (S := fun _ => True) e rfl c1
    exact .gzip _ (hstuck _ hw) hm (.inr ⟨rfl, hgz⟩)
  | some blocks =>
    have hok := sendRRequestOk_works (T := (· = .dead)) (S := fun _ => True) e rfl c1
    have hblocks := gzipBlocks_works (T := (· = .dead)) (S := fun _ => True) e rfl trivial blocks
      (exec (sendRRequestOk e) c1)
    exact .gzip _ (hstuck _ (hok.trans hblocks)) hm (.inl rfl)

theorem mimeInterpRequest_answers :
    Answer c (exec (mimeInterpRequest e) c) (value (mimeInterpRequest e) c) := by
  simp only [mimeInterpRequest, value_bind, exec_bind, value_getReq, exec_getReq]
  cases hh : c.req.handler e with
  | none => exact .declined rfl
  | some h =>
    cases h with
    | cgi => exact (initCgi_answers e _).follows ⟨.same rfl, rfl, rfl, rfl, .inl rfl⟩
    | php => exact (initCgi_answers e _).follows ⟨.same rfl, rfl, rfl, rfl, .inl rfl⟩
    | gzip =>
      refine mimeGetGzip_answers e c fun hpost => ?_
      rw [Request.handler, hpost] at hh
      split at hh
      · cases hh
      · split at hh <;> simp at hh

/-- A response from a file leaves the statuses of the reading. -/
theorem startGet_responds : (exec (startGet e) c).req.status.responds = true := by
  simp only [startGet, exec_bind]
  let c1 := exec (setStatus .write) (exec (mark .handlerDeclined) (exec (selectFilter e) c))
  have hw : Worked (fun st => st.responds = true) (fun s => s.respond = true) c1
      (exec (initGet e) c1) := initGet_works e .responds c1
  rcases hw.status with hs | hs
  · rw [hs]
    rfl
  · exact hs

theorem answerGet_answers : Answer c (exec (answerGet e) c) (value (answerGet e) c) := by
  have hmime : Leads c (exec (selectMime e) c) := ⟨.same rfl, rfl, rfl, rfl, .inl rfl⟩
  refine Answer.follows ?_ hmime
  simp only [answerGet, value_bind, exec_bind]
  generalize exec (selectMime e) c = c1
  by_cases hv : value (mimeInterpRequest e) c1 ≠ 0
  · simp only [if_pos hv]
    exact mimeInterpRequest_answers e c1
  · simp only [if_neg hv]
    exact .responds (startGet_neverBlocks e _) (startGet_responds e _)

theorem dispatchRequest_answers (hm : c.req.method ≠ .post) :
    Answer c (exec (dispatchRequest e) c) (value (dispatchRequest e) c) := by
  simp only [dispatchRequest, value_bind, exec_bind, value_getReq, exec_getReq, if_neg hm]
  by_cases ht : c.req.cgiType ≠ .unset
  · simp only [if_pos ht]
    exact initCgi_answers e c
  · simp only [if_neg ht]
    exact answerGet_answers e c

theorem prepareRequest_leads : Leads c (exec (prepareRequest e) c) := by
  obtain ⟨host, hw⟩ :=
    prepareRequest_works (T := (· = .dead)) (S := fun _ => True) e rfl c
  have hl := hw.leads
  exact ⟨hl.passed, hl.unparsed, hl.version, hl.method, hl.status⟩

/-- Without a body the end of the header leads to a responder. -/
theorem processHeaderEnd_answers (hm : c.req.method ≠ .post) :
    Answer c (exec (processHeaderEnd e) c) (value (processHeaderEnd e) c) := by
  have hl := prepareRequest_leads e c
  simp only [processHeaderEnd, value_bind, exec_bind]
  generalize exec (prepareRequest e) c = c1 at hl
  cases value (prepareRequest e) c with
  | true =>
    have hm1 : c1.req.method ≠ .post := hl.method ▸ hm
    exact (dispatchRequest_answers e c1 hm1).follows hl
  | false => exact .declined rfl

/-- For a POST it opens the file that takes the body. -/
theorem processHeaderEnd_opens (hm : c.req.method = .post) :
    value (processHeaderEnd e) c = 0 ∨
      (value (processHeaderEnd e) c = 1 ∧ (exec (processHeaderEnd e) c).req.postDataFd ≠ 0 ∧
        (exec (processHeaderEnd e) c).postFile = []) := by
  have hl := prepareRequest_leads e c
  simp only [processHeaderEnd, value_bind, exec_bind]
  generalize exec (prepareRequest e) c = c1 at hl
  cases value (prepareRequest e) c with
  | true =>
    have hm1 : c1.req.method = .post := hl.method.trans hm
    simp only [if_true, dispatchRequest, value_bind, exec_bind, value_getReq, exec_getReq,
      if_pos hm1]
    rcases openPost_cases (T := fun _ => True) (S := fun _ => True) e trivial c1 with
      ⟨fd, hfd, hv, he⟩ | ⟨hv, -⟩
    · rw [hv, he]
      exact .inr ⟨rfl, hfd, rfl⟩
    · exact .inl hv
  | false => exact .inl rfl

theorem dispatchRequest_works {T : Status → Prop} {S : Site → Prop} (h : Responding T S) :
    Works T S (dispatchRequest e) := by
  apply Works.bind .getReq
  intro r _
  split
  · intro c
    rcases openPost_cases (T := T) (S := S) e h.dead c with ⟨fd, -, -, he⟩ | ⟨-, hw⟩
    · rw [he]
      exact .same rfl rfl rfl
    · exact hw
  split
  · exact initCgi_works e h.dead h.pipeRead h.buffPoll h.startCgi h.pushWork
  · exact answerGet_works e h

theorem processHeaderEnd_works {T : Status → Prop} {S : Site → Prop} (h : Responding T S) :
    ∃ host, Worked T S (c.withHost host) (exec (processHeaderEnd e) c) := by
  obtain ⟨host, hw⟩ := prepareRequest_works (T := T) (S := S) e h.dead c
  refine ⟨host, ?_⟩
  simp only [processHeaderEnd, exec_bind]
  cases value (prepareRequest e) c with
  | true => exact hw.trans (dispatchRequest_works e h _)
  | false => exact hw

end Cgi

end Crotalus
