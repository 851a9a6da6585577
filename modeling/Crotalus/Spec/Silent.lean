import Crotalus.Spec.RelayWalk
import Crotalus.Spec.SuccessWalk
import Crotalus.Spec.Under

namespace Crotalus

open Stateful

/-! A request that has died stays dead and says nothing more. -/

/-- The request has not died, or it is dead and its wire has what it had then. -/
def Silent (c : Conn) : Prop :=
  c.died = none ∨ (c.req.status = .dead ∧ c.died = some c.wire)

/-- The step ends the ranges of a response, which is then DONE. -/
def Request.closes (r : Request) : Bool :=
  !(r.responseStatus = rPartialContent && r.numranges > 1 && r.ranges.tail ≠ [])

/-- The filter has no stream that it could end. -/
def Request.streamless (e : Config) (r : Request) : Bool :=
  match r.filter with
  | some .deflate => (r.zlib.bind e.deflateEnd).isNone
  | some .gzip => r.gzipFl.isNone
  | none => true

/-- The point does not move a dead request on, nor lose one that it moves on. A redirect from a
program's output is written whole. -/
def Visit.spares (e : Config) (v : Visit) : Prop :=
  match v.site with
  | .completeResponse => v.req.closes = true → v.req.status ≠ .dead ∧
      (v.req.responseStatus = rPartialContent ∧ v.req.numranges > 1 →
        v.req.bufferEnd + (texts printPartialContentDone).length ≤ bufferSize)
  | .locationDone => ∀ d : Conn, d.req = v.req → d.sys = v.sys →
      (exec (locationReply e (v.req.headerLine + 10)) d).req.status ≠ .dead
  | .handlerDeclined | .workResp | .timeout => v.req.status ≠ .dead
  | .serveFile => v.req.status = .dead → ¬(v.req.filesize > maxFileMmap ∨ (!v.sys.mmap) = true)
  | .startCgi => v.req.status = .dead → v.req.usePipes = false
  | .pushWork => v.req.status = .dead → v.sys.shprocPush ≠ 0
  | .filterFlush => v.req.status = .dead → v.req.streamless e = true
  | _ => True

/-- All points do. -/
def Spares (e : Config) (vs : List Visit) : Prop := ∀ v ∈ vs, v.spares e

theorem Spares.splits (e : Config) : Splits (Spares e) := .each _

section Silent

variable {c c' : Conn}

theorem Silent.congr (h : Silent c) (hf : c'.fate = c.fate) (hw : c'.wire = c.wire) :
    Silent c' := by
  obtain ⟨hs, hd⟩ := Prod.mk.inj hf
  rcases h with h | ⟨hdead, hdied⟩
  · exact .inl (hd.trans h)
  · refine .inr ⟨hs.trans hdead, ?_⟩
    rw [hd, hdied, hw]

theorem Silent.dies (h : Silent c) : Silent (exec (setStatus .dead) c) := by
  rcases h with h | ⟨-, hdied⟩
  · refine .inr ⟨rfl, ?_⟩
    change c.died.or (some c.wire) = some c.wire
    rw [h, Option.none_or]
  · refine .inr ⟨rfl, ?_⟩
    change c.died.or (some c.wire) = some c.wire
    rw [hdied, Option.some_or]

theorem Silent.alive (h : Silent c) (hs : c.req.status ≠ .dead) : c.died = none := by
  rcases h with h | ⟨hdead, -⟩
  · exact h
  · exact absurd hdead hs

/-- A dead request is over. -/
theorem Silent.living (h : Silent c) (hs : c.req.status.over = false) : c.died = none := by
  refine h.alive fun hdead => ?_
  rw [hdead] at hs
  cases hs

/-- What a flush may do. -/
theorem Silent.fated (h : Silent c) {i : Int} (hf : Fated c c' i)
    (hover : c.req.status.over = true → c' = c) : Silent c' := by
  by_cases hs : c.req.status.over = true
  · rw [hover hs]
    exact h
  have hnone := h.living (Bool.eq_false_iff.mpr hs)
  cases hf with
  | past ho _ => exact absurd ho hs
  | lives i hi hfate => exact .inl ((congrArg Prod.snd hfate).trans hnone)
  | dies c1 hfate he =>
    have hnone1 : c1.died = none := (congrArg Prod.snd hfate).trans hnone
    have hempty : Silent { c1 with req := c1.req.emptied } := .inl hnone1
    rw [he]
    exact hempty.dies

theorem reqFlush_silent (e : Config) (h : Silent c) : Silent (exec (reqFlush e) c) :=
  h.fated (reqFlush_fated e c) fun hs => (reqFlush_over e hs).2

theorem reqFlushRaw_silent (h : Silent c) : Silent (exec reqFlushRaw c) := by
  refine h.fated (reqFlushRaw_fated c) fun hs => ?_
  simp only [reqFlushRaw, exec_bind, value_getReq, exec_getReq, if_pos hs, exec_pure]

theorem reqWrite_silent (msg : Text) (h : Silent c) : Silent (exec (reqWrite msg) c) := by
  by_cases hs : c.req.status.over = true
  · rwa [exec_reqWrite_over msg c hs]
  · rw [exec_reqWrite msg c (Bool.eq_false_iff.mpr hs)]
    split
    · exact h.congr rfl rfl
    · exact h.dies

theorem reqWriteEscape_silent (esc : Byte → Text) (guard : Nat) (msg : Text) (h : Silent c) :
    Silent (exec (reqWriteEscape esc guard msg) c) := by
  have happ : Silent (c.buffers (escapeLoop esc guard (bufferSize - c.req.bufferEnd) msg).1) :=
    h.congr rfl rfl
  simp only [reqWriteEscape, exec_bind, exec_getReq, value_getReq, exec_modReq, exec_ite,
    exec_pure]
  split
  · exact happ
  · exact happ.dies

theorem reqWriteEscapeAt_silent (esc : Byte → Text) (guard off : Nat) (h : Silent c) :
    Silent (exec (reqWriteEscapeAt esc guard off) c) := by
  have happ : Silent (exec (modReq fun r => { r with
      buffer := (escapeLoopAt esc guard bufferSize c.req.buffer c.req.bufferEnd off).1
      bufferEnd := (escapeLoopAt esc guard bufferSize c.req.buffer c.req.bufferEnd off).2.1 }) c) :=
    h.congr rfl rfl
  simp only [reqWriteEscapeAt, exec_bind, exec_getReq, value_getReq, exec_ite, exec_pure]
  split
  · exact happ
  · exact happ.dies

theorem put_silent (p : Piece) (h : Silent c) : Silent (exec (put p) c) := by
  cases p with
  | raw msg => exact reqWrite_silent msg h
  | http msg => exact reqWriteEscape_silent _ _ msg h
  | html msg => exact reqWriteEscape_silent _ _ msg h
  | rawAt off => exact reqWrite_silent _ h
  | httpAt off => exact reqWriteEscapeAt_silent _ _ off h
  | htmlAt off => exact reqWriteEscapeAt_silent _ _ off h

end Silent

/-! The way to a response. -/

section Walk

variable (e : Config)

theorem Request.status_bare {r r' : Request} (h : r'.bare = r.bare) : r'.status = r.status := by
  have hs : r'.bare.status = r.bare.status := congrArg Request.status h
  exact hs

theorem Request.status_unread {r r' : Request} (h : r'.unread = r.unread) :
    r'.status = r.status := by
  have hs : r'.unread.status = r.unread.status := congrArg Request.status h
  exact hs

section Parts

variable {ok : List Visit → Prop}

theorem modReq_silent {f : Request → Request} (h : ∀ r, (f r).status = r.status) :
    Rel (Under ok Silent) (modReq f) :=
  fun c => .still rfl (·.congr (congrArg (fun st => (st, c.died)) (h c.req)) rfl)

/-- A point where nothing is moved on. -/
theorem mark_silent (site : Site) : Rel (Under ok Silent) (mark site) :=
  fun _ => .visiting rfl fun _ hi => hi.congr rfl rfl

theorem dead_silent : Rel (Under ok Silent) (setStatus .dead) := fun _ => .still rfl (·.dies)

theorem silent_fills (hs : Splits ok) : Fills (Under ok Silent) where
  refl := .refl
  trans := .trans hs
  set h := modReq_silent fun r => Request.status_bare (h r)
  alloc _ := .still rfl (·.congr rfl rfl)

theorem silent_walks (hs : Splits ok) : Walks e (Under ok Silent) where
  toFills := silent_fills hs
  put p c := .passing (put_works (T := fun _ => True) trivial p c).passed (put_silent p)
  flush c := .still (reqFlush_idles e c).trace (reqFlush_silent e)
  flushRaw c := .still (reqFlushRaw_idles c).trace reqFlushRaw_silent

end Parts

theorem spares_walks : Walks e (Under (Spares e) Silent) := silent_walks e (Spares.splits e)

/-- A status that a living request is given. -/
theorem Silent.entered {c : Conn} {st : Status} (h : c.died = none) (hst : st ≠ .dead) :
    Silent (exec (setStatus st) c) := by
  refine .inl ?_
  rw [exec_setStatus, if_neg hst]
  exact h

/-- A point that a living request passes into a status. -/
theorem enter_spares {site : Site} {st : Status} (hst : st ≠ .dead)
    (hs : ∀ r w, (⟨site, r, w⟩ : Visit).spares e → r.status ≠ .dead) :
    Rel (Under (Spares e) Silent) (mark site >>= fun _ => setStatus st) := by
  intro c
  refine .visiting (v := ⟨site, c.req, c.sys⟩) rfl fun hok hi => ?_
  have hlive : c.died = none := hi.alive (hs _ _ (hok _ (List.mem_singleton.mpr rfl)))
  exact Silent.entered (c := exec (mark site) c) hlive hst

/-- The end of a range: what follows it, or DONE for a request that lives. -/
theorem completeResponse_spares : Rel (Under (Spares e) Silent) (completeResponse e) := by
  have hw := spares_walks e
  intro c
  let v : Visit := ⟨.completeResponse, c.req, c.sys⟩
  let c1 : Conn := { c with
    trace := c.trace ++ [v], req := { c.req with ranges := c.req.ranges.tail } }
  have hclosing : Spares e [v] → c.req.closes = true → c.req.status ≠ .dead ∧
      (c.req.responseStatus = rPartialContent ∧ c.req.numranges > 1 →
        c.req.bufferEnd + (texts printPartialContentDone).length ≤ bufferSize) :=
    fun hok => hok v (List.mem_singleton.mpr rfl)
  have hstart : Under (Spares e) Silent c c1 := .visiting (v := v) rfl fun _ hi => hi.congr rfl rfl
  simp only [completeResponse, exec_bind, exec_mark, exec_modReq, value_getReq, exec_getReq]
  by_cases hmulti : c.req.responseStatus = rPartialContent ∧ c.req.numranges > 1
  · rw [if_pos hmulti]
    by_cases hmore : c.req.ranges.tail ≠ []
    · rw [if_pos hmore]
      exact hstart.trans (Spares.splits e) (puts_rel hw _ c1)
    · rw [if_neg hmore]
      let c2 := exec (setStatus .done) (exec (reqWrite closing) c1)
      have hnow : Under (Spares e) Silent c c2 := by
        have hput : Passed (fun _ => False) c1 (exec (reqWrite closing) c1) :=
          (reqWrite_works (T := fun _ => True) trivial closing c1).passed
        refine .visiting (v := v) hput.eq fun hok hi => ?_
        have hcloses : c.req.closes = true := by simp [Request.closes, not_not.mp hmore]
        obtain ⟨hlive, hfit⟩ := hclosing hok hcloses
        have hnone : c1.died = none := hi.alive hlive
        apply Silent.entered ?_ (by decide)
        by_cases hs : c1.req.status.over = true
        · rwa [exec_reqWrite_over closing c1 hs]
        · have hlen : (texts printPartialContentDone).length = closing.length := by
            simp [texts, printPartialContentDone, Piece.text]
          have hroom := hfit hmulti
          rw [hlen] at hroom
          rw [exec_reqWrite closing c1 (Bool.eq_false_iff.mpr hs), if_pos (.inl hroom)]
          exact hnone
      exact hnow.trans (Spares.splits e) (hw.flush c2)
  · rw [if_neg hmulti]
    refine .visiting (v := v) rfl fun hok hi => ?_
    have hcloses : c.req.closes = true := by
      simp only [Request.closes, Bool.not_eq_true', Bool.and_eq_false_iff, decide_eq_false_iff_not]
      rcases not_and_or.mp hmulti with h | h
      · exact .inl (.inl h)
      · exact .inl (.inr h)
    have hnone : c1.died = none := hi.alive (hclosing hok hcloses).1
    exact Silent.entered (c := c1) hnone (by decide)

theorem cgiStarted_spares (pipe : Nat) : Rel (Under (Spares e) Silent) (cgiStarted pipe) := by
  intro c
  let r : Request := if c.req.method = .post then { c.req with postDataFd := 0 } else c.req
  have hr : r.usePipes = c.req.usePipes ∧ r.status = c.req.status := by
    dsimp only [r]
    split <;> exact ⟨rfl, rfl⟩
  simp only [cgiStarted, cgiParent, exec_bind, exec_mark, exec_modReq, value_getReq, exec_getReq]
  change Under (Spares e) Silent c (exec (if (!r.usePipes) = true then pure 0 else _) _)
  by_cases hpipes : c.req.usePipes = true
  · rw [hr.1, hpipes, if_neg (by decide)]
    refine .visiting (v := ⟨.startCgi, c.req, c.sys⟩) rfl fun hok hi => ?_
    have hlive : c.req.status ≠ .dead := by
      intro hd
      have hno : c.req.usePipes = false := hok _ (List.mem_singleton.mpr rfl) hd
      rw [hpipes] at hno
      cases hno
    exact .inl (hi.alive hlive)
  · rw [hr.1, if_pos (by simpa using hpipes)]
    refine .visiting (v := ⟨.startCgi, c.req, c.sys⟩) rfl fun _ hi => ?_
    exact hi.congr (congrArg (fun st => (st, c.died)) hr.2) rfl

theorem initWorkCgi_spares : Rel (Under (Spares e) Silent) (initWorkCgi e) := by
  have hf := silent_fills (Spares.splits e)
  have hpush : Rel (Under (Spares e) Silent) (do
      mark .pushWork
      let err := (← get).sys.shprocPush
      if err ≠ 0 then return err
      else
        setStatus .buffPoll
        return 1) := by
    intro c
    simp only [exec_bind, exec_mark, exec_get, value_get]
    by_cases herr : c.sys.shprocPush ≠ 0
    · rw [if_pos herr]
      exact .visiting (v := ⟨.pushWork, c.req, c.sys⟩) rfl fun _ hi => hi.congr rfl rfl
    · rw [if_neg herr]
      refine .visiting (v := ⟨.pushWork, c.req, c.sys⟩) rfl fun hok hi => ?_
      have hlive : c.req.status ≠ .dead := fun hd =>
        herr (hok _ (List.mem_singleton.mpr rfl) hd)
      exact .inl (hi.alive hlive)
  exact hf.bind (completeEnv_rel hf) fun _ => hpush

theorem spares_launches : Launches e (Under (Spares e) Silent) where
  toWalks := spares_walks e
  started := cgiStarted_spares e
  work := initWorkCgi_spares e

theorem gzipBlocks_spares (bs : List (List Byte)) :
    Rel (Under (Spares e) Silent) (gzipBlocks e bs) := by
  have hw := spares_walks e
  induction bs with
  | nil => exact hw.pure _
  | cons b bs ih =>
    unfold gzipBlocks
    refine .ite (hw.pure _) (hw.bind ?_ fun _ => ih)
    refine hw.bind (mark_silent _) fun _ => hw.bind (modReq_silent fun _ => rfl) fun _ => ?_
    exact hw.returning hw.flush _

theorem mimeGetGzip_spares : Rel (Under (Spares e) Silent) (mimeGetGzip e) := by
  have hw := spares_walks e
  refine hw.bind (mark_silent _) fun _ => Rel.read fun c => ?_
  split
  · exact hw.returning (sendRBadGateway_rel hw) _
  · exact hw.bind (sendRRequestOk_rel hw) fun _ => hw.returning (gzipBlocks_spares e _) _

/-- The file of a living request is read from its descriptor; one that is dead has a mapping. -/
theorem serveFile_spares (fd : Nat) (f : File) : Rel (Under (Spares e) Silent) (do
    mark .serveFile
    mapFile fd f) := by
  intro c
  let v : Visit := ⟨.serveFile, c.req, c.sys⟩
  simp only [mapFile, exec_bind, exec_mark, exec_get, value_get]
  by_cases hbig : c.req.filesize > maxFileMmap ∨ (!c.sys.mmap) = true
  · rw [if_pos hbig]
    refine .visiting (v := v) rfl fun hok hi => ?_
    have hlive : c.req.status ≠ .dead := fun hd => hok v (List.mem_singleton.mpr rfl) hd hbig
    exact .inl (hi.alive hlive)
  · rw [if_neg hbig]
    exact .visiting (v := v) rfl fun _ hi => hi.congr rfl rfl

theorem fillBuffer_spares : Rel (Under (Spares e) Silent) (fillBuffer e) := by
  have hw := spares_walks e
  refine readReq_rel fun r => ?_
  dsimp only
  split
  · exact hw.pure _
  · refine .ite (hw.pure _) (hw.bind (mark_silent _) fun _ => ?_)
    refine hw.bind (fun _ => .still rfl (·.congr rfl rfl)) fun b => ?_
    split
    · refine hw.bind (modReq_silent fun _ => rfl) fun _ => ?_
      exact hw.returning (sendRError_rel hw) _
    · refine hw.bind (modReq_silent fun _ => rfl) fun _ => ?_
      split
      · exact completeResponse_spares e
      · exact hw.pure _

theorem selectFilter_spares : Rel (Under (Spares e) Silent) (selectFilter e) := by
  have hf := silent_fills (Spares.splits e)
  refine hf.bind (modReq_silent fun r => ?_) fun _ => readReq_rel fun r => ?_
  · split <;> rfl
  split
  · rename_i f _
    cases f with
    | deflate => exact hf.bind hf.alloc fun _ => modReq_silent fun _ => rfl
    | gzip => exact Rel.read fun c => modReq_silent fun _ => rfl
  · exact hf.pure _

theorem spares_serves : Serves e (Under (Spares e) Silent) where
  toLaunches := spares_launches e
  gzip := mimeGetGzip_spares e
  filter := selectFilter_spares e
  decline := enter_spares e (by decide) fun _ _ h => h
  initGet := mark_silent _
  dirmaker := mark_silent _
  mapped := serveFile_spares e
  complete := completeResponse_spares e
  fill := fillBuffer_spares e

theorem openPost_spares : Rel (Under (Spares e) Silent) (openPost e) := by
  have hw := spares_walks e
  refine Rel.read fun c => ?_
  dsimp only
  split
  · exact hw.returning (sendRError_rel hw) _
  · refine hw.bind (fun _ => .still rfl (·.congr rfl rfl)) fun _ => ?_
    split
    · exact hw.pure _
    · refine hw.bind (crotalusPerror_rel hw) fun _ => ?_
      exact hw.bind (modReq_silent fun _ => rfl) fun _ => hw.pure _

theorem spares_heads : Heads e (Under (Spares e) Silent) where
  toServes := spares_serves e
  script _ _ := .still rfl (·.congr rfl rfl)
  line h := modReq_silent fun r => Request.status_unread (h r)
  headerEnd := mark_silent _
  post := openPost_spares e

theorem fate_locates : Locates fun c c' : Conn => c'.fate = c.fate where
  refl _ := rfl
  trans h h' := h'.trans h
  set h c := congrArg (fun st => (st, c.died)) (Request.status_bare (h c.req))
  alloc _ := rfl
  script _ _ := rfl
  line h c := congrArg (fun st => (st, c.died)) (Request.status_unread (h c.req))

/-- The body of a living request. -/
theorem startBody_silent (ret : Int) {c : Conn} (h : c.died = none) :
    Silent (exec (startBody e ret) c) := by
  have hbad : ∀ {d : Conn}, Silent d → Silent (exec (sendRBadRequest e) d) := fun hd =>
    (sendRBadRequest_rel (silent_walks e Splits.all) _).keeps trivial hd
  simp only [startBody, exec_bind, exec_modify, exec_modReq, exec_setStatus, value_getReq,
    exec_getReq]
  split
  · exact hbad (.inl h)
  · exact .inl h

/-- A POST whose body is to be read has had no answer. -/
theorem endHeader_fate {c : Conn} (hret : value (endHeader e) c ≠ 0)
    (hpost : (exec (endHeader e) c).req.method = .post) :
    (exec (endHeader e) c).died = c.died := by
  let c1 := exec (mark .headerEnd) c
  obtain ⟨host, hw⟩ := processHeaderEnd_works e c1 Responding.all
  have hmethod : (exec (endHeader e) c).req.method = c.req.method := congrArg Prod.fst hw.req
  rw [hmethod] at hpost
  obtain ⟨host', hp⟩ := prepareRequest_works (T := fun _ => True) (S := fun _ => True) e trivial c1
  have hsame : (exec (prepareRequest e) c1).req.method = .post := (congrArg Prod.fst hp.req).trans hpost
  have hrun : value (endHeader e) c = value (processHeaderEnd e) c1 ∧
      exec (endHeader e) c = exec (processHeaderEnd e) c1 := ⟨rfl, rfl⟩
  rw [hrun.1] at hret
  rw [hrun.2]
  simp only [processHeaderEnd, value_bind, exec_bind] at hret ⊢
  by_cases hprep : value (prepareRequest e) c1 = true
  · have hfate : (exec (prepareRequest e) c1).died = c.died :=
      congrArg Prod.snd (prepareRequest_succeeds fate_locates c1 hprep)
    rw [if_pos hprep] at hret ⊢
    simp only [dispatchRequest, value_bind, exec_bind, value_getReq, exec_getReq, if_pos hsame]
      at hret ⊢
    rcases openPost_cases (T := fun _ => True) (S := fun _ => True) e trivial
      (exec (prepareRequest e) c1) with ⟨fd, -, -, he⟩ | ⟨hv, -⟩
    · rw [he]
      exact hfate
    · exact absurd hv hret
  · rw [if_neg hprep] at hret
    exact absurd rfl hret

theorem headerDone_spares {c : Conn} (hs : c.req.status = .bodyRead) :
    Under (Spares e) Silent c (exec (headerDone e) c) := by
  by_cases hbody : value (endHeader e) c ≠ 0 ∧ (exec (endHeader e) c).req.method = .post
  · obtain ⟨host, hd⟩ := headerDone_works e Responding.all (T := fun _ => True) trivial c
    have hpass : Passed (fun _ => True) (exec (mark .headerEnd) c) (exec (headerDone e) c) :=
      hd.passed
    refine .passing ((mark_passed .headerEnd c).trans hpass) fun hi => ?_
    have hnone : c.died = none := hi.alive (by rw [hs]; decide)
    simp only [headerDone, exec_bind, value_getReq, exec_getReq, if_pos hbody]
    exact startBody_silent e _ ((endHeader_fate e hbody.1 hbody.2).trans hnone)
  · simp only [headerDone, exec_bind, value_getReq, exec_getReq, if_neg hbody]
    exact endHeader_rel (spares_heads e) c

theorem automaton_spares (uc : Byte) : Rel (Under (Spares e) Silent) (do
    setStatus (headerStatus (← getReq).status uc)) := by
  intro c
  refine .still rfl fun hi => ?_
  by_cases hd : headerStatus c.req.status uc = .dead
  · simp only [exec_bind, value_getReq, exec_getReq, hd]
    exact hi.dies
  · refine Silent.entered (hi.alive fun hdead => hd ?_) hd
    rw [hdead]
    rfl

theorem spares_parses : Parses e (Under (Spares e) Silent) where
  toHeads := spares_heads e
  logline := mark_silent _
  optionLine := mark_silent _
  automaton := automaton_spares e
  die := dead_silent
  recv k c := by
    rw [exec_sockRead]
    exact .still rfl (·.congr rfl rfl)
  ended _ hs := headerDone_spares e hs

end Walk

end Crotalus
