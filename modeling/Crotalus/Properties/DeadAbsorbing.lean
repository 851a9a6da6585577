import Crotalus.Framework.Run
import Crotalus.Spec.Silent
import Crotalus.Spec.Turn

namespace Crotalus

open Stateful

/-! DEAD is not left, and nothing is sent in it, over whole runs. -/

def Alive (c : Conn) : Prop := c.died=none

theorem Alive.silent {c : Conn} (h : Alive c) : Silent c := .inl h

/-- From `c` on, a request that lives says nothing more when it has died on the way. -/
structure Ends (e : Config) (c c' : Conn) : Prop where
  passed : Passed (fun _ => True) c c'
  silent (hok : Spares e (c.visits c')) (h : Alive c) : Silent c'

section Rules

variable {e : Config} {c c' c'' : Conn} {α β : Type}

theorem Ends.of_silent (h : Under (Spares e) Silent c c') : Ends e c c' :=
  ⟨h.passed,fun hok ha => h.keeps hok ha.silent⟩

theorem Ends.after (h : Under (Spares e) Alive c c') (h' : Ends e c' c'') : Ends e c c'' := by
  refine ⟨h.passed.trans h'.passed,fun hok ha => ?_⟩
  rw [visits_trans h.passed h'.passed] at hok
  exact h'.silent ((Spares.splits e).right hok) (h.keeps ((Spares.splits e).left hok) ha)

theorem Ends.rest {m : Srv α} (h : Rel (Under (Spares e) Silent) m) : Rel (Ends e) m :=
  fun c => .of_silent (h c)

theorem Ends.stop (a : α) : Rel (Ends e) (Pure.pure a : Srv α) :=
  fun c => .of_silent (.refl c)

theorem Ends.bind {m : Srv β} {f : β → Srv α} (hm : Rel (Under (Spares e) Alive) m)
    (hf : ∀ b,Rel (Ends e) (f b)) : Rel (Ends e) (m >>= f) :=
  fun c => .after (hm c) (hf _ _)

/-- A handler that ends with DEAD. -/
theorem Ends.dying (a : α) : Rel (Ends e) (setStatus .dead >>= fun _ => Pure.pure a) :=
  .rest ((silent_fills (Spares.splits e)).returning dead_silent a)

end Rules

/-! What a handler does to a request that lives, before anything of it can die. -/

section Alive

variable (e : Config)

theorem alive_modReq (f : Request → Request) : Rel (Under (Spares e) Alive) (modReq f) :=
  fun _ => .still rfl id

theorem alive_status {st : Status} (h : st≠.dead) :
    Rel (Under (Spares e) Alive) (setStatus st) := by
  refine fun c => .still rfl fun ha => ?_
  rw [exec_setStatus,if_neg h]
  exact ha

theorem alive_mark (site : Site) : Rel (Under (Spares e) Alive) (mark site) :=
  fun _ => .visiting rfl fun _ => id

theorem alive_fills : Fills (Under (Spares e) Alive) where
  refl := .refl
  trans := .trans (Spares.splits e)
  set _ := alive_modReq e _
  alloc _ := .still rfl id

theorem alive_sockWrite (bs : List Byte) : Rel (Under (Spares e) Alive) (sockWrite bs) := by
  intro c
  have hw := sockWrite_wrote bs c
  generalize value (sockWrite bs) c = v at hw
  generalize exec (sockWrite bs) c = c' at hw ⊢
  cases hw with
  | took n w d => exact .still rfl id
  | failed err w d => exact .still rfl id

theorem alive_writePending : Rel (Under (Spares e) Alive) writePending :=
  readReq_rel fun _ => .ite ((alive_fills e).pure _) (alive_sockWrite e _)

theorem alive_sockRead (k : Nat) : Rel (Under (Spares e) Alive) (sockRead k) := by
  intro c
  rw [exec_sockRead]
  exact .still rfl id

theorem alive_pipeRead (k : Nat) : Rel (Under (Spares e) Alive) (pipeRead k) := by
  intro c
  rw [exec_pipeRead]
  exact .still rfl id

theorem alive_fileRead (off k : Nat) : Rel (Under (Spares e) Alive) (fileRead off k) := by
  intro c
  have hread := fileRead_readFile off k c
  generalize value (fileRead off k) c = v at hread
  generalize exec (fileRead off k) c = c' at hread ⊢
  cases hread with
  | got n w d => exact .still rfl id
  | failed err w d => exact .still rfl id

theorem alive_postWrite (bs : List Byte) : Rel (Under (Spares e) Alive) (postWrite bs) := by
  intro c
  have hp := postWrite_posted bs c
  generalize value (postWrite bs) c = v at hp
  generalize exec (postWrite bs) c = c' at hp ⊢
  cases hp with
  | took n w => exact .still rfl id
  | failed err w d => exact .still rfl id

theorem alive_cgiWorkResps (rs : List (Int × List Byte)) :
    Rel (Under (Spares e) Alive) (cgiWorkResps rs) := by
  have hf := alive_fills e
  induction rs with
  | nil => exact hf.pure _
  | cons r rs ih =>
    obtain ⟨err,data⟩ := r
    refine hf.bind ?_ fun _ => ih
    unfold cgiWorkResp
    split
    · exact hf.pure _
    · refine hf.bind (alive_mark e _) fun _ => hf.bind (alive_modReq e _) fun _ => ?_
      exact hf.bind (alive_status e (by decide)) fun _ => alive_modReq e _

end Alive

/-! The handlers behind the header. -/

section Handlers

variable (e : Config)

theorem Ends.moving {α : Type} {f : Request → Request} {m : Srv α} (hm : Rel (Ends e) m) :
    Rel (Ends e) (modReq f >>= fun _ => m) := .bind (alive_modReq e f) fun _ => hm

theorem Ends.entering {α : Type} {st : Status} {m : Srv α} (hst : st≠.dead)
    (hm : Rel (Ends e) m) : Rel (Ends e) (setStatus st >>= fun _ => m) :=
  .bind (alive_status e hst) fun _ => hm

theorem Ends.answering {α : Type} {m : Srv Unit} (hm : Rel (Under (Spares e) Silent) m) (a : α) :
    Rel (Ends e) (m >>= fun _ => Pure.pure a) :=
  .rest ((silent_fills (Spares.splits e)).returning hm a)

theorem readBody_ends : Rel (Ends e) (readBody e) := by
  have hw := spares_walks e
  refine readReq_rel fun r => ?_
  dsimp only
  split
  · exact .entering e (by decide) (.stop _)
  · refine .bind (alive_sockRead e _) fun res => ?_
    split
    · exact .stop _
    · exact .rest (hw.bind (crotalusPerror_rel hw) fun _ => hw.setting (fun _ => rfl) (hw.pure _))
    · split
      · exact .answering e (sendRBadRequest_rel hw) _
      · exact .entering e (by decide) (.moving e (.stop _))

theorem writeBody_ends : Rel (Ends e) (writeBody e) := by
  have hl := spares_launches e
  refine readReq_rel fun r => ?_
  dsimp only
  split
  · refine .moving e ?_
    split
    · exact Rel.read fun c => .bind (alive_mark e _) fun _ => .rest (initCgi_rel hl)
    · exact .entering e (by decide) (.stop _)
  · refine .bind (alive_postWrite e _) fun res => ?_
    split
    · exact .stop _
    · exact .stop _
    · exact .answering e (crotalusPerror_rel hl.toWalks) _
    · exact .moving e (.stop _)

theorem processGet_ends : Rel (Ends e) (processGet e) := by
  have hbus : Rel (Under (Spares e) Alive) sigbus := fun _ => .still rfl id
  refine readReq_rel fun r => ?_
  split
  · exact .rest (completeResponse_spares e)
  · refine .bind (alive_mark e _) fun _ => .bind hbus fun b => ?_
    split
    · exact .dying _
    · refine .bind (alive_sockWrite e _) fun res => ?_
      split
      · exact .stop _
      · exact .dying _
      · refine .moving e <| readReq_rel fun r' => ?_
        split
        · exact .rest (completeResponse_spares e)
        · exact .stop _

theorem ioShuffleSendfile_ends : Rel (Ends e) (ioShuffleSendfile e) := by
  refine Rel.read fun c => ?_
  dsimp only
  split
  · exact .rest (completeResponse_spares e)
  split
  · split
    · exact .rest (completeResponse_spares e)
    · exact .stop _
  split
  · exact .dying _
  · refine .bind (alive_mark e _) fun _ => ?_
    refine .bind ((alive_fills e).retry (alive_sockWrite e _) _) fun res => ?_
    split
    · exact .stop _
    · exact .dying _
    · split
      · exact .bind (alive_mark e _) fun _ => .stop _
      · refine .moving e <| readReq_rel fun r' => ?_
        split
        · exact .rest (completeResponse_spares e)
        · exact .stop _

theorem ioShuffleWrite_ends : Rel (Ends e) ioShuffleWrite := by
  refine Rel.read fun c => ?_
  dsimp only
  split
  · split
    · exact .stop _
    · exact .moving e (.stop _)
  · refine .bind ((alive_fills e).retry (alive_writePending e) _) fun res => ?_
    split
    · exact .stop _
    · exact .dying _
    · exact .moving e (.stop _)

theorem ioShuffle_ends : Rel (Ends e) (ioShuffle e) := by
  have hseek : Rel (Under (Spares e) Alive) seekOk := fun _ => .still rfl id
  have hwrite := ioShuffleWrite_ends e
  refine Rel.read fun c => ?_
  dsimp only
  split
  · exact .rest (completeResponse_spares e)
  split
  · refine .bind hseek fun b => ?_
    split
    · refine .bind (alive_mark e _) fun _ => ?_
      refine .bind ((alive_fills e).retry (alive_fileRead e _ _) _) fun res => ?_
      split
      · split
        · exact .stop _
        · exact hwrite
      · exact .dying _
      · exact .moving e hwrite
      · refine .moving e <| readReq_rel fun r' => ?_
        split
        · exact .rest (completeResponse_spares e)
        · exact hwrite
    · exact .dying _
  · exact hwrite

theorem writeFrom_ends {st : Status} (hst : st≠.dead) : Rel (Ends e) (writeFrom st) := by
  refine readReq_rel fun r => ?_
  dsimp only
  split
  · split
    · exact .stop _
    · exact .entering e hst (.moving e (.stop _))
  · refine .bind (alive_sockWrite e _) fun res => ?_
    split
    · exact .stop _
    · exact .stop _
    · exact .dying _
    · refine .moving e ?_
      split
      · exact .entering e hst (.moving e (.stop _))
      · exact .stop _

theorem alive_pollCollect : Rel (Under (Spares e) Alive) pollCollect := by
  refine readReq_rel fun r => (alive_fills e).returning ?_ _
  unfold onlyIf
  split
  · exact alive_status e (by decide)
  · exact (alive_fills e).pure _

theorem pollFromShbuff_ends : Rel (Ends e) (pollFromShbuff e) := by
  intro c
  unfold pollFromShbuff
  split
  · simp only [exec_bind,value_get,exec_get,exec_ite]
    split
    · have hset : Under (Spares e) Alive c { c with sys := { c.sys with results := [] } } :=
        .still rfl id
      refine .after hset <| .after (alive_cgiWorkResps e c.sys.results _) ?_
      have hcollect := alive_pollCollect e (exec (cgiWorkResps c.sys.results)
        { c with sys := { c.sys with results := [] } })
      exact ⟨hcollect.passed,fun hok ha => (hcollect.keeps hok ha).silent⟩
    · exact .of_silent (.refl c)
  · exact .of_silent (.refl c)

theorem locationReply_silent (url : Nat) :
    Rel (Under (fun _ => True) Silent) (locationReply e url) := by
  have hw := silent_walks e Splits.all
  refine readReq_rel fun r => .ite (sendRBadRequest_rel hw) <| readReq_rel fun r' => ?_
  refine hw.bind (modReq_silent fun _ => rfl) fun _ => readReq_rel fun r'' => ?_
  exact .ite (sendRMovedTemp_rel hw _ _ _) (sendRMovedTemp_rel hw _ _ _)

/-- The reply to a redirect leaves its request alive, which is then DONE. -/
theorem cgiLocation_ends : Rel (Ends e) (cgiLocation e) := by
  intro c
  let v : Visit := ⟨.locationDone,c.req,c.sys⟩
  let c1 := exec (mark .locationDone) c
  let c2 := exec (locationReply e (c.req.headerLine+10)) c1
  have hreply : Under (fun _ => True) Silent c1 c2 := locationReply_silent e _ c1
  have hmark : Passed (fun _ => True) c c1 := mark_passed _ c
  have hend : Passed (fun _ => True) c1 (exec (setStatus .done) c2) :=
    hreply.passed.trans (.same rfl)
  refine ⟨hmark.trans hend,fun hok ha => ?_⟩
  have hmem : v∈c.visits (exec (cgiLocation e) c) :=
    mem_visits_before hend (by rw [visits_of_append (l := [v]) rfl]; exact List.mem_singleton_self v)
  have hlive : c2.req.status≠.dead := hok v hmem c1 rfl rfl
  have halive : c2.died=none := (hreply.keeps trivial ha.silent).alive hlive
  exact Silent.entered halive (by decide)

theorem cgiMerge_silent (lf : Nat) : Rel (Under (Spares e) Silent) (cgiMerge e lf) := by
  have hw := spares_walks e
  have hhead : Rel (Under (Spares e) Silent) (modReq fun r =>
      if r.method=.head then
        { r with headerEnd := if r.buffer (lf+1)=13 then lf+2 else lf+1, cgiStatus := .done }
      else r) := by
    refine modReq_silent fun r => ?_
    split <;> rfl
  refine hw.bind (sendRRequestOk_rel hw) fun _ => hw.bind hhead fun _ => readReq_rel fun r => ?_
  dsimp only
  split
  · exact hw.bind (modReq_silent fun _ => rfl) fun _ => hw.returning (sendRError_rel hw) _
  · refine hw.bind (modReq_silent fun _ => rfl) fun _ => hw.bind hw.flush fun _ => ?_
    exact .ite (hw.pure _) (hw.pure _)

theorem processCgiHeader_ends : Rel (Ends e) (processCgiHeader e) := by
  have hw := spares_walks e
  refine .moving e <| readReq_rel fun r => ?_
  dsimp only
  split
  · exact .answering e (sendRBadGateway_rel hw) _
  split
  · exact .moving e (.stop _)
  split
  · exact .moving e <| .moving e (.stop _)
  split
  · exact cgiLocation_ends e
  · exact .rest (cgiMerge_silent e _)

theorem readFull_ends {st : Status} (hst : st≠.dead) : Rel (Ends e) (readFull e st) := by
  refine readReq_rel fun r => ?_
  split
  · exact .moving e <| .moving e (processCgiHeader_ends e)
  · exact .entering e hst (.stop _)

theorem readDone_ends {st st' : Status} (hst : st≠.dead) (hst' : st'≠.dead) (bs : List Byte) :
    Rel (Ends e) (readDone e st st' bs) := by
  refine readReq_rel fun r => .moving e ?_
  split
  · refine .entering e hst <| .moving e ?_
    split
    · exact processCgiHeader_ends e
    · exact .stop _
  · refine .moving e ?_
    split
    · exact writeFrom_ends e hst'
    · refine readReq_rel fun r' => ?_
      split
      · exact .stop _
      · exact .moving e (processCgiHeader_ends e)

theorem readFromPipe_ends : Rel (Ends e) (readFromPipe e) := by
  refine readReq_rel fun r => ?_
  split
  · exact readFull_ends e (by decide)
  · refine .bind (alive_pipeRead e _) fun res => ?_
    split
    · exact .stop _
    · exact .stop _
    · exact .dying _
    · exact readDone_ends e (by decide) (by decide) _

theorem readFromShbuff_ends : Rel (Ends e) (readFromShbuff e) := by
  unfold readFromShbuff
  split
  · refine readReq_rel fun r => ?_
    split
    · exact .stop _
    · split
      · exact readFull_ends e (by decide)
      · exact .moving e (readDone_ends e (by decide) (by decide) _)
  · exact .stop _

theorem processDone_silent : Rel (Under (Spares e) Silent) (processDone e) := by
  have hw := spares_walks e
  refine hw.bind hw.flush fun i => .ite ?_ (.ite (hw.pure _) (hw.pure _))
  exact hw.returning dead_silent _

theorem processOver_silent : Rel (Under (Spares e) Silent) processOver := by
  have hf := silent_fills (Spares.splits e)
  exact hf.bind (modReq_silent fun _ => rfl) fun _ => hf.returning (squashKa_rel hf) _

/-- The handlers that find a living request. -/
theorem processStatus_ends {c : Conn} (hr : c.req.status.reading=false)
    (hover : c.req.status.over=false) (hdone : c.req.status≠.done) :
    Ends e c (exec (processStatus e) c) := by
  simp only [processStatus,exec_bind,exec_getReq,value_getReq]
  cases hs : c.req.status with
  | readHeader|oneCr|oneLf|twoCr =>
    rw [hs] at hr
    cases hr
  | bodyRead => exact readBody_ends e c
  | bodyWrite => exact writeBody_ends e c
  | write => exact processGet_ends e c
  | ioshuffle =>
    dsimp only
    split
    · exact ioShuffleSendfile_ends e c
    · exact ioShuffle_ends e c
  | buffPoll => exact pollFromShbuff_ends e c
  | buffRead => exact readFromShbuff_ends e c
  | buffWrite =>
    simp only [writeFromShbuff]
    split
    · exact writeFrom_ends e (by decide) c
    · exact .of_silent (.refl c)
  | pipeRead => exact readFromPipe_ends e c
  | pipeWrite => exact writeFrom_ends e (by decide) c
  | done => exact absurd hs hdone
  | timedOut|dead =>
    rw [hs] at hover
    cases hover

theorem processStatus_silent : Rel (Under (Spares e) Silent) (processStatus e) := by
  intro c
  by_cases hr : c.req.status.reading=true
  · rw [(processStatus_reading e hr).2]
    exact readHeader_rel (spares_parses e) c
  by_cases hdone : c.req.status=.done
  · simp only [processStatus,exec_bind,exec_getReq,value_getReq,hdone]
    exact processDone_silent e c
  by_cases hover : c.req.status.over=true
  · have hrun : exec (processStatus e) c=exec processOver c := by
      simp only [processStatus,exec_bind,exec_getReq,value_getReq]
      cases hs : c.req.status with
      | timedOut|dead => rfl
      | _ =>
        rw [hs] at hover
        cases hover
    rw [hrun]
    exact processOver_silent e c
  have hover : c.req.status.over=false := Bool.eq_false_iff.mpr hover
  have hends := processStatus_ends e (Bool.eq_false_iff.mpr hr) hover hdone
  exact ⟨hends.passed,fun hok hi => hends.silent hok (hi.living hover)⟩

end Handlers

/-! The rest of a turn. -/

section Turn

variable (e : Config)

theorem topFlush_silent : Rel (Under (Spares e) Silent) (topFlush e) := by
  have hw := spares_walks e
  refine readReq_rel fun r => .ite (hw.bind hw.flush fun i => ?_) (hw.pure _)
  exact .ite (hw.returning dead_silent _) (.ite (hw.pure _) (hw.pure _))

/-- Only a living request is DONE at its end. -/
theorem freeFlush_silent : Rel (Under (Spares e) Silent) (freeFlush e) := by
  have hw := spares_walks e
  intro c
  simp only [freeFlush,exec_bind,value_getReq,exec_getReq,exec_ite]
  split
  · rename_i hb
    have hdone : Under (Spares e) Silent c (exec (setStatus .done) c) := by
      refine .still rfl fun hi => Silent.entered (hi.living ?_) (by decide)
      simpa using hb.2
    have hflush := hw.flush (exec (setStatus .done) c)
    refine (hdone.trans (Spares.splits e) hflush).trans (Spares.splits e) ?_
    split
    · exact dead_silent _
    · exact .refl _
  · exact .refl c

/-- A dead request has no stream to end. -/
theorem mimeFilterFlush_streamless {f : FilterKind} {c : Conn} (hf : c.req.filter=some f)
    (h : c.req.streamless e=true) : exec (mimeFilterFlush e f) c=c := by
  simp only [Request.streamless,hf] at h
  cases f with
  | deflate => simp only [mimeFilterFlush,exec_bind,value_getReq,exec_getReq,
      Option.isNone_iff_eq_none.mp h,exec_pure]
  | gzip => simp only [mimeFilterFlush,exec_bind,value_getReq,exec_getReq,
      Option.isNone_iff_eq_none.mp h,exec_pure]

theorem finishFilter_silent : Rel (Under (Spares e) Silent) (finishFilter e) := by
  intro c
  simp only [finishFilter,exec_bind,value_getReq,exec_getReq]
  cases hf : c.req.filter with
  | none => exact .refl c
  | some f =>
    let c1 := exec (mark .filterFlush) c
    have hidle := mimeFilterFlush_idles e f c1
    refine .visiting (v := ⟨.filterFlush,c.req,c.sys⟩) hidle.trace fun hok hi => ?_
    have h1 : Silent c1 := hi.congr rfl rfl
    rcases h1 with hnone|⟨hdead,hdied⟩
    · have hfate := mimeFilterFlush_rel fate_streams e f c1
      exact .inl ((congrArg Prod.snd hfate).trans hnone)
    · have hless : c.req.streamless e=true := hok _ (List.mem_singleton.mpr rfl) hdead
      have hsame : exec (mimeFilterFlush e f) c1=c1 := mimeFilterFlush_streamless e hf hless
      change Silent (exec (mimeFilterFlush e f) c1)
      rw [hsame]
      exact .inr ⟨hdead,hdied⟩

theorem fdSet_silent (fd : Nat) (d : Dir) : Rel (Under (Spares e) Silent) (fdSet fd d) := by
  intro c
  cases d with
  | read => exact .still rfl (·.congr rfl rfl)
  | write => exact .still rfl (·.congr rfl rfl)

theorem fdClr_silent (fd : Nat) (d : Dir) : Rel (Under (Spares e) Silent) (fdClr fd d) := by
  intro c
  cases d with
  | read => exact .still rfl (·.congr rfl rfl)
  | write => exact .still rfl (·.congr rfl rfl)

theorem setPlace_silent (p : Place) : Rel (Under (Spares e) Silent) (setPlace p) :=
  fun _ => .still rfl (·.congr rfl rfl)

theorem onlyIf_silent (b : Bool) {m : Srv Unit} (hm : Rel (Under (Spares e) Silent) m) :
    Rel (Under (Spares e) Silent) (onlyIf b m) := by
  cases b
  · exact (silent_fills (Spares.splits e)).pure _
  · exact hm

theorem recycle_silent : Rel (Under (Spares e) Silent) recycle := by
  have hf := silent_fills (Spares.splits e)
  have hnew : Rel (Under (Spares e) Silent) (modify fun c : Conn => { c with
      req := { c.req.sanitize with kacount := c.req.kacount-1 }
      place := .block
      died := none }) := fun _ => .still rfl fun _ => .inl rfl
  refine hf.bind (mark_silent _) fun _ => hf.bind hnew fun _ => readReq_rel fun r => ?_
  exact hf.bind (fdSet_silent e _ _) fun _ => fdClr_silent e _ _

theorem closeConn_silent : Rel (Under (Spares e) Silent) closeConn := by
  have hf := silent_fills (Spares.splits e)
  have hread : Rel (Under (Spares e) Silent) (do let _ ← sockRead 32768) := by
    intro c
    simp only [exec_bind,exec_pure,exec_sockRead]
    exact .still rfl (·.congr rfl rfl)
  refine readReq_rel fun r => hf.bind (onlyIf_silent e _ hread) fun _ => ?_
  refine hf.bind (fdClr_silent e _ _) fun _ => hf.bind (fdClr_silent e _ _) fun _ => ?_
  exact setPlace_silent e _

theorem release_silent : Rel (Under (Spares e) Silent) release := by
  have hf := silent_fills (Spares.splits e)
  have hlog : Rel (Under (Spares e) Silent) (modReq fun r => { r.timedOut with ranges := [] }) := by
    refine modReq_silent fun r => ?_
    unfold Request.timedOut
    split <;> rfl
  refine hf.bind hlog fun _ => readReq_rel fun r => ?_
  refine hf.bind (onlyIf_silent e _ (fdClr_silent e _ _)) fun _ => ?_
  refine hf.bind (onlyIf_silent e _ (fdClr_silent e _ _)) fun _ => ?_
  exact .ite (recycle_silent e) (closeConn_silent e)

theorem freeRequest_silent : Rel (Under (Spares e) Silent) (freeRequest e) := by
  have hf := silent_fills (Spares.splits e)
  refine hf.bind (freeFlush_silent e) fun b => .ite (hf.pure _) ?_
  exact hf.bind (finishFilter_silent e) fun _ => release_silent e

theorem settle_silent (ret : Int) : Rel (Under (Spares e) Silent) (settle e ret) := by
  have hf := silent_fills (Spares.splits e)
  have htouch : Rel (Under (Spares e) Silent) touch := fun _ => .still rfl (·.congr rfl rfl)
  refine Rel.read fun c => hf.bind (onlyIf_silent e _ (squashKa_rel hf)) fun _ => ?_
  refine .ite ?_ <| .ite ?_ <| .ite htouch dead_silent
  · exact hf.bind (setPlace_silent e _) fun _ => readReq_rel fun r => fdSet_silent e _ _
  · exact hf.bind htouch fun _ => freeRequest_silent e

theorem processRequest_silent : Rel (Under (Spares e) Silent) (processRequest e) := by
  have hf := silent_fills (Spares.splits e)
  have hforget : Rel (Under (Spares e) Silent) forgetWait := fun _ => .still rfl (·.congr rfl rfl)
  refine hf.bind (topFlush_silent e) fun ret => .ite ?_ (settle_silent e _)
  exact hf.bind hforget fun _ => hf.bind (processStatus_silent e) fun ret' => settle_silent e _

/-! Between the turns. -/

theorem readyRequest_silent : Rel (Under (Spares e) Silent) (readyRequest e) := by
  have hf := silent_fills (Spares.splits e)
  exact hf.bind (setPlace_silent e _) fun _ => readReq_rel fun r => fdClr_silent e _ _

theorem awaitFd_silent (fd : Nat) (d : Dir) : Rel (Under (Spares e) Silent) (awaitFd e fd d) :=
  Rel.read fun _ => .ite (readyRequest_silent e) (fdSet_silent e _ _)

theorem updateBlocked_silent : Rel (Under (Spares e) Silent) (updateBlocked e) := by
  have hf := silent_fills (Spares.splits e)
  have hready := readyRequest_silent e
  have hawait := awaitFd_silent e
  refine readReq_rel fun r => .ite (hawait _ _) ?_
  cases r.status with
  | ioshuffle => exact .ite (Rel.read fun _ => .ite hready (hf.pure _)) (hawait _ _)
  | timedOut|dead => exact hready
  | _ => exact hawait _ _

/-- A living request runs out of time. -/
theorem selectPass_silent (readyR readyW : Nat → Bool) :
    Rel (Under (Spares e) Silent) (do
      selectFds readyR readyW
      fdsetUpdate e) := by
  have hf := silent_fills (Spares.splits e)
  have hsel : Rel (Under (Spares e) Silent) (selectFds readyR readyW) :=
    fun _ => .still rfl (·.congr rfl rfl)
  have htime : Rel (Under (Spares e) Silent) (mark .timeout >>= fun _ => setStatus .timedOut) :=
    enter_spares e (by decide) fun _ _ h => h
  refine hf.bind hsel fun _ => Rel.read fun c => ?_
  exact hf.bind (onlyIf_silent e _ htime) fun _ => updateBlocked_silent e

theorem cgiWorkResps_silent (rs : List (Int × List Byte)) :
    Rel (Under (Spares e) Silent) (cgiWorkResps rs) := by
  have hf := silent_fills (Spares.splits e)
  induction rs with
  | nil => exact hf.pure _
  | cons r rs ih =>
    obtain ⟨err,data⟩ := r
    refine hf.bind (fun c => ?_) fun _ => ih
    unfold cgiWorkResp
    split
    · exact .refl c
    · refine .visiting (v := ⟨.workResp,c.req,c.sys⟩) rfl fun hok hi => ?_
      exact .inl (hi.alive (hok _ (List.mem_singleton.mpr rfl)))

/-- What workers send does not change what has been sent, nor when the request died. -/
theorem cgiWorkResps_said (rs : List (Int × List Byte)) :
    Keeps (fun c : Conn => (c.place,c.died,c.wire)) (cgiWorkResps rs) := by
  induction rs with
  | nil => exact .pure _
  | cons r rs ih =>
    obtain ⟨err,data⟩ := r
    refine .bind (fun c => ?_) fun _ => ih
    unfold cgiWorkResp
    split
    · rfl
    · rfl

end Turn

/-! Runs. -/

/-- The points that a step of an open connection passes spare a dead request. -/
def Ev.spares (e : Config) (c : Conn) (ev : Ev) : Prop :=
  c.place=.free ∨ Spares e (c.visits (step e c ev))

/-- A closed connection may be given a new status, but says nothing more. -/
structure Hushed (c : Conn) : Prop where
  wire (w : List Byte) (h : c.died=some w) : c.wire=w
  silent (h : c.place≠.free) : Silent c

theorem Silent.hushed {c : Conn} (h : Silent c) : Hushed c := by
  refine ⟨fun w hw => ?_,fun _ => h⟩
  rcases h with h|⟨-,h⟩
  · rw [h] at hw
    cases hw
  · rw [h] at hw
    exact Option.some.inj hw

theorem step_hushed (e : Config) {c : Conn} (ev : Ev) (h : Hushed c) (hok : ev.spares e c) :
    Hushed (step e c ev) := by
  by_cases hp : c.place=.free
  · cases ev with
    | process w =>
      rw [step,hp,if_neg (by decide)]
      exact h
    | select w readyR readyW =>
      rw [step,hp,if_neg (by decide)]
      exact h
    | results rs =>
      have hsaid := cgiWorkResps_said rs c
      simp only [Prod.mk.injEq] at hsaid
      obtain ⟨hplace,hdied,hwire⟩ := hsaid
      refine ⟨fun w hw => ?_,fun hne => absurd (hplace.trans hp) hne⟩
      rw [step,hwire]
      rw [step,hdied] at hw
      exact h.wire w hw
  have hi := h.silent hp
  have hok := hok.resolve_left hp
  apply Silent.hushed
  cases ev with
  | process w =>
    simp only [step] at hok ⊢
    split
    · rename_i hr
      rw [if_pos hr] at hok
      have h0 : Silent { c with sys := w, waits := none } := hi.congr rfl rfl
      exact (processRequest_silent e _).keeps hok h0
    · exact hi
  | select w readyR readyW =>
    simp only [step] at hok ⊢
    split
    · rename_i hr
      rw [if_pos hr] at hok
      have h0 : Silent { c with sys := w } := hi.congr rfl rfl
      exact (selectPass_silent e readyR readyW _).keeps hok h0
    · exact hi
  | results rs => exact (cgiWorkResps_silent e rs c).keeps hok hi

/-- In every run whose points spare a dead request, one that has died stays DEAD until its
connection is closed, and nothing is sent on it any more. -/
theorem dead_absorbs (e : Config) (c : Conn) (evs : List Ev) (h : c.died=none)
    (hok : Run.AllSteps (step e) (fun t ev => ev.spares e t) c evs) :
    ∀ t∈Run.states (step e) c evs,∀ w,t.died=some w →
      t.wire=w ∧ (t.place≠.free → t.req.status=.dead) := by
  intro t ht w hw
  have hstart : Hushed c := Silent.hushed (.inl h)
  have hinv := Run.invariant (I := Hushed) (fun s ev hi hv => step_hushed e ev hi hv) hstart hok t ht
  refine ⟨hinv.wire w hw,fun hp => ?_⟩
  rcases hinv.silent hp with hnone|⟨hdead,-⟩
  · rw [hnone] at hw
    cases hw
  · exact hdead

/-! A client that goes away while a page is sent to it. -/

def leavingConfig : Config where
  docroot := some (str "/w")

def leavingConn : Conn := acceptConn {} 0 5 [] [] 0 {}

/-- It takes ten bytes of the page. -/
def leavingRun : List Ev :=
  [.process { recv := [.data (str "GET /x HTTP/1.0\n\n")] },
    .process { sock := [.done 10,.fail .pipe] },.process {}]

/-- Most points spare every request that lives. -/
theorem Visit.spares_living {e : Config} {v : Visit} (h : v.req.status≠.dead)
    (hs : v.site≠.completeResponse ∧ v.site≠.locationDone) : v.spares e := by
  unfold Visit.spares
  cases hv : v.site with
  | completeResponse => exact absurd hv hs.1
  | locationDone => exact absurd hv hs.2
  | handlerDeclined|workResp|timeout => exact h
  | serveFile|startCgi|pushWork|filterFlush => exact fun hd => absurd hd h
  | _ => trivial

theorem dead_absorbs_leaving :
    (∀ t∈Run.states (step leavingConfig) leavingConn leavingRun,∀ w,t.died=some w →
      t.wire=w ∧ (t.place≠.free → t.req.status=.dead)) ∧
      (Run.final (step leavingConfig) leavingConn leavingRun).died.map List.length=some 10 := by
  have hspares : ∀ vs : List Visit,(∀ v∈vs,v.req.status≠.dead ∧ v.site≠.completeResponse ∧
      v.site≠.locationDone) → Spares leavingConfig vs :=
    fun vs h v hv => Visit.spares_living (h v hv).1 (h v hv).2
  refine ⟨dead_absorbs leavingConfig leavingConn leavingRun rfl ⟨.inr ?_,.inr ?_,.inr ?_,trivial⟩,
    by decide +kernel⟩
  · exact hspares _ (by decide +kernel)
  · exact hspares _ (by decide +kernel)
  · exact hspares _ (by decide +kernel)

/-! A client that goes away when a script redirects it. -/

def redirectedConfig : Config where
  aliasHashtable _ := [⟨str "/s",str "/b",.scriptAlias⟩]

def redirectedWorld : World where
  stat _ := some .reg
  accessRX _ := true
  cgiPipe := some 9
  nonblock := true
  fork := true

def redirectedRun : List Ev :=
  [.process { redirectedWorld with recv := [.data (str "GET /s HTTP/1.0\n\n")] },
    .process redirectedWorld,
    .process { redirectedWorld with
      pipe := [.data (str "Location: http://h/\n\n")]
      sock := [.fail .pipe] }]

/-- The write fails and the request is DEAD; behind the reply it is DONE. -/
theorem dead_absorbs_redirect : Accepted redirectedConfig leavingConn ∧ leavingConn.died=none ∧
    ¬∀ t∈Run.states (step redirectedConfig) leavingConn redirectedRun,∀ w,t.died=some w →
      t.wire=w ∧ (t.place≠.free → t.req.status=.dead) := by
  refine ⟨⟨{},0,5,[],[],0,.inl rfl⟩,rfl,fun h => ?_⟩
  have hdead := (h _ (Run.final_mem_states _ _) [] (by decide +kernel)).2 (by decide +kernel)
  exact absurd hdead (by decide +kernel)

end Crotalus
