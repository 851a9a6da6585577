import Crotalus.Framework.Run
import Crotalus.Spec.Indices

namespace Crotalus

open Stateful

/-! The order of the two indices of the output buffer, over whole runs. -/

section Handlers

variable (e : Config) {c : Conn}

theorem ioShuffleWrite_indexed (h : Indexed c) : Indexed (exec ioShuffleWrite c) := by
  simp only [ioShuffleWrite,exec_bind,value_get,exec_get]
  split
  · split
    · exact h
    · exact h.emptied
  · have hw := writePending_wrote c.sys.sock.length c h.order
    simp only [exec_bind]
    generalize value (retryIntr writePending c.sys.sock.length) c = v at hw ⊢
    generalize exec (retryIntr writePending c.sys.sock.length) c = c' at hw ⊢
    cases hw with
    | took n w d =>
      have hlen := List.length_take_le' n c.req.pending
      exact (h.taken hlen).congr rfl
    | failed err w d =>
      have hkept : Indexed { c with sys := w, waits := d } := h.congr rfl
      cases err with
      | again => exact hkept
      | _ => exact hkept.congr rfl

theorem completeResponse_indexed (h : Indexed c) : Indexed (exec (completeResponse e) c) :=
  (completeResponse_under .all e c).keeps trivial h

/-- What `io_shuffle` reads goes into the room behind the pending bytes. -/
theorem ioShuffle_indexed (h : Indexed c) : Indexed (exec (ioShuffle e) c) := by
  simp only [ioShuffle,exec_bind,value_get,exec_get,exec_ite]
  by_cases hm : c.req.method=.head
  · rw [if_pos hm]
    exact completeResponse_indexed e h
  rw [if_neg hm]
  split
  · rename_i hwant
    have hle : c.req.shuffleWant≤(bufferSize : Int)-c.req.bufferEnd-256 := min_le_left _ _
    have hn : c.req.bufferEnd+c.req.shuffleWant.toNat≤bufferSize := by omega
    generalize c.req.shuffleWant.toNat = n at hn
    split
    · let c1 := exec (mark (.fileAccess c.req.range.start n)) (exec seekOk c)
      have h1 : Indexed c1 := h.congr rfl
      generalize c.sys.file.length = tries
      have hread := retryIntr_readFile c.req.range.start n tries c1
      change Indexed (exec _ (exec (retryIntr (fileRead c.req.range.start n) tries) c1))
      generalize value (retryIntr (fileRead c.req.range.start n) tries) c1 = v at hread ⊢
      generalize exec (retryIntr (fileRead c.req.range.start n) tries) c1 = c2 at hread ⊢
      cases hread with
      | failed err w d =>
        have h2 : Indexed { c1 with sys := w, waits := d } := h1.congr rfl
        cases err with
        | again =>
          simp only [exec_ite]
          split
          · exact h2
          · exact ioShuffleWrite_indexed h2
        | intr|connReset|pipe|noEnt|acces|perm|noMem|noSpc|inval|other => exact h2.congr rfl
      | got k w d =>
        have h2 : Indexed { c1 with sys := w, waits := d } := h1.congr rfl
        have hlen : (((c1.req.dataFile.drop c.req.range.start).take n).take k).length≤n := by
          simp only [List.length_take]
          omega
        generalize ((c1.req.dataFile.drop c.req.range.start).take n).take k = bs at hlen
        cases bs with
        | nil =>
          have hclosed : Indexed { c1 with
            sys := w, waits := d, req := { c1.req with dataFd := 0 } } := h2.congr rfl
          exact ioShuffleWrite_indexed hclosed
        | cons b bs =>
          have hroom : c1.req.bufferEnd+(b::bs).length≤bufferSize := Nat.le_trans
            (Nat.add_le_add_left hlen _) hn
          have happ := h2.append hroom
          have hmoved : Indexed { c1 with
            sys := w, waits := d, req := (c1.req.append (b::bs)).moveStart (b::bs).length } :=
            happ.congr rfl
          simp only [exec_bind,exec_modReq,value_getReq,exec_getReq,exec_ite]
          split
          · exact completeResponse_indexed e hmoved
          · exact ioShuffleWrite_indexed hmoved
    · exact h.congr rfl
  · exact ioShuffleWrite_indexed h

theorem cgiWorkResps_indexed (rs : List (Int × List Byte)) (h : Indexed c) :
    Indexed (exec (cgiWorkResps rs) c) := by
  induction rs generalizing c with
  | nil => exact h
  | cons r rs ih =>
    obtain ⟨err,data⟩ := r
    have hone : Indexed (exec (cgiWorkResp err data) c) := by
      by_cases herr : err≠0
      · simp only [cgiWorkResp,if_pos herr,exec_pure]
        exact h
      · simp only [cgiWorkResp,if_neg herr]
        exact h.congr rfl
    exact ih hone

theorem pollFromShbuff_indexed (h : Indexed c) : Indexed (exec (pollFromShbuff e) c) := by
  unfold pollFromShbuff
  split
  · simp only [exec_bind,value_get,exec_get,exec_ite]
    split
    · have hresps : Indexed (exec (cgiWorkResps c.sys.results)
          { c with sys := { c.sys with results := [] } }) := cgiWorkResps_indexed _ (h.congr rfl)
      simp only [exec_bind,exec_set,pollCollect,value_getReq,exec_getReq,exec_onlyIf,exec_pure]
      split
      · exact hresps.congr rfl
      · exact hresps
    · exact h
  · exact h

theorem readFromShbuff_indexed (h : Indexed c) : Indexed (exec (readFromShbuff e) c) := by
  have hr := under_relays Splits.all e
  unfold readFromShbuff
  split
  · simp only [exec_bind,value_getReq,exec_getReq]
    split
    · exact h
    · rename_i bs hbs
      simp only [exec_ite,exec_bind]
      split
      · exact (readFull_rel hr trivial trivial c).keeps trivial h
      · exact (readDone_rel hr trivial trivial trivial trivial _ _).keeps trivial (h.congr rfl)
  · exact h

/-- Only the reading of a header has a condition, and the end of a request past DONE. -/
theorem processStatus_indexed (h : Indexed c)
    (hread : c.req.status.reading=true → KeepsRoom (c.visits (exec (processStatus e) c)))
    (hover : c.req.status.over=true → c.req.bufferStart=0) :
    Indexed (exec (processStatus e) c) := by
  by_cases hr : c.req.status.reading=true
  · have hok := hread hr
    rw [(processStatus_reading e hr).2] at hok ⊢
    exact (readHeader_rel (under_parses e) c).keeps hok h
  have hc := under_carries Splits.all e
  have ht := under_transfers Splits.all e
  simp only [processStatus,exec_bind,exec_getReq,value_getReq]
  cases hs : c.req.status with
  | readHeader|oneCr|oneLf|twoCr =>
    rw [hs] at hr
    exact absurd rfl hr
  | bodyRead => exact (readBody_rel hc sockRead_under trivial c).keeps trivial h
  | bodyWrite =>
    exact (writeBody_rel hc (under_launches Splits.all e) postWrite_under
      (fun _ _ => mark_under _) trivial c).keeps trivial h
  | write => exact (processGet_rel ht trivial c).keeps trivial h
  | ioshuffle =>
    dsimp only
    split
    · exact (ioShuffleSendfile_rel ht trivial (mark_under _) c).keeps trivial h
    · exact ioShuffle_indexed e h
  | buffPoll => exact pollFromShbuff_indexed e h
  | buffRead => exact readFromShbuff_indexed e h
  | buffWrite =>
    simp only [writeFromShbuff]
    split
    · exact (writeFrom_rel hc trivial trivial c).keeps trivial h
    · exact h
  | pipeRead =>
    exact (readFromPipe_rel (under_relays Splits.all e) pipeRead_under trivial trivial trivial
      trivial c).keeps trivial h
  | pipeWrite => exact (writeFrom_rel hc trivial trivial c).keeps trivial h
  | done => exact (processDone_rel hc trivial c).keeps trivial h
  | timedOut|dead =>
    have hstart : c.req.bufferStart=0 := hover (by rw [hs]; rfl)
    exact ⟨Nat.le_of_eq hstart,Nat.zero_le _,h.gzip⟩

/-! The rest of a turn. -/

theorem topFlush_indexed (h : Indexed c) : Indexed (exec (topFlush e) c) := by
  have hflush := reqFlush_indexed e h
  simp only [topFlush,exec_bind,value_getReq,exec_getReq,exec_ite,exec_pure]
  split
  · split
    · exact hflush.congr rfl
    · split <;> exact hflush
  · exact h

/-- A flush behind which the handler runs leaves the status. -/
theorem topFlush_status (hv : value (topFlush e) c=1) :
    (exec (topFlush e) c).req.status=c.req.status := by
  simp only [topFlush,exec_bind,value_bind,value_getReq,exec_getReq] at hv ⊢
  by_cases hb : c.req.bufferEnd≠0 ∧ (!c.req.status.over)=true
  · simp only [if_pos hb,exec_bind,value_bind] at hv ⊢
    have hf := reqFlush_fated e c
    generalize value (reqFlush e) c = i at hf hv ⊢
    generalize exec (reqFlush e) c = c' at hf hv ⊢
    cases hf with
    | past _ _ => cases hv
    | dies _ _ _ => cases hv
    | lives i hi hfate =>
      rw [if_neg hi]
      have hs : c'.req.status=c.req.status := congrArg Prod.fst hfate
      split <;> exact hs
  · rw [if_neg hb]
    rfl

theorem freeFlush_indexed (h : Indexed c) : Indexed (exec (freeFlush e) c) := by
  have hdone : Indexed (exec (setStatus .done) c) := h.congr rfl
  have hflush := reqFlush_indexed e hdone
  simp only [freeFlush,exec_bind,value_getReq,exec_getReq,exec_ite,exec_pure]
  split
  · split
    · exact hflush.congr rfl
    · exact hflush
  · exact h

theorem mimeFilterFlush_indexed (f : FilterKind) (h : Indexed c) (hf : c.req.filter=some f) :
    Indexed (exec (mimeFilterFlush e f) c) := by
  cases f with
  | deflate =>
    simp only [mimeFilterFlush,exec_bind,value_getReq,exec_getReq]
    split
    · exact h
    · rename_i outs _
      obtain ⟨d,hw⟩ := writeChunks_sends outs c
      obtain ⟨d',hend⟩ := mimeFilterWriteChunk_sends [] (c.sends (chunksSent outs c.sys.sock) d)
      simp only [exec_bind,hw,hend]
      exact h.congr rfl
  | gzip =>
    have hnone := h.gzip hf
    simp only [mimeFilterFlush,exec_bind,value_getReq,exec_getReq,hnone,exec_pure]
    exact h

theorem finishFilter_indexed (h : Indexed c) : Indexed (exec (finishFilter e) c) := by
  simp only [finishFilter,exec_bind,value_getReq,exec_getReq]
  cases hf : c.req.filter with
  | none => exact h
  | some f =>
    have hmark : Indexed (exec (mark .filterFlush) c) := h.congr rfl
    exact mimeFilterFlush_indexed e f hmark hf

theorem closeConn_indices : (exec closeConn c).req.indices=c.req.indices := by
  simp only [closeConn,exec_bind,value_getReq,exec_getReq,exec_onlyIf,exec_setPlace,req_fdClr]
  split
  · rw [exec_sockRead]
    rfl
  · rfl

theorem release_indexed (h : Indexed c) : Indexed (exec release c) := by
  have hreq := (settled_outcome c).1
  have hidx : c.settled.req.indices=c.req.indices := by
    rw [hreq]
    unfold Request.timedOut
    split <;> rfl
  rw [exec_release]
  split
  · refine ⟨Nat.le_refl 0,Nat.zero_le _,fun hf => ?_⟩
    cases hf
  · exact h.congr (closeConn_indices.trans hidx)

theorem freeRequest_indexed (h : Indexed c) : Indexed (exec (freeRequest e) c) := by
  have hflush := freeFlush_indexed e h
  simp only [freeRequest,exec_bind,exec_ite,exec_pure]
  split
  · exact hflush
  · exact release_indexed (finishFilter_indexed e hflush)

theorem settle_indexed (ret : Int) (h : Indexed c) : Indexed (exec (settle e ret) c) := by
  have hka : Indexed (exec (onlyIf c.sys.sigterm squashKa) c) := by
    rw [exec_onlyIf]
    split
    · exact h.congr rfl
    · exact h
  simp only [settle,exec_bind,value_get,exec_get,exec_ite]
  split
  · exact hka.congr (congrArg Request.indices (req_blockRequest e _))
  · split
    · exact freeRequest_indexed e (hka.congr rfl)
    · split
      · exact hka.congr rfl
      · exact hka.congr rfl

/-! Turns and runs. -/

/-- In a turn that reads a header the blocks of a decompressed page find room, and a bus error
finds nothing of the header sent; a request past DONE has nothing sent of its buffer. -/
def Ev.keepsRoom (c : Conn) : Ev → Prop
  | .process w => c.place=.ready →
      (c.req.status.reading=true → KeepsRoom (c.visits (step e c (.process w)))) ∧
        (c.req.status.over=true → c.req.bufferStart=0)
  | _ => True

theorem processRequest_indexed (h : Indexed c)
    (hread : c.req.status.reading=true → KeepsRoom (c.visits (exec (processRequest e) c)))
    (hover : c.req.status.over=true → c.req.bufferStart=0) :
    Indexed (exec (processRequest e) c) := by
  have htop := topFlush_indexed e h
  rcases processRequest_run e c with ⟨hv,hrun⟩|⟨-,hrun⟩
  · rw [hrun] at hread ⊢
    apply settle_indexed
    have hs : (c.dispatched e).req.status=c.req.status := topFlush_status e hv
    have hstart : Passed (fun _ => True) c (c.dispatched e) := .same (dispatched_idled e c).trace
    have hmid := (processStatus_frame e (c.dispatched e)).2
    have hend := (settle_turnEnd e (value (processStatus e) (c.dispatched e))
      (exec (processStatus e) (c.dispatched e))).passed
    have hdisp : Indexed (c.dispatched e) := htop.congr rfl
    apply processStatus_indexed e hdisp
    · intro hr
      have hok := hread (hs ▸ hr)
      rw [visits_trans hstart (hmid.trans hend),visits_trans hmid hend] at hok
      exact KeepsRoom.splits.left (KeepsRoom.splits.right hok)
    · intro ho
      rw [hs] at ho
      have hskip := (topFlush_skip e (c := c) (.inr ho)).2
      have hsame : (exec (topFlush e) c).req.bufferStart=c.req.bufferStart := by rw [hskip]
      exact hsame.trans (hover ho)
  · rw [hrun]
    exact settle_indexed e _ htop

theorem step_indexed (ev : Ev) (h : Indexed c) (hok : ev.keepsRoom e c) :
    Indexed (step e c ev) := by
  cases ev with
  | process w =>
    simp only [Ev.keepsRoom,step] at hok ⊢
    by_cases hp : c.place=.ready
    · rw [if_pos hp] at hok ⊢
      obtain ⟨hread,hover⟩ := hok hp
      have h0 : Indexed { c with sys := w, waits := none } := h.congr rfl
      exact processRequest_indexed e h0 hread hover
    · rw [if_neg hp]
      exact h
  | select w readyR readyW =>
    simp only [step]
    by_cases hp : c.place=.block
    · rw [if_pos hp]
      have h0 : Indexed { c with sys := w } := h.congr rfl
      rcases (fdsetUpdate_frame e { c with sys := w } readyR readyW).2 with hr|hr
      · exact h0.congr (congrArg Request.indices hr)
      · exact h0.congr ((congrArg Request.indices hr).trans rfl)
    · rw [if_neg hp]
      exact h
  | results rs => exact cgiWorkResps_indexed rs h

theorem accepted_indexed (h : Accepted e c) : Indexed c := by
  obtain ⟨c0,now,fd,localIp,remoteIp,port,h|h⟩ := h
  · rw [h]
    refine ⟨Nat.le_refl 0,Nat.zero_le _,fun hf => ?_⟩
    cases hf
  · have hnew : Indexed (exec (modReq fun r => { r with httpVersion := .http10, method := .get })
        (acceptConn e now fd localIp remoteIp port c0)) := by
      refine ⟨Nat.le_refl 0,Nat.zero_le _,fun hf => ?_⟩
      cases hf
    have hsend := (sendRServiceUnavailable_rel (under_walks Splits.all e) _).keeps trivial hnew
    rw [h]
    simp only [refuseConn,exec_bind]
    generalize exec (sendRServiceUnavailable e) _ = c1 at hsend ⊢
    exact hsend.congr rfl

end Handlers

/-- The indices of the output buffer stay in order in every run whose pages find room and whose
aborted requests have sent nothing of their buffer. -/
theorem bufferIndices_ordered (e : Config) (c : Conn) (evs : List Ev) (h : Accepted e c)
    (hok : Run.AllSteps (step e) (fun t ev => ev.keepsRoom e t) c evs) :
    ∀ t∈Run.states (step e) c evs,t.req.ordered := by
  intro t ht
  have hinv := Run.invariant (I := Indexed) (fun s ev hi hv => step_indexed e ev hi hv)
    (accepted_indexed e h) hok t ht
  exact ⟨hinv.order,hinv.room⟩

/-! A page that is there in its compressed form only, of two blocks. -/

def packedConfig : Config where
  build := { gunzip := true }
  docroot := some (str "/w")

def packedWorld (sock : List IoRes) : World where
  stat path := if path=str "/w/a.gz" then some .reg else none
  gzopen := some [List.replicate 2048 65,List.replicate 2048 66]
  sock := sock

def packedConn : Conn := acceptConn {} 0 5 [] [] 0 {}

/-- The first turn reads the request, the second answers it. -/
def packedRun (sock : List IoRes) : List Ev :=
  [.process { packedWorld sock with recv := [.data (str "GET /a HTTP/1.0\n\n")] },
    .process (packedWorld sock)]

/-- A socket that takes what it is offered. -/
def packedTaken : List IoRes := [.done 4096,.done 4096,.done 4096]

theorem bufferIndices_ordered_page :
    (∀ t∈Run.states (step packedConfig) packedConn (packedRun packedTaken),t.req.ordered) ∧
      (Run.final (step packedConfig) packedConn (packedRun packedTaken)).wire.length=4294 := by
  refine ⟨bufferIndices_ordered packedConfig packedConn (packedRun packedTaken)
    ⟨{},0,5,[],[],0,.inl rfl⟩ ⟨?_,?_,trivial⟩,by decide +kernel⟩
  · exact fun _ => ⟨fun _ => ⟨by decide +kernel,by decide +kernel⟩,
      fun ho => absurd ho (by decide +kernel)⟩
  · exact fun _ => ⟨fun _ => ⟨by decide +kernel,by decide +kernel⟩,
      fun ho => absurd ho (by decide +kernel)⟩

/-- On a socket that takes nothing the blocks are copied behind each other, past the end. -/
theorem bufferIndices_overrun :
    Accepted packedConfig packedConn ∧
      ∃ t∈Run.states (step packedConfig) packedConn (packedRun []),¬t.req.ordered :=
  ⟨⟨{},0,5,[],[],0,.inl rfl⟩,_,Run.final_mem_states _ _,
    fun h => absurd h.2 (by decide +kernel)⟩

end Crotalus
