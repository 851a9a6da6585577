import Crotalus.Server.Request
import Crotalus.Spec.Walk

namespace Crotalus

open Stateful

/-! The handlers that carry a request on after its header, for any relation that their parts
respect. -/

/-- The request without what these handlers move. -/
def Request.unmoved (r : Request) : Request :=
  { r.bare with
    cgiStatus := .parse, headerArea := .stream, headerLine := 0, headerEnd := 0
    bytesWritten := 0, dataFd := 0, filepos := 0, postDataFd := 0, buffer := fun _ => 0 }

/-- The parts of these handlers respect `R`, and so does every status that `T` allows. -/
structure Carries (e : Config) (T : Status → Prop) (R : Conn → Conn → Prop) : Prop
    extends Walks e R where
  move {f : Request → Request} (h : ∀ r, (f r).unmoved = r.unmoved) : Rel R (modReq f)
  status {st : Status} (h : T st) : Rel R (setStatus st)
  write (bs : List Byte) : Rel R (sockWrite bs)

/-- And so do those of the header of a program's output. -/
structure Relays (e : Config) (T : Status → Prop) (R : Conn → Conn → Prop) : Prop
    extends Carries e T R where
  location : Rel R (mark .locationDone)
  merge (lf : Nat) : Rel R (cgiMerge e lf)

/-- And so do those of the transfer of a file. -/
structure Transfers (e : Config) (T : Status → Prop) (R : Conn → Conn → Prop) : Prop
    extends Carries e T R where
  complete : Rel R (completeResponse e)
  access (off n : Nat) : Rel R (mark (.fileAccess off n))
  bus : Rel R sigbus

section Rules

variable {e : Config} {T : Status → Prop} {R : Conn → Conn → Prop} {α : Type}

/-- A field is moved. -/
theorem Carries.moving (h : Carries e T R) {f : Request → Request} {m : Srv α}
    (hf : ∀ r, (f r).unmoved = r.unmoved) (hm : Rel R m) : Rel R (modReq f >>= fun _ => m) :=
  h.bind (h.move hf) fun _ => hm

/-- The status changes on the way. -/
theorem Carries.entering (h : Carries e T R) {st : Status} {m : Srv α} (hst : T st) (hm : Rel R m) :
    Rel R (setStatus st >>= fun _ => m) :=
  h.bind (h.status hst) fun _ => hm

theorem Fills.retry (h : Fills R) {io : Srv (Except Errno α)} (hio : Rel R io) (k : Nat) :
    Rel R (retryIntr io k) := by
  induction k with
  | zero => exact hio
  | succ k ih =>
    refine h.bind hio fun res => ?_
    split
    · exact ih
    · exact h.pure _

end Rules

/-! The output of a program. -/

section Relay

variable {e : Config} {T : Status → Prop} {R : Conn → Conn → Prop}

theorem locationUrl_rel (h : Carries e T R) (url : Nat) : Rel R (locationUrl e url) := by
  refine readReq_rel fun r => h.moving (fun _ => rfl) <| readReq_rel fun r' => ?_
  dsimp only
  split
  · exact sendRMovedTemp_rel h.toWalks _ _ _
  · exact sendRMovedTemp_rel h.toWalks _ _ _

theorem locationReply_rel (h : Carries e T R) (url : Nat) : Rel R (locationReply e url) := by
  refine readReq_rel fun r => ?_
  split
  · exact sendRBadRequest_rel h.toWalks
  · exact locationUrl_rel h _

theorem cgiLocation_rel (h : Relays e T R) (hd : T .done) : Rel R (cgiLocation e) := by
  refine h.bind h.location fun _ => readReq_rel fun r => ?_
  exact h.bind (locationReply_rel h.toCarries _) fun _ => h.entering hd (h.pure _)

theorem processCgiHeader_rel (h : Relays e T R) (hd : T .done) : Rel R (processCgiHeader e) := by
  refine h.moving (fun _ => rfl) <| readReq_rel fun r => ?_
  dsimp only
  split
  · exact h.returning (sendRBadGateway_rel h.toWalks) _
  split
  · exact h.moving (fun _ => rfl) (h.pure _)
  split
  · exact h.moving (fun _ => rfl) <| h.moving (fun _ => rfl) (h.pure _)
  split
  · exact cgiLocation_rel h hd
  · exact h.merge _

theorem writeFrom_rel (h : Carries e T R) (hd : T .dead) {st : Status} (hst : T st) :
    Rel R (writeFrom st) := by
  refine readReq_rel fun r => ?_
  dsimp only
  split
  · split
    · exact h.pure _
    · exact h.entering hst <| h.moving (fun _ => rfl) (h.pure _)
  · refine h.bind (h.write _) fun res => ?_
    split
    · exact h.pure _
    · exact h.pure _
    · exact h.entering hd (h.pure _)
    · refine h.moving (fun _ => rfl) ?_
      split
      · exact h.entering hst <| h.moving (fun _ => rfl) (h.pure _)
      · exact h.pure _

theorem readFull_rel (h : Relays e T R) (hd : T .done) {st : Status} (hst : T st) :
    Rel R (readFull e st) := by
  refine readReq_rel fun r => ?_
  split
  · exact h.moving (fun _ => rfl) <| h.moving (fun _ => rfl) (processCgiHeader_rel h hd)
  · exact h.entering hst (h.pure _)

theorem readDone_rel (h : Relays e T R) (hdead : T .dead) (hd : T .done) {st st' : Status}
    (hst : T st) (hst' : T st') (bs : List Byte) : Rel R (readDone e st st' bs) := by
  refine readReq_rel fun r => h.moving (fun _ => rfl) ?_
  split
  · refine h.entering hst <| h.moving (fun _ => rfl) ?_
    split
    · exact processCgiHeader_rel h hd
    · exact h.pure _
  · refine h.moving (fun _ => rfl) ?_
    split
    · exact writeFrom_rel h.toCarries hdead hst'
    · refine readReq_rel fun r' => ?_
      split
      · exact h.pure _
      · exact h.moving (fun _ => rfl) (processCgiHeader_rel h hd)

theorem readFromPipe_rel (h : Relays e T R) (hpipe : ∀ k, Rel R (pipeRead k)) (hdead : T .dead)
    (hd : T .done) (hr : T .pipeRead) (hw : T .pipeWrite) : Rel R (readFromPipe e) := by
  refine readReq_rel fun r => ?_
  split
  · exact readFull_rel h hd hw
  · refine h.bind (hpipe _) fun res => ?_
    split
    · exact h.pure _
    · exact h.pure _
    · exact h.entering hdead (h.pure _)
    · exact readDone_rel h hdead hd hw hr _

end Relay

/-! Files and bodies. -/

section Transfer

variable {e : Config} {T : Status → Prop} {R : Conn → Conn → Prop}

theorem processGet_rel (h : Transfers e T R) (hdead : T .dead) : Rel R (processGet e) := by
  refine readReq_rel fun r => ?_
  split
  · exact h.complete
  · refine h.bind (h.access _ _) fun _ => h.bind h.bus fun b => ?_
    split
    · exact h.entering hdead (h.pure _)
    · refine h.bind (h.write _) fun res => ?_
      split
      · exact h.pure _
      · exact h.entering hdead (h.pure _)
      · refine h.moving (fun _ => rfl) <| readReq_rel fun r' => ?_
        split
        · exact h.complete
        · exact h.pure _

theorem ioShuffleSendfile_rel (h : Transfers e T R) (hdead : T .dead)
    (hnone : Rel R (mark .noneSent)) : Rel R (ioShuffleSendfile e) := by
  refine Rel.read fun c => ?_
  dsimp only
  split
  · exact h.complete
  split
  · split
    · exact h.complete
    · exact h.pure _
  split
  · exact h.entering hdead (h.pure _)
  · refine h.bind (h.access _ _) fun _ => h.bind (h.retry (h.write _) _) fun res => ?_
    split
    · exact h.pure _
    · exact h.entering hdead (h.pure _)
    · split
      · exact h.bind hnone fun _ => h.pure _
      · refine h.moving (fun _ => rfl) <| readReq_rel fun r' => ?_
        split
        · exact h.complete
        · exact h.pure _

theorem readBody_rel (h : Carries e T R) (hrecv : ∀ k, Rel R (sockRead k)) (hw : T .bodyWrite) :
    Rel R (readBody e) := by
  refine readReq_rel fun r => ?_
  dsimp only
  split
  · exact h.entering hw (h.pure _)
  · refine h.bind (hrecv _) fun res => ?_
    split
    · exact h.pure _
    · exact h.bind (crotalusPerror_rel h.toWalks) fun _ => h.setting (fun _ => rfl) (h.pure _)
    · split
      · exact h.returning (sendRBadRequest_rel h.toWalks) _
      · exact h.entering hw <| h.moving (fun _ => rfl) (h.pure _)

theorem writeBody_rel (h : Carries e T R) (hl : Launches e R) (hpost : ∀ bs, Rel R (postWrite bs))
    (hmark : ∀ file body, Rel R (mark (.bodyDone file body))) (hr : T .bodyRead) :
    Rel R (writeBody e) := by
  refine readReq_rel fun r => ?_
  dsimp only
  split
  · refine h.moving (fun _ => rfl) ?_
    split
    · exact Rel.read fun c => h.bind (hmark _ _) fun _ => initCgi_rel hl
    · exact h.entering hr (h.pure _)
  · refine h.bind (hpost _) fun res => ?_
    split
    · exact h.pure _
    · exact h.pure _
    · exact h.returning (crotalusPerror_rel h.toWalks) _
    · exact h.moving (fun _ => rfl) (h.pure _)

theorem processDone_rel (h : Carries e T R) (hdead : T .dead) : Rel R (processDone e) := by
  refine h.bind h.flush fun i => ?_
  split
  · exact h.entering hdead (h.pure _)
  split
  · exact h.pure _
  · exact h.pure _

end Transfer

end Crotalus
