import Crotalus.Spec.RelayWalk
import Crotalus.Spec.Works

namespace Crotalus

open Stateful

/-! The handlers that carry a response on after the header of its request. -/

section Cgi

variable {T : Status → Prop} {S : Site → Prop} (e : Config)

theorem Request.kept_unmoved {r r' : Request} (h : r'.unmoved = r.unmoved) : r'.kept = r.kept := by
  have hk : r'.unmoved.kept = r.unmoved.kept := congrArg Request.kept h
  exact hk

theorem worked_carries (h : T .dead) : Carries e T (Worked T S) where
  toWalks := worked_walks e h
  move hf := Works.modReq fun r => Request.kept_unmoved (hf r)
  status := Works.setStatus
  write := sockWrite_works

theorem cgiMerge_works (h : T .dead) (i : Nat) : Works T S (cgiMerge e i) := by
  apply Works.bind (sendRRequestOk_works e h)
  intro _ _
  refine .bind (.modReq fun r => ?_) fun _ _ => .bind .getReq fun r _ => ?_
  · split <;> rfl
  · dsimp only
    split
    · refine .bind (.modReq fun _ => rfl) fun _ _ => ?_
      exact .bind (sendRError_works e h) fun _ _ => .pure _
    · refine .bind (.modReq fun _ => rfl) fun _ _ => .bind (reqFlush_works h e) fun _ _ => ?_
      split
      · exact .pure _
      · exact .pure _

theorem worked_relays (h : T .dead) (hs : S .locationDone) : Relays e T (Worked T S) where
  toCarries := worked_carries e h
  location := Works.mark hs
  merge := cgiMerge_works e h

theorem writeFrom_works (h : T .dead) {s : Status} (h' : T s) : Works T S (writeFrom s) :=
  writeFrom_rel (worked_carries {} h) h h'

theorem readFull_works (h : T .dead) (h' : T .done) (hs : S .locationDone) {st : Status}
    (hst : T st) : Works T S (readFull e st) :=
  readFull_rel (worked_relays e h hs) h' hst

theorem readDone_works (h : T .dead) (h' : T .done) (hs : S .locationDone) {st st' : Status}
    (hst : T st) (hst' : T st') (bs : List Byte) : Works T S (readDone e st st' bs) :=
  readDone_rel (worked_relays e h hs) h h' hst hst' bs

theorem readFromPipe_works (h : T .dead) (h' : T .done) (hr : T .pipeRead) (hw : T .pipeWrite)
    (hs : S .locationDone) : Works T S (readFromPipe e) :=
  readFromPipe_rel (worked_relays e h hs) pipeRead_works h h' hr hw

/-- What the client's request gets from a worker. -/
def Conn.withBuff (c : Conn) (buff : Option (List Byte)) : Conn :=
  { c with req := { c.req with buff := buff } }

theorem readFromShbuff_works (h : T .dead) (h' : T .done) (hr : T .buffRead) (hw : T .buffWrite)
    (hs : S .locationDone) {c : Conn} {bs : List Byte} (hb : c.req.buff = some bs) :
    ∃ bs', Worked T S (c.withBuff (some bs')) (exec (readFromShbuff e) c) := by
  have hself : c.withBuff (some bs) = c := by
    rw [Conn.withBuff, ← hb]
  by_cases hlib : e.build.haveLibshare = true
  · simp only [readFromShbuff, if_pos hlib, exec_bind, value_getReq, exec_getReq, hb]
    by_cases hn : c.req.bytesToRead = 0
    · simp only [if_pos hn]
      exact ⟨bs, hself.symm ▸ readFull_works e h h' hs hw c⟩
    · simp only [if_neg hn]
      exact ⟨_, readDone_works e h h' hs hw hr _ (c.withBuff (some (bs.drop c.req.bytesToRead)))⟩
  · simp only [readFromShbuff, if_neg hlib]
    exact ⟨bs, hself.symm ▸ .refl c⟩

/-- A worker's result moves the request on, from whatever status it has. -/
theorem cgiWorkResp_works (hr : T .buffRead) (hs : S .workResp) (err : Int) (data : List Byte)
    (c : Conn) :
    (Worked T S c (exec (cgiWorkResp err data) c) ∧
        (exec (cgiWorkResp err data) c).req = c.req) ∨
      ∃ bs, Worked T S (c.withBuff (some bs)) (exec (cgiWorkResp err data) c) ∧
        (exec (cgiWorkResp err data) c).req.status = .buffRead := by
  by_cases herr : err ≠ 0
  · simp only [cgiWorkResp, if_pos herr]
    exact .inl ⟨.refl c, rfl⟩
  · simp only [cgiWorkResp, if_neg herr, exec_bind]
    refine .inr ⟨c.req.buff.getD [] ++ data, ⟨rfl, rfl, .inr hr, _, rfl, fun v hv => ?_⟩, rfl⟩
    rw [List.mem_singleton.mp hv]
    exact hs

end Cgi

section Static

variable {T : Status → Prop} {S : Site → Prop} (e : Config)

theorem worked_transfers (h : T .dead) (h' : T .done) (hs : S .completeResponse)
    (ha : ∀ off n, S (.fileAccess off n)) : Transfers e T (Worked T S) where
  toCarries := worked_carries e h
  complete := completeResponse_works e h h' hs
  access off n := Works.mark (ha off n)
  bus := sigbus_works

theorem processGet_works (h : T .dead) (h' : T .done) (hs : S .completeResponse)
    (ha : ∀ off n, S (.fileAccess off n)) : Works T S (processGet e) :=
  processGet_rel (worked_transfers e h h' hs ha) h

theorem ioShuffleSendfile_works (h : T .dead) (h' : T .done) (hs : S .completeResponse)
    (ha : ∀ off n, S (.fileAccess off n)) (hn : S .noneSent) :
    Works T S (ioShuffleSendfile e) :=
  ioShuffleSendfile_rel (worked_transfers e h h' hs ha) h (Works.mark hn)

theorem writePending_works (h : T .dead) : Works T S writePending := writePending_idles.works h

theorem ioShuffleWrite_works (h : T .dead) : Works T S ioShuffleWrite := by
  apply Works.bind .get
  intro c _
  dsimp only
  split
  · split
    · exact .pure _
    · refine .bind (.modReq fun _ => rfl) fun _ _ => .pure _
  · apply Works.bind (retryIntr_works (writePending_works h) _)
    intro res _
    split
    · exact .pure _
    · exact .bind (.setStatus h) fun _ _ => .pure _
    · refine .bind (.modReq fun r => ?_) fun _ _ => .pure _
      exact (Request.kept_counted ..).trans (r.kept_taken _)

theorem ioShuffle_works (h : T .dead) (h' : T .done) (hs : S .completeResponse)
    (ha : ∀ off n, S (.fileAccess off n)) : Works T S (ioShuffle e) := by
  apply Works.bind .get
  intro c _
  dsimp only
  split
  · exact completeResponse_works e h h' hs
  · split
    · apply Works.bind seekOk_works
      intro b _
      split
      · refine .bind (.mark (ha _ _)) fun _ _ => ?_
        apply Works.bind (retryIntr_works (fileRead_works _ _) _)
        intro res _
        split
        · split
          · exact .pure _
          · exact ioShuffleWrite_works h
        · exact .bind (.setStatus h) fun _ _ => .pure _
        · refine .bind (.modReq fun _ => rfl) fun _ _ => ioShuffleWrite_works h
        · refine .bind (.modReq fun _ => rfl) fun _ _ => .bind .getReq fun r _ => ?_
          split
          · exact completeResponse_works e h h' hs
          · exact ioShuffleWrite_works h
      · exact .bind (.setStatus h) fun _ _ => .pure _
    · exact ioShuffleWrite_works h

theorem processDone_works (h : T .dead) : Works T S (processDone e) :=
  processDone_rel (worked_carries e h) h

theorem processOver_works : Works T S processOver :=
  .bind (.modReq fun _ => rfl) fun _ _ => Works.squashKa.returning _

end Static

end Crotalus
