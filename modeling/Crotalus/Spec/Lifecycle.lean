import Crotalus.Spec.ReadWalk
import Crotalus.Spec.Turn

namespace Crotalus

open Stateful

/-! The life of a request: the statuses it goes through, and the connection that it uses. -/

section Imp

variable {e : Config} {R R' : Conn → Conn → Prop}

/-- The responses respect what a relation they respect gives. -/
theorem Serves.imp (h : Serves e R) (hr : ∀ c c',R c c' → R' c c')
    (ht : ∀ {c c' c''},R' c c' → R' c' c'' → R' c c'') : Serves e R' where
  refl c := hr c c (h.refl c)
  trans := ht
  set hf c := hr _ _ (h.set hf c)
  alloc c := hr _ _ (h.alloc c)
  put p c := hr _ _ (h.put p c)
  flush c := hr _ _ (h.flush c)
  flushRaw c := hr _ _ (h.flushRaw c)
  started pipe c := hr _ _ (h.started pipe c)
  work c := hr _ _ (h.work c)
  gzip c := hr _ _ (h.gzip c)
  filter c := hr _ _ (h.filter c)
  decline c := hr _ _ (h.decline c)
  initGet c := hr _ _ (h.initGet c)
  dirmaker c := hr _ _ (h.dirmaker c)
  mapped fd f c := hr _ _ (h.mapped fd f c)
  complete c := hr _ _ (h.complete c)
  fill c := hr _ _ (h.fill c)

end Imp

/-- Within one request: its status stays or becomes one that `T` allows, and the connection and
what is left of its requests stay. -/
structure Moved (T : Status → Prop) (c c' : Conn) : Prop where
  status : c'.req.status=c.req.status ∨ T c'.req.status
  fd : c'.req.fd=c.req.fd
  kacount : c'.req.kacount=c.req.kacount
  passed : Passed (· ≠ .sanitize) c c'

section Moved

variable {T T' : Status → Prop} {c c' c'' : Conn}

theorem Moved.same (hs : c'.req.status=c.req.status) (hf : c'.req.fd=c.req.fd)
    (hk : c'.req.kacount=c.req.kacount) (ht : c'.trace=c.trace) : Moved T c c' :=
  ⟨.inl hs,hf,hk,.same ht⟩

theorem Moved.refl (c : Conn) : Moved T c c := .same rfl rfl rfl rfl

theorem Moved.trans (h : Moved T c c') (h' : Moved T c' c'') : Moved T c c'' := by
  refine ⟨?_,h'.fd.trans h.fd,h'.kacount.trans h.kacount,h.passed.trans h'.passed⟩
  rcases h'.status with hs|hs
  · rw [hs]
    exact h.status
  · exact .inr hs

theorem Moved.imp (h : Moved T c c') (ht : ∀ st,T st → T' st) : Moved T' c c' :=
  ⟨h.status.imp_right (ht _),h.fd,h.kacount,h.passed⟩

theorem Worked.moved (h : Worked T (· ≠ .sanitize) c c') : Moved T c c' := by
  have hr := h.req
  simp only [Request.steady,Prod.mk.injEq] at hr
  obtain ⟨-,-,-,-,-,-,-,hfd,hka,-⟩ := hr
  exact ⟨h.status,hfd,hka,h.passed⟩

/-- A step that leaves the status and the connection's fields alone. -/
theorem Moved.modReq {f : Request → Request} (hs : ∀ r,(f r).status=r.status)
    (hf : ∀ r,(f r).fd=r.fd) (hk : ∀ r,(f r).kacount=r.kacount) : Rel (Moved T) (modReq f) :=
  fun c => .same (hs c.req) (hf c.req) (hk c.req) rfl

theorem Moved.mark {site : Site} (h : site≠.sanitize) : Rel (Moved T) (mark site) :=
  fun c => ⟨.inl rfl,rfl,rfl,Passed.mark (S := (· ≠ .sanitize)) h c⟩

theorem Moved.enter {st : Status} (h : T st) : Rel (Moved T) (setStatus st) :=
  fun _ => ⟨.inr h,rfl,rfl,.same rfl⟩

end Moved

/-- `T` allows what the reading of a header can lead to in one turn. -/
structure Opening (T : Status → Prop) : Prop where
  responding : Responding T (· ≠ .sanitize)
  bodyWrite : T .bodyWrite
  bodyRead : T .bodyRead
  reading : ∀ st,st.reading=true → T st

section Parse

variable {T : Status → Prop} {e : Config}

theorem Request.unread_fields {r r' : Request} (h : r'.unread=r.unread) :
    r'.status=r.status ∧ r'.fd=r.fd ∧ r'.kacount=r.kacount := by
  have hs : r'.unread.status=r.unread.status := congrArg Request.status h
  have hf : r'.unread.fd=r.unread.fd := congrArg Request.fd h
  have hk : r'.unread.kacount=r.unread.kacount := congrArg Request.kacount h
  exact ⟨hs,hf,hk⟩

theorem openPost_moved (hd : T .dead) : Rel (Moved T) (openPost e) := by
  intro c
  rcases openPost_cases (T := T) (S := (· ≠ .sanitize)) e hd c with ⟨fd,-,-,hrun⟩|⟨-,hw⟩
  · rw [hrun]
    exact .same rfl rfl rfl rfl
  · exact hw.moved

theorem moved_serves (h : Responding T (· ≠ .sanitize)) : Serves e (Moved T) :=
  (worked_serves e h).imp (fun _ _ => Worked.moved) Moved.trans

theorem moved_heads (h : Responding T (· ≠ .sanitize)) : Heads e (Moved T) where
  toServes := moved_serves h
  script _ _ := .same rfl rfl rfl rfl
  line hf := Moved.modReq (fun r => (Request.unread_fields (hf r)).1)
    (fun r => (Request.unread_fields (hf r)).2.1) fun r => (Request.unread_fields (hf r)).2.2
  headerEnd := Moved.mark fun h => by cases h
  post := openPost_moved h.dead

theorem headerStatus_allowed (h : Opening T) (st : Status) (uc : Byte) :
    headerStatus st uc=st ∨ T (headerStatus st uc) := by
  have hone := h.reading .oneCr rfl
  have hlf := h.reading .oneLf rfl
  have htwo := h.reading .twoCr rfl
  have hread := h.reading .readHeader rfl
  have hbody := h.bodyRead
  cases st <;> simp only [headerStatus] <;> (try split_ifs) <;> simp_all

theorem headerDone_moved (h : Opening T) (c : Conn) : Moved T c (exec (headerDone e) c) := by
  obtain ⟨host,hw⟩ := headerDone_works e h.responding h.bodyWrite c
  have hm := hw.moved
  have hmark : Moved T c (exec (mark .headerEnd) c) := Moved.mark (fun h => by cases h) c
  have hhost : Moved T (exec (mark .headerEnd) c) ((exec (mark .headerEnd) c).withHost host) :=
    .same rfl rfl rfl rfl
  exact (hmark.trans hhost).trans hm

theorem moved_parses (h : Opening T) : Parses e (Moved T) where
  toHeads := moved_heads h.responding
  logline := Moved.mark fun h => by cases h
  optionLine := Moved.mark fun h => by cases h
  automaton uc c := by
    refine ⟨?_,rfl,rfl,.same rfl⟩
    exact headerStatus_allowed h c.req.status uc
  die := Moved.enter h.responding.dead
  recv k c := by
    rw [exec_sockRead]
    exact .same rfl rfl rfl rfl
  ended c _ := headerDone_moved h c

theorem readHeader_moved (h : Opening T) : Rel (Moved T) (readHeader e) :=
  readHeader_rel (moved_parses h)

end Parse

/-! The statuses a request can still get to. -/

def Status.ends : List Status := [.done,.timedOut,.dead]

/-- The statuses behind each one, until the end of the request. -/
def Status.leadsTo : Status → List Status
  | .readHeader | .oneCr | .oneLf | .twoCr =>
    [.readHeader,.oneCr,.oneLf,.twoCr,.bodyRead,.bodyWrite,.write,.ioshuffle,
      .buffPoll,.buffRead,.buffWrite,.pipeRead,.pipeWrite]++Status.ends
  | .bodyRead | .bodyWrite =>
    [.bodyRead,.bodyWrite,.buffPoll,.buffRead,.buffWrite,.pipeRead,.pipeWrite]++Status.ends
  | .write => .write::Status.ends
  | .ioshuffle => .ioshuffle::Status.ends
  | .buffPoll => [.buffPoll,.buffRead,.buffWrite]++Status.ends
  | .buffRead | .buffWrite => [.buffRead,.buffWrite]++Status.ends
  | .pipeRead | .pipeWrite => [.pipeRead,.pipeWrite]++Status.ends
  | .done => Status.ends
  | .timedOut | .dead => [.timedOut,.dead]

theorem Status.leadsTo_self (a : Status) : a∈a.leadsTo := by
  cases a <;> decide

theorem Status.leadsTo_trans {a b d : Status} (h : b∈a.leadsTo) (h' : d∈b.leadsTo) :
    d∈a.leadsTo := by
  have hall : ∀ b∈a.leadsTo,∀ d∈b.leadsTo,d∈a.leadsTo := by
    cases a <;> decide +kernel
  exact hall b h d h'

theorem Status.leadsTo_dead (a : Status) : .dead∈a.leadsTo ∧ .timedOut∈a.leadsTo := by
  cases a <;> decide

theorem Status.leadsTo_done {a : Status} (h : a.over=false) : .done∈a.leadsTo := by
  revert h
  cases a <;> decide

/-- What a turn leads to: only `fdset_update` times a request out. -/
def Status.turnsTo (a b : Status) : Prop := b∈a.leadsTo ∧ b≠.timedOut

instance (a b : Status) : Decidable (a.turnsTo b) :=
  inferInstanceAs (Decidable (b∈a.leadsTo ∧ b≠.timedOut))

theorem Status.turnsTo_trans {a b d : Status} (h : b∈a.leadsTo) (h' : b.turnsTo d) :
    a.turnsTo d := ⟨Status.leadsTo_trans h h'.1,h'.2⟩

/-- A status from which a worker's answer is awaited, or read. -/
def Status.buffered (st : Status) : Bool := st=.buffPoll || st=.buffRead || st=.buffWrite

theorem Status.buffered_leads {a : Status} (h : a.buffered=true) : .buffRead∈a.leadsTo := by
  revert h
  cases a <;> decide

section Turns

variable {e : Config} {c c' : Conn}

theorem Opening.turns {a : Status} (h : a.reading=true) : Opening a.turnsTo := by
  cases a with
  | readHeader | oneCr | oneLf | twoCr =>
    refine ⟨?_,by decide,by decide,fun st hst => ?_⟩
    · constructor <;> intros <;> first | decide | exact fun h => by cases h
    · revert hst
      cases st <;> decide
  | _ => cases h

theorem cgiWorkResp_moved {T : Status → Prop} (hr : T .buffRead) (err : Int) (data : List Byte) :
    Rel (Moved T) (cgiWorkResp err data) := by
  intro c
  by_cases herr : err≠0
  · simp only [cgiWorkResp,if_pos herr]
    exact .refl c
  · simp only [cgiWorkResp,if_neg herr]
    exact ⟨.inr hr,rfl,rfl,Passed.mark (S := (· ≠ .sanitize)) (fun h => by cases h) c⟩

theorem cgiWorkResps_moved {T : Status → Prop} (hr : T .buffRead) (rs : List (Int × List Byte)) :
    Rel (Moved T) (cgiWorkResps rs) := by
  induction rs with
  | nil => exact .refl
  | cons r rs ih => exact fun c => (cgiWorkResp_moved hr r.1 r.2 c).trans (ih _)

theorem pollFromShbuff_moved {T : Status → Prop} (e : Config) (hr : T .buffRead) :
    Rel (Moved T) (pollFromShbuff e) := by
  intro c
  by_cases hlib : e.build.haveLibshare=true
  · simp only [pollFromShbuff,if_pos hlib,exec_bind,value_get,exec_get]
    by_cases hpool : c.sys.pool=true
    · simp only [if_pos hpool,exec_bind,exec_set]
      have hstart : Moved T c { c with sys := { c.sys with results := [] } } := .same rfl rfl rfl rfl
      apply (hstart.trans (cgiWorkResps_moved hr c.sys.results _)).trans
      simp only [pollCollect,exec_bind,value_getReq,exec_getReq,exec_onlyIf]
      split
      · exact Moved.enter hr _
      · exact .refl _
    · simp only [if_neg hpool]
      exact .refl c
  · simp only [pollFromShbuff,if_neg hlib]
    exact .refl c

theorem readFromShbuff_moved {T : Status → Prop} (e : Config) (h : T .dead) (h' : T .done)
    (hr : T .buffRead) (hw : T .buffWrite) : Rel (Moved T) (readFromShbuff e) := by
  intro c
  cases hb : c.req.buff with
  | some bs =>
    obtain ⟨bs',hw'⟩ :=
      readFromShbuff_works (S := (· ≠ .sanitize)) e h h' hr hw (fun h => by cases h) hb
    have hstart : Moved T c (c.withBuff (some bs')) := .same rfl rfl rfl rfl
    exact hstart.trans hw'.moved
  | none =>
    have hsame : exec (readFromShbuff e) c=c := by
      simp only [readFromShbuff]
      split
      · simp only [exec_bind,value_getReq,exec_getReq,hb,exec_pure]
      · rfl
    rw [hsame]
    exact .refl c

/-- What each handler can lead to. -/
theorem processStatus_moved (e : Config) (c : Conn) :
    Moved c.req.status.turnsTo c (exec (processStatus e) c) := by
  cases hr : c.req.status.reading with
  | true =>
    rw [(processStatus_reading e hr).2]
    exact readHeader_moved (.turns hr) c
  | false =>
    simp only [processStatus,exec_bind,value_getReq,exec_getReq]
    cases hs : c.req.status with
    | readHeader | oneCr | oneLf | twoCr =>
      rw [hs] at hr
      cases hr
    | bodyRead => exact (readBody_works e (by decide) (by decide) c).moved
    | bodyWrite =>
      have hl : Launches e (Worked Status.bodyWrite.turnsTo (· ≠ .sanitize)) :=
        worked_launches e (by decide) (by decide) (by decide) (fun h => by cases h)
          fun h => by cases h
      have hmark : ∀ file body,Works Status.bodyWrite.turnsTo (· ≠ .sanitize)
          (mark (.bodyDone file body)) := fun _ _ => Works.mark fun h => by cases h
      exact (writeBody_rel (worked_carries e (by decide)) hl postWrite_works hmark (by decide) c).moved
    | write =>
      exact (processGet_works e (by decide) (by decide) (fun h => by cases h)
        (fun _ _ h => by cases h) c).moved
    | ioshuffle =>
      dsimp only
      split
      · exact (ioShuffleSendfile_works e (by decide) (by decide) (fun h => by cases h)
          (fun _ _ h => by cases h) (fun h => by cases h) c).moved
      · exact (ioShuffle_works e (by decide) (by decide) (fun h => by cases h)
          (fun _ _ h => by cases h) c).moved
    | buffPoll => exact pollFromShbuff_moved e (by decide) c
    | buffRead => exact readFromShbuff_moved e (by decide) (by decide) (by decide) (by decide) c
    | buffWrite =>
      simp only [writeFromShbuff]
      split
      · exact (writeFrom_works (by decide) (by decide) c).moved
      · exact .refl c
    | pipeRead =>
      exact (readFromPipe_works e (by decide) (by decide) (by decide) (by decide)
        (fun h => by cases h) c).moved
    | pipeWrite => exact (writeFrom_works (by decide) (by decide) c).moved
    | done => exact (processDone_works e (by decide) c).moved
    | timedOut | dead => exact (processOver_works c).moved

/-- What a step of a connection comes to: it is still within its request, or has been recycled
for its next one. -/
inductive Stepped (T : Status → Prop) (c c' : Conn) : Prop where
  | within (h : Moved T c c')
  | recycled (c1 : Conn) (h : Moved T c c1) (hka : c1.req.keepsAlive=true)
      (hk : c'.req.kacount+1=c1.req.kacount) (hfd : c'.req.fd=c1.req.fd)
      (hs : c'.req.status=.readHeader)
      (ht : c'.trace=c1.trace++[⟨.sanitize,c1.req,c1.sys⟩])

theorem Stepped.after {T : Status → Prop} {c1 : Conn} (h : Stepped T c1 c') (h1 : Moved T c c1) :
    Stepped T c c' := by
  cases h with
  | within h => exact .within (h1.trans h)
  | recycled c2 h hka hk hfd hs ht => exact .recycled c2 (h1.trans h) hka hk hfd hs ht

theorem Stepped.imp {T T' : Status → Prop} (h : Stepped T c c') (ht : ∀ st,T st → T' st) :
    Stepped T' c c' := by
  cases h with
  | within h => exact .within (h.imp ht)
  | recycled c1 h hka hk hfd hs htr => exact .recycled c1 (h.imp ht) hka hk hfd hs htr

theorem Idled.moved {T : Status → Prop} (h : Idled c c') (hd : T .dead) : Moved T c c' :=
  (h.worked hd).moved

theorem freeFlush_moved {T : Status → Prop} (hd : T .dead) (hdone : c.req.status.over=false → T .done) :
    Moved T c (exec (freeFlush e) c) := by
  simp only [freeFlush,exec_bind,value_getReq,exec_getReq]
  by_cases hb : c.req.bufferEnd≠0 ∧ (!c.req.status.over)=true
  · have hover : c.req.status.over=false := by simpa using hb.2
    simp only [if_pos hb,exec_bind]
    have henter : Moved T c (exec (setStatus .done) c) := Moved.enter (hdone hover) c
    apply (henter.trans ((reqFlush_idles e _).moved hd)).trans
    split
    · exact Moved.enter hd _
    · exact .refl _
  · simp only [if_neg hb]
    exact .refl c

theorem finishFilter_moved {T : Status → Prop} (hd : T .dead) :
    Rel (Moved T) (finishFilter e) := by
  intro c
  simp only [finishFilter,exec_bind,value_getReq,exec_getReq]
  cases c.req.filter with
  | none => exact .refl c
  | some f =>
    have hmark : Moved T c (exec (mark .filterFlush) c) := Moved.mark (fun h => by cases h) c
    exact hmark.trans ((mimeFilterFlush_idles e f _).moved hd)

theorem closeConn_moved {T : Status → Prop} : Rel (Moved T) closeConn := by
  intro c
  by_cases h : c.req.method=.post
  · simp only [closeConn,exec_bind,value_getReq,exec_getReq,h,decide_true,exec_onlyIf,if_true,
      exec_sockRead,exec_setPlace]
    exact .same rfl rfl rfl rfl
  · simp only [closeConn,exec_bind,value_getReq,exec_getReq,decide_eq_false h,exec_onlyIf,
      Bool.false_eq_true,if_false,exec_setPlace]
    exact .same rfl rfl rfl rfl

/-- The connection is kept only while it may carry a further request. -/
theorem release_stepped {T : Status → Prop} (c : Conn) : Stepped T c (exec release c) := by
  obtain ⟨hr,-,-,ht⟩ := settled_outcome c
  have hreq : c.settled.req.status=c.req.status ∧ c.settled.req.fd=c.req.fd ∧
      c.settled.req.kacount=c.req.kacount := by
    rw [hr,Request.timedOut]
    split <;> exact ⟨rfl,rfl,rfl⟩
  have hsettled : Moved T c c.settled := .same hreq.1 hreq.2.1 hreq.2.2 ht
  rw [exec_release]
  by_cases hka : c.settled.req.keepsAlive=true
  · rw [if_pos hka]
    have hpos : 0 < c.settled.req.kacount := by
      have hall := hka
      simp only [Request.keepsAlive,Bool.and_eq_true,decide_eq_true_eq] at hall
      exact hall.2
    exact .recycled c.settled hsettled hka (Nat.sub_add_cancel hpos) rfl rfl rfl
  · rw [if_neg hka]
    exact .within (hsettled.trans (closeConn_moved _))

theorem freeRequest_stepped {T : Status → Prop} (hd : T .dead)
    (hdone : c.req.status.over=false → T .done) : Stepped T c (exec (freeRequest e) c) := by
  have hflush : Moved T c (exec (freeFlush e) c) := freeFlush_moved hd hdone
  simp only [freeRequest,exec_bind]
  split
  · exact .within hflush
  · exact ((release_stepped _).after (finishFilter_moved hd _)).after hflush

theorem settle_stepped {T : Status → Prop} (ret : Int) (hd : T .dead)
    (hdone : c.req.status.over=false → T .done) : Stepped T c (exec (settle e ret) c) := by
  simp only [settle,exec_bind,value_get,exec_get]
  have hka : Moved T c (exec (onlyIf c.sys.sigterm squashKa) c) ∧
      (exec (onlyIf c.sys.sigterm squashKa) c).req.status=c.req.status := by
    cases c.sys.sigterm
    · exact ⟨.refl c,rfl⟩
    · exact ⟨.same rfl rfl rfl rfl,rfl⟩
  generalize exec (onlyIf c.sys.sigterm squashKa) c = c0 at hka
  apply Stepped.after ?_ hka.1
  split_ifs
  · apply Stepped.within
    simp only [blockRequest,exec_bind,value_getReq,exec_getReq]
    cases ((exec (setPlace .block) c0).req.registration e).2 <;> exact .same rfl rfl rfl rfl
  · have htouch : Moved T c0 (exec touch c0) := .same rfl rfl rfl rfl
    have hfree : Stepped T (exec touch c0) (exec (freeRequest e) (exec touch c0)) :=
      freeRequest_stepped hd fun h => hdone (hka.2 ▸ h)
    exact hfree.after htouch
  · exact .within (.same rfl rfl rfl rfl)
  · exact .within (Moved.enter hd c0)

/-- A turn of `process_requests`. -/
theorem processRequest_stepped (e : Config) (c : Conn) :
    Stepped c.req.status.turnsTo c (exec (processRequest e) c) := by
  let T := c.req.status.turnsTo
  have hd : T .dead := ⟨c.req.status.leadsTo_dead.1,fun h => by cases h⟩
  have hdone : ∀ {c1 : Conn},c1.req.status∈c.req.status.leadsTo → c1.req.status.over=false →
      T .done := fun h hover =>
    ⟨Status.leadsTo_trans h (Status.leadsTo_done hover),fun h => by cases h⟩
  have hstatus : ∀ {c1 : Conn},Moved T c c1 → c1.req.status∈c.req.status.leadsTo := fun h =>
    h.status.elim (fun h => h ▸ c.req.status.leadsTo_self) And.left
  have htop : Moved T c (exec (topFlush e) c) := (topFlush_idles e c).moved hd
  rcases processRequest_run e c with ⟨-,hrun⟩|⟨-,hrun⟩
  · have hdisp : Moved T c (c.dispatched e) := (dispatched_idled e c).moved hd
    have hproc : Moved T (c.dispatched e) (exec (processStatus e) (c.dispatched e)) :=
      (processStatus_moved e _).imp fun st hst => Status.turnsTo_trans (hstatus hdisp) hst
    rw [hrun]
    exact (settle_stepped _ hd (hdone (hstatus (hdisp.trans hproc)))).after (hdisp.trans hproc)
  · rw [hrun]
    exact (settle_stepped _ hd (hdone (hstatus htop))).after htop

/-- A pass of `fdset_update`. -/
theorem select_moved (e : Config) (readyR readyW : Nat → Bool) (c : Conn) :
    Moved (· = .timedOut) c (exec (do
      selectFds readyR readyW
      fdsetUpdate e) c) := by
  rcases select_outcome e readyR readyW c with hw|⟨v,hv,hw⟩
  · exact .same (by rw [hw.req]) (by rw [hw.req]) (by rw [hw.req]) hw.trace
  · refine ⟨.inr (by rw [hw.req]),by rw [hw.req],by rw [hw.req],_,hw.trace,fun v' hmem => ?_⟩
    rw [List.mem_singleton.mp hmem,hv]
    exact fun h => by cases h

end Turns

end Crotalus
