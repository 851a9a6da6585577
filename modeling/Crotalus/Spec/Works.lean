import Crotalus.Spec.Walk
import Crotalus.Spec.Flush

namespace Crotalus

open Stateful

/-! What the handlers leave alone, the statuses they can set and the marked points of the
code they can pass. -/

/-- The visits between `c` and `c'` are of points that `S` allows. -/
def Passed (S : Site → Prop) (c c' : Conn) : Prop :=
  ∃ vs, c'.trace = c.trace ++ vs ∧ ∀ v ∈ vs, S v.site

section Passed

variable {S : Site → Prop} {c c' c'' : Conn}

theorem Passed.same (h : c'.trace = c.trace) : Passed S c c' :=
  ⟨[], by rw [h, List.append_nil], fun _ hv => absurd hv (List.not_mem_nil)⟩

theorem Passed.eq (h : Passed (fun _ => False) c c') : c'.trace = c.trace := by
  obtain ⟨vs, ht, hs⟩ := h
  have hnil : vs = [] := List.eq_nil_iff_forall_not_mem.mpr hs
  rw [ht, hnil, List.append_nil]

/-- In a run from the start the history tells. -/
theorem not_passed {site : Site} (h : c.trace = []) (hmem : site ∈ c'.trace.map (·.site))
    (hs : ¬S site) : ¬Passed S c c' := by
  rintro ⟨vs, ht, hall⟩
  rw [ht, h, List.nil_append] at hmem
  obtain ⟨v, hv, hvs⟩ := List.mem_map.mp hmem
  exact hs (hvs ▸ hall v hv)

theorem Passed.refl (c : Conn) : Passed S c c := .same rfl

theorem Passed.trans (h : Passed S c c') (h' : Passed S c' c'') : Passed S c c'' := by
  obtain ⟨vs, ht, hs⟩ := h
  obtain ⟨vs', ht', hs'⟩ := h'
  refine ⟨vs ++ vs', by rw [ht', ht, List.append_assoc], fun v hv => ?_⟩
  rcases List.mem_append.mp hv with hv | hv
  · exact hs v hv
  · exact hs' v hv

theorem Passed.mono {S' : Site → Prop} (h : Passed S c c') (hs : ∀ s, S s → S' s) :
    Passed S' c c' := by
  obtain ⟨vs, ht, hv⟩ := h
  exact ⟨vs, ht, fun v hmem => hs _ (hv v hmem)⟩

end Passed

/-- What belongs to the parser. -/
@[grind =] def Request.steady (r : Request) :
    Method × Version × Option Text × Text × Option Text × Nat × List Byte × Nat × Nat ×
      Option Text × Option (List Byte) :=
  (r.method, r.httpVersion, r.host, r.remoteIpAddr, r.logline, r.parsePos, r.clientStream, r.fd, r.kacount,
    r.contentLength, r.buff)

@[grind =] def Request.kept (r : Request) :
    Status × Method × Version × Option Text × Text × Option Text × Nat × List Byte × Nat × Nat ×
      Option Text × Option (List Byte) :=
  (r.status, r.steady)

/-- The parser's fields stay, the connection stays on its queue, the status stays or
becomes one that `T` allows, and the visits are of points that `S` allows. -/
structure Worked (T : Status → Prop) (S : Site → Prop) (c c' : Conn) : Prop where
  req : c'.req.steady = c.req.steady
  place : c'.place = c.place
  status : c'.req.status = c.req.status ∨ T c'.req.status
  passed : Passed S c c'

def Works {α : Type} (T : Status → Prop) (S : Site → Prop) (m : Srv α) : Prop :=
  Rel (Worked T S) m

/-- `T` and `S` allow what a response to a complete header can do. -/
structure Responding (T : Status → Prop) (S : Site → Prop) : Prop where
  dead : T .dead
  done : T .done
  ioshuffle : T .ioshuffle
  pipeRead : T .pipeRead
  buffPoll : T .buffPoll
  write : T .write
  completeResponse : S .completeResponse
  serveFile : S .serveFile
  startCgi : S .startCgi
  pushWork : S .pushWork
  gzip : S .gzip
  dirmaker : S .dirmaker
  initGet : S .initGet
  handlerDeclined : S .handlerDeclined
  fileAccess : ∀ off n, S (.fileAccess off n)

theorem Responding.all : Responding (fun _ => True) (fun _ => True) := by
  constructor <;> intros <;> trivial

attribute [grind →] Responding.dead Responding.done Responding.ioshuffle Responding.pipeRead
  Responding.buffPoll Responding.write Responding.completeResponse Responding.serveFile
  Responding.startCgi Responding.pushWork Responding.gzip Responding.dirmaker
  Responding.initGet Responding.handlerDeclined

section Rules

variable {T : Status → Prop} {S : Site → Prop} {c c' c'' : Conn}

theorem Worked.same (hr : c'.req.kept = c.req.kept) (hp : c'.place = c.place)
    (ht : c'.trace = c.trace) : Worked T S c c' := by
  obtain ⟨hs, hsteady⟩ := Prod.mk.inj hr
  exact ⟨hsteady, hp, .inl hs, .same ht⟩

theorem Worked.refl (c : Conn) : Worked T S c c := .same rfl rfl rfl

theorem Worked.trans (h : Worked T S c c') (h' : Worked T S c' c'') : Worked T S c c'' := by
  refine ⟨h'.req.trans h.req, h'.place.trans h.place, ?_, h.passed.trans h'.passed⟩
  rcases h'.status with hs | hs
  · rw [hs]
    exact h.status
  · exact .inr hs

@[grind ←]
theorem Works.bind {α β : Type} {m : Srv α} {f : α → Srv β} (hm : Works T S m)
    (hf : ∀ a, Returns m a → Works T S (f a)) : Works T S (m >>= f) :=
  Rel.seq (fun h => h.trans) hm hf

@[grind ←]
theorem Works.map {α β : Type} {m : Srv α} (f : α → β) (hm : Works T S m) :
    Works T S (f <$> m) := hm

@[grind ←] theorem Works.pure {α : Type} (a : α) : Works T S (Pure.pure a : Srv α) := .refl
@[grind ←] theorem Works.get : Works T S (MonadState.get : Srv Conn) := .refl
@[grind ←] theorem Works.getReq : Works T S getReq := .refl
@[grind ←] theorem Works.now : Works T S now := .refl

@[grind ←]
theorem Works.modReq {f : Request → Request} (h : ∀ r, (f r).kept = r.kept) :
    Works T S (modReq f) := by
  exact fun c => .same (h c.req) rfl rfl

@[grind ←]
theorem Works.setStatus {st : Status} (h : T st) : Works T S (setStatus st) :=
  fun _ => ⟨rfl, rfl, .inr h, .same rfl⟩

@[grind ←] theorem Works.squashKa : Works T S squashKa := .modReq fun _ => rfl

@[grind ←]
theorem Works.mark {site : Site} (h : S site) : Works T S (mark site) :=
  fun _ => ⟨rfl, rfl, .inl rfl, _, rfl, fun v hv => by rw [List.mem_singleton.mp hv]; exact h⟩

@[grind ←]
theorem Works.onlyIf {b : Bool} {m : Srv Unit} (h : Works T S m) : Works T S (onlyIf b m) := by
  cases b
  · exact .refl
  · exact h

theorem Works.returning {α β : Type} {m : Srv α} (hm : Works T S m) (b : β) :
    Works T S (m >>= fun _ => Pure.pure b) := hm.bind fun _ _ => .pure b

theorem Idled.worked (h : Idled c c') (ht : T .dead) : Worked T S c c' := by
  have hr : c'.req.core = c.req.core := (Prod.mk.inj h.core).1
  have hsteady : c'.req.core.steady = c.req.core.steady := by rw [hr]
  refine ⟨hsteady, h.place, ?_, .same h.trace⟩
  rcases h.status with hs | hs
  · exact .inl hs
  · rw [hs]
    exact .inr ht

theorem Idles.works {α : Type} {m : Srv α} (h : Idles m) (ht : T .dead) : Works T S m :=
  fun c => (h c).worked ht

end Rules

section Sys

variable {T : Status → Prop} {S : Site → Prop}

@[grind ←]
theorem sockWrite_works (bs : List Byte) : Works T S (sockWrite bs) := by
  intro c
  have hw := sockWrite_wrote bs c
  generalize value (sockWrite bs) c = v at hw
  generalize exec (sockWrite bs) c = c' at hw ⊢
  cases hw with
  | took n w d => exact .same rfl rfl rfl
  | failed err w d => exact .same rfl rfl rfl

@[grind ←]
theorem waitFor_works (fd : Nat) (d : Dir) (err : Errno) : Works T S (waitFor fd d err) := by
  intro c
  unfold waitFor
  split
  · exact .same rfl rfl rfl
  · exact .refl c

@[grind ←] theorem sockRead_works (k : Nat) : Works T S (sockRead k) := by
  intro c
  rw [exec_sockRead]
  exact .same rfl rfl rfl

@[grind ←] theorem pipeRead_works (k : Nat) : Works T S (pipeRead k) := by
  intro c
  rw [exec_pipeRead]
  exact .same rfl rfl rfl

@[grind ←] theorem fileRead_works (off k : Nat) : Works T S (fileRead off k) := by
  intro c
  have hr := fileRead_readFile off k c
  generalize value (fileRead off k) c = v at hr
  generalize exec (fileRead off k) c = c' at hr ⊢
  cases hr <;> exact .same rfl rfl rfl

@[grind ←]
theorem retryIntr_works {α : Type} {io : Srv (Except Errno α)} (h : Works T S io) (k : Nat) :
    Works T S (retryIntr io k) := by
  induction k with
  | zero => exact h
  | succ k ih =>
    refine .bind h fun res _ => ?_
    split
    · exact ih
    · exact .pure _

@[grind ←] theorem allocOk_works : Works T S allocOk := fun _ => .same rfl rfl rfl
@[grind ←] theorem seekOk_works : Works T S seekOk := fun _ => .same rfl rfl rfl
@[grind ←] theorem sigbus_works : Works T S sigbus := fun _ => .same rfl rfl rfl
@[grind ←]
theorem mimeFilterInit_works (f : FilterKind) : Works T S (mimeFilterInit f) := by
  cases f with
  | deflate => exact .bind allocOk_works fun _ _ => .modReq fun _ => rfl
  | gzip => exact .bind .get fun _ _ => .modReq fun _ => rfl

@[grind =] theorem Request.kept_taken (r : Request) (n : Nat) : (r.taken n).kept = r.kept := by
  unfold Request.taken
  split <;> rfl

@[grind ←] theorem reqFlush_works (h : T .dead) (e : Config) : Works T S (reqFlush e) :=
  (reqFlush_idles e).works h

@[grind ←] theorem reqFlushRaw_works (h : T .dead) : Works T S reqFlushRaw :=
  reqFlushRaw_idles.works h

@[grind =] theorem Request.kept_append (r : Request) (msg : Text) :
    (r.append msg).kept = r.kept := rfl

@[grind ←] theorem reqWrite_works (h : T .dead) (msg : Text) : Works T S (reqWrite msg) := by
  refine .bind .getReq fun r _ => ?_
  split
  · exact .pure _
  split
  · exact .bind (.setStatus h) fun _ _ => .pure _
  · exact .bind (.modReq fun r => r.kept_append msg) fun _ _ => .pure _

theorem reqWriteEscape_works (h : T .dead) (esc : Byte → Text) (guard : Nat) (msg : Text) :
    Works T S (reqWriteEscape esc guard msg) := by
  refine .bind .getReq fun r _ => ?_
  generalize escapeLoop esc guard (bufferSize - r.bufferEnd) msg = res
  refine .bind (.modReq fun r => r.kept_append res.1) fun _ _ => ?_
  split
  · exact .pure _
  · exact .bind (.setStatus h) fun _ _ => .pure _

theorem reqWriteEscapeAt_works (h : T .dead) (esc : Byte → Text) (guard off : Nat) :
    Works T S (reqWriteEscapeAt esc guard off) := by
  refine .bind .getReq fun r _ => ?_
  generalize escapeLoopAt esc guard bufferSize r.buffer r.bufferEnd off = res
  refine .bind (.modReq fun _ => rfl) fun _ _ => ?_
  split
  · exact .pure _
  · exact .bind (.setStatus h) fun _ _ => .pure _

theorem put_works (h : T .dead) (p : Piece) : Works T S (put p) := by
  cases p with
  | raw msg => exact .bind (reqWrite_works h msg) fun _ _ => .pure _
  | http msg => exact .bind (reqWriteEscape_works h _ _ msg) fun _ _ => .pure _
  | html msg => exact .bind (reqWriteEscape_works h _ _ msg) fun _ _ => .pure _
  | rawAt off => exact .bind (.bind .getReq fun r _ => reqWrite_works h _) fun _ _ => .pure _
  | httpAt off => exact .bind (reqWriteEscapeAt_works h _ _ off) fun _ _ => .pure _
  | htmlAt off => exact .bind (reqWriteEscapeAt_works h _ _ off) fun _ _ => .pure _

end Sys

/-! The walk through the handlers. -/

section Walk

variable {T : Status → Prop} {S : Site → Prop} (e : Config)

theorem Request.kept_bare {r r' : Request} (h : r'.bare = r.bare) : r'.kept = r.kept := by
  have hk : r'.bare.kept = r.bare.kept := congrArg Request.kept h
  exact hk

theorem worked_fills : Fills (Worked T S) where
  refl := Worked.refl
  trans := Worked.trans
  set hf := Works.modReq fun r => Request.kept_bare (hf r)
  alloc := allocOk_works

theorem worked_walks (h : T .dead) : Walks e (Worked T S) where
  toFills := worked_fills
  put p := put_works h p
  flush := reqFlush_works h e
  flushRaw := reqFlushRaw_works h

theorem worked_translates (h : T .dead) : Translates e (Worked T S) where
  toWalks := worked_walks e h
  script _ _ := .same rfl rfl rfl

@[grind ←] theorem puts_works (h : T .dead) (ps : List Piece) : Works T S (puts ps) :=
  puts_rel (worked_walks {} h) ps

@[grind ←]
theorem reply_works (h : T .dead) (code : Nat) (reason : String)
    (fields body : Request → List Piece) : Works T S (reply e code reason fields body) :=
  reply_rel (worked_walks e h) code reason fields body

@[grind ←] theorem sendRError_works (h : T .dead) : Works T S (sendRError e) :=
  reply_works e h _ _ _ _

@[grind ←] theorem crotalusPerror_works (h : T .dead) : Works T S (crotalusPerror e) :=
  sendRError_works e h

@[grind ←] theorem sendRBadRequest_works (h : T .dead) : Works T S (sendRBadRequest e) :=
  reply_works e h _ _ _ _

@[grind ←] theorem sendRForbidden_works (h : T .dead) : Works T S (sendRForbidden e) :=
  reply_works e h _ _ _ _

@[grind ←] theorem sendRBadGateway_works (h : T .dead) : Works T S (sendRBadGateway e) :=
  reply_works e h _ _ _ _

@[grind ←]
theorem sendRMovedTemp_works (h : T .dead) (u v w : Piece) :
    Works T S (sendRMovedTemp e u v w) :=
  reply_works e h _ _ _ _

@[grind ←] theorem sendRInvalidRange_works (h : T .dead) : Works T S (sendRInvalidRange e) :=
  reply_works e h _ _ _ _

theorem sendRNotModified_works (h : T .dead) : Works T S (sendRNotModified e) :=
  sendRNotModified_rel (worked_walks e h)

theorem sendRNotImplemented_works (h : T .dead) : Works T S (sendRNotImplemented e) :=
  sendRNotImplemented_rel (worked_walks e h)

@[grind ←] theorem sendRRequestOk_works (h : T .dead) : Works T S (sendRRequestOk e) :=
  sendRRequestOk_rel (worked_walks e h)

@[grind ←] theorem badRequest_works (h : T .dead) : Works T S (badRequest e) :=
  (sendRBadRequest_works e h).returning _

/-! Programs. -/

@[grind ←]
theorem addCgiEnv_works (key val : Text) (http : Bool) : Works T S (addCgiEnv key val http) :=
  addCgiEnv_rel worked_fills key val http

theorem completeEnv_works : Works T S (completeEnv e) := completeEnv_rel worked_fills

theorem cgiParent_works (h : T .pipeRead) (pipe : Nat) : Works T S (cgiParent pipe) := by
  refine .bind (.modReq fun r => ?_) fun _ _ => .bind .getReq fun r _ => ?_
  · split <;> rfl
  · split
    · exact .pure _
    · refine .bind (.modReq fun _ => rfl) fun _ _ => .bind (.setStatus h) fun _ _ => ?_
      refine .bind (.modReq fun _ => rfl) fun _ _ => .pure _

theorem cgiStarted_works (h : T .pipeRead) (hs : S .startCgi) (pipe : Nat) :
    Works T S (cgiStarted pipe) :=
  .bind (.mark hs) fun _ _ => cgiParent_works h pipe

theorem initWorkCgi_works (h' : T .buffPoll) (hs : S .pushWork) :
    Works T S (initWorkCgi e) := by
  refine .bind (completeEnv_works e) fun _ _ => .bind (.mark hs) fun _ _ => .bind .get fun c _ => ?_
  dsimp only
  split
  · exact .pure _
  · exact (Works.setStatus h').returning _

theorem worked_launches (h : T .dead) (h' : T .pipeRead) (h'' : T .buffPoll) (hs : S .startCgi)
    (hs' : S .pushWork) : Launches e (Worked T S) where
  toWalks := worked_walks e h
  started := cgiStarted_works h' hs
  work := initWorkCgi_works e h'' hs'

theorem initCgi_works (h : T .dead) (h' : T .pipeRead) (h'' : T .buffPoll) (hs : S .startCgi)
    (hs' : S .pushWork) : Works T S (initCgi e) :=
  initCgi_rel (worked_launches e h h' h'' hs hs')

theorem copyBlock_works (h : T .dead) (b : List Byte) : Works T S (copyBlock e b) :=
  .bind (.modReq fun _ => rfl) fun _ _ => (reqFlush_works h e).returning _

theorem gzipBlocks_works (h : T .dead) (hs : S .serveFile) (bs : List (List Byte)) :
    Works T S (gzipBlocks e bs) := by
  induction bs with
  | nil => exact .pure _
  | cons b bs ih =>
    unfold gzipBlocks
    split
    · exact .pure _
    · exact .bind (.bind (.mark hs) fun _ _ => copyBlock_works e h _) fun _ _ => ih

theorem mimeGetGzip_works (h : T .dead) (hs : S .serveFile) (hs' : S .gzip) :
    Works T S (mimeGetGzip e) := by
  refine .bind (.mark hs') fun _ _ => .bind .get fun c _ => ?_
  split
  · exact (sendRBadGateway_works e h).returning _
  · refine .bind (sendRRequestOk_works e h) fun _ _ => ?_
    exact (gzipBlocks_works e h hs _).returning _

/-! Files. -/

theorem resetOutputBuffer_works : Works T S resetOutputBuffer := .modReq fun _ => rfl

@[grind =] theorem Request.kept_moveStart (r : Request) (n : Nat) :
    (r.moveStart n).kept = r.kept := rfl

@[grind =] theorem Request.kept_counted (r : Request) (n : Nat) :
    (r.counted n).kept = r.kept := rfl

@[grind ←]
theorem completeResponse_works (h : T .dead) (h' : T .done) (hs : S .completeResponse) :
    Works T S (completeResponse e) := by
  refine .bind (.mark hs) fun _ _ => .bind (.modReq fun _ => rfl) fun _ _ => ?_
  refine .bind .getReq fun r _ => ?_
  split
  · split
    · exact (puts_works h _).returning _
    · refine .bind (puts_works h _) fun _ _ => .bind (.setStatus h') fun _ _ => ?_
      exact (reqFlush_works h e).returning _
  · exact (Works.setStatus h').returning _

theorem mapFile_works (h : T .ioshuffle) (fd : Nat) (f : File) : Works T S (mapFile fd f) := by
  refine .bind .get fun c _ => ?_
  split
  · exact .bind (.modReq fun _ => rfl) fun _ _ => .setStatus h
  · exact .modReq fun _ => rfl

theorem fillBuffer_works (h : T .dead) (h' : T .done) (hs : S .completeResponse)
    (ha : ∀ off n, S (.fileAccess off n)) : Works T S (fillBuffer e) := by
  refine .bind .getReq fun r _ => ?_
  dsimp only
  split
  · exact .pure _
  · split
    · exact .pure _
    · refine .bind (.mark (ha _ _)) fun _ _ => .bind sigbus_works fun b _ => ?_
      split
      · refine .bind resetOutputBuffer_works fun _ _ => ?_
        exact .bind (sendRError_works e h) fun _ _ => .pure _
      · refine .bind (.modReq fun r => ?_) fun _ _ => ?_
        · rw [Request.kept_moveStart, Request.kept_counted, Request.kept_append]
        · split
          · exact completeResponse_works e h h' hs
          · exact .pure _

theorem selectFilter_works : Works T S (selectFilter e) := by
  refine .bind (.modReq fun r => ?_) fun _ _ => .bind .getReq fun r _ => ?_
  · split <;> rfl
  · split
    · exact mimeFilterInit_works _
    · exact .pure _

theorem worked_interprets (h : T .dead) (h' : T .pipeRead) (h'' : T .buffPoll)
    (hs : S .startCgi) (hs' : S .pushWork) (hs'' : S .serveFile) (hg : S .gzip) :
    Interprets e (Worked T S) where
  toLaunches := worked_launches e h h' h'' hs hs'
  gzip := mimeGetGzip_works e h hs'' hg

theorem mimeInterpRequest_works (h : T .dead) (h' : T .pipeRead) (h'' : T .buffPoll)
    (hs : S .startCgi) (hs' : S .pushWork) (hs'' : S .serveFile) (hg : S .gzip) :
    Works T S (mimeInterpRequest e) :=
  mimeInterpRequest_rel (worked_interprets e h h' h'' hs hs' hs'' hg)

theorem worked_serves (h : Responding T S) : Serves e (Worked T S) where
  toInterprets := worked_interprets e h.dead h.pipeRead h.buffPoll h.startCgi h.pushWork
    h.serveFile h.gzip
  filter := selectFilter_works e
  decline := Works.bind (.mark h.handlerDeclined) fun _ _ => .setStatus h.write
  initGet := Works.mark h.initGet
  dirmaker := Works.mark h.dirmaker
  mapped fd f := Works.bind (.mark h.serveFile) fun _ _ => mapFile_works h.ioshuffle fd f
  complete := completeResponse_works e h.dead h.done h.completeResponse
  fill := fillBuffer_works e h.dead h.done h.completeResponse h.fileAccess

theorem openPath_works : Works T S (openPath e) := openPath_rel worked_fills

theorem openFailed_works (h : T .dead) (err : Errno) : Works T S (openFailed e err) :=
  openFailed_rel (worked_walks e h) err

theorem rangesFixup_works (h : T .dead) : Works T S (rangesFixup e) :=
  rangesFixup_rel (worked_walks e h)

theorem serveHeader_works (h : T .dead) : Works T S (serveHeader e) :=
  serveHeader_rel (worked_walks e h)

theorem serveEmpty_works (h : T .dead) : Works T S (serveEmpty e) :=
  serveEmpty_rel (worked_walks e h)

theorem openGet_works (h : Responding T S) : Works T S (openGet e) := openGet_rel (worked_serves e h)
theorem initGet_works (h : Responding T S) : Works T S (initGet e) := initGet_rel (worked_serves e h)

theorem startGet_works (h : Responding T S) : Works T S (startGet e) :=
  startGet_rel (worked_serves e h)

theorem answerGet_works (h : Responding T S) : Works T S (answerGet e) :=
  answerGet_rel (worked_serves e h)

end Walk

/-! The way to the choice of the handler. -/

section Prepare

variable {T : Status → Prop} {S : Site → Prop} (e : Config)

/-- Only the host changes. -/
def Conn.withHost (c : Conn) (host : Option Text) : Conn :=
  { c with req := { c.req with host := host } }

theorem Worked.withHost {c c' : Conn} (h : Worked T S c c') (host : Option Text) :
    Worked T S (c.withHost host) (c'.withHost host) := by
  refine ⟨?_, h.place, h.status, h.passed⟩
  have hr := h.req
  simp only [Request.steady, Prod.mk.injEq] at hr
  obtain ⟨hm, hv, -, hrest⟩ := hr
  simp only [Conn.withHost, Request.steady, Prod.mk.injEq]
  exact ⟨hm, hv, trivial, hrest⟩

theorem chooseHost_works (h : T .dead) (c : Conn) :
    ∃ host, Worked T S (c.withHost host) (exec (chooseHost e) c) := by
  by_cases hv : e.vhostRoot = none
  · simp only [chooseHost, if_pos hv, exec_pure]
    exact ⟨c.req.host, .refl c⟩
  · simp only [chooseHost, if_neg hv, exec_bind, value_getReq, exec_getReq]
    have ha : Worked T S c (exec allocOk c) := allocOk_works c
    generalize exec allocOk c = c1 at ha
    cases value allocOk c with
    | true =>
      let host := (strlower (c.req.headerHost.getD e.defaultVhost)).takeWhile (· ≠ 58)
      refine ⟨some host, (ha.withHost _).trans ?_⟩
      refine (?_ : Works T S (if checkHost host < 1 then badRequest e else pure true)) _
      split
      · exact badRequest_works e h
      · exact .pure _
    | false =>
      exact ⟨c.req.host, ha.trans ((sendRError_works e h).returning false c1)⟩

/-- Before the choice of the handler nothing changes that `steady` names, but the host. -/
theorem prepareRequest_works (h : T .dead) (c : Conn) :
    ∃ host, Worked T S (c.withHost host) (exec (prepareRequest e) c) := by
  simp only [prepareRequest, exec_bind, value_getReq, exec_getReq]
  by_cases hl : c.req.logline = none
  · simp only [if_pos hl]
    exact ⟨c.req.host, sendRError_works e h c⟩
  · simp only [if_neg hl, exec_bind]
    have hd : Worked T S c (exec (decodeUri e) c) := decodeUri_rel (worked_walks e h) c
    generalize exec (decodeUri e) c = c1 at hd
    cases value (decodeUri e) c with
    | false => exact ⟨c.req.host, hd⟩
    | true =>
      obtain ⟨host, hc⟩ := chooseHost_works (S := S) e h c1
      refine ⟨host, (hd.withHost host).trans (hc.trans ?_)⟩
      simp only [if_true, exec_bind]
      cases value (chooseHost e) c1 with
      | false => exact .refl _
      | true =>
        have ht : Works T S (do
            if (← translateUri e) = 0 then
              squashKa
              return false
            else return true) := by
          refine .bind (translateUri_rel (worked_translates e h)) fun _ _ => ?_
          split
          · exact Works.squashKa.returning _
          · exact .pure _
        exact ht _

theorem prepareRequest_passed (c : Conn) : Passed S c (exec (prepareRequest e) c) := by
  obtain ⟨host, hw⟩ := prepareRequest_works (T := fun _ => True) (S := S) e trivial c
  exact hw.passed

/-- The request with a new file for its body. -/
def Conn.posted (c : Conn) (fd : Nat) : Conn :=
  { c with postFile := [], req := { c.req with postDataFd := fd } }

theorem openPost_cases (h : T .dead) (c : Conn) :
    (∃ fd, fd ≠ 0 ∧ value (openPost e) c = 1 ∧ exec (openPost e) c = c.posted fd) ∨
      (value (openPost e) c = 0 ∧ Worked T S c (exec (openPost e) c)) := by
  simp only [openPost, value_bind, exec_bind, value_get, exec_get]
  by_cases hfd : c.sys.tmpfile.getD 0 = 0
  · simp only [if_pos hfd]
    exact .inr ⟨rfl, sendRError_works e h c⟩
  · simp only [if_neg hfd, value_bind, exec_bind]
    by_cases hx : c.sys.cloexec = true
    · simp only [if_pos hx]
      exact .inl ⟨_, hfd, rfl, rfl⟩
    · simp only [if_neg hx]
      refine .inr ⟨rfl, ?_⟩
      have hp : Worked T S c (c.posted (c.sys.tmpfile.getD 0)) := .same rfl rfl rfl
      have hr : Works T S (do
          crotalusPerror e
          modReq fun r => { r with postDataFd := 0 }
          return (0 : Int)) :=
        .bind (crotalusPerror_works e h) fun _ _ => .bind (.modReq fun _ => rfl) fun _ _ => .pure _
      exact hp.trans (hr _)

theorem openPost_passed (c : Conn) : Passed S c (exec (openPost e) c) := by
  rcases openPost_cases (T := fun _ => True) (S := S) e trivial c with
    ⟨fd, -, -, he⟩ | ⟨-, hw⟩
  · exact .same (by rw [he]; rfl)
  · exact hw.passed

end Prepare

end Crotalus
