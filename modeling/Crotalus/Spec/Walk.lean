import Crotalus.Server.Read
import Crotalus.Spec.Sys

namespace Crotalus

open Stateful

/-! What a response and its handlers do, for any relation between the state before and the
state after that their parts respect. -/

/-- The request without what an answer fills in. -/
def Request.bare (r : Request) : Request :=
  { r with
    keepalive := .inactive, responseStatus := 0, cgiType := .unset, pathname := none
    ranges := [], numranges := 0, filesize := 0, lastModified := 0, cgiEnvIndex := 0
    mime := none, headerIfrange := none, pathInfo := none, pathTranslated := none
    scriptName := none, queryString := none, requestUri := [], cgiEnv := fun _ => none }

/-- `R` does not look at what an answer fills in. -/
structure Fills (R : Conn → Conn → Prop) : Prop where
  refl (c : Conn) : R c c
  trans {c c' c'' : Conn} (h : R c c') (h' : R c' c'') : R c c''
  set {f : Request → Request} (h : ∀ r, (f r).bare = r.bare) : Rel R (modReq f)
  alloc : Rel R allocOk

/-- The parts of a response respect `R`. -/
structure Walks (e : Config) (R : Conn → Conn → Prop) : Prop extends Fills R where
  put (p : Piece) : Rel R (put p)
  flush : Rel R (reqFlush e)
  flushRaw : Rel R reqFlushRaw

/-- And so does the start of a program. -/
structure Launches (e : Config) (R : Conn → Conn → Prop) : Prop extends Walks e R where
  started (pipe : Nat) : Rel R (cgiStarted pipe)
  work : Rel R (initWorkCgi e)

/-- And so do the handlers of the MIME definitions. -/
structure Interprets (e : Config) (R : Conn → Conn → Prop) : Prop extends Launches e R where
  gzip : Rel R (mimeGetGzip e)

/-- And so do the parts of the responses from files. -/
structure Serves (e : Config) (R : Conn → Conn → Prop) : Prop extends Interprets e R where
  filter : Rel R (selectFilter e)
  decline : Rel R (do
    mark .handlerDeclined
    setStatus .write)
  initGet : Rel R (mark .initGet)
  dirmaker : Rel R (mark .dirmaker)
  mapped (fd : Nat) (f : File) : Rel R (do
    mark .serveFile
    mapFile fd f)
  complete : Rel R (completeResponse e)
  fill : Rel R (fillBuffer e)

/-- The static buffer of `init_script_alias` is of no concern to `R`. -/
structure Translates (e : Config) (R : Conn → Conn → Prop) : Prop extends Walks e R where
  script (m : Nat → Byte) : Rel R (setScriptPath m)

section Rules

variable {R : Conn → Conn → Prop} {α β : Type}

theorem Fills.pure (h : Fills R) (a : α) : Rel R (Pure.pure a : Srv α) := h.refl

theorem Fills.bind (h : Fills R) {m : Srv α} {f : α → Srv β} (hm : Rel R m)
    (hf : ∀ a, Rel R (f a)) : Rel R (m >>= f) :=
  fun c => h.trans (hm c) (hf _ _)

theorem Fills.returning (h : Fills R) {m : Srv α} (hm : Rel R m) (b : β) :
    Rel R (m >>= fun _ => Pure.pure b) := h.bind hm fun _ => h.pure b

theorem readReq_rel {f : Request → Srv α} (hf : ∀ r, Rel R (f r)) : Rel R (getReq >>= f) :=
  fun c => hf c.req c

theorem now_rel {f : Nat → Srv α} (hf : ∀ t, Rel R (f t)) : Rel R (now >>= f) :=
  fun c => hf c.sys.now c

theorem Fills.onlyIf (h : Fills R) {b : Bool} {m : Srv Unit} (hm : Rel R m) :
    Rel R (onlyIf b m) := by
  cases b with
  | true => exact hm
  | false => exact h.refl

/-- A field of the answer is filled in. -/
theorem Fills.setting (h : Fills R) {f : Request → Request} {m : Srv α}
    (hf : ∀ r, (f r).bare = r.bare) (hm : Rel R m) : Rel R (modReq f >>= fun _ => m) :=
  h.bind (h.set hf) fun _ => hm

end Rules

/-! The responses. -/

section Responses

variable {e : Config} {R : Conn → Conn → Prop}

theorem puts_rel (h : Walks e R) (ps : List Piece) : Rel R (puts ps) := by
  induction ps with
  | nil => exact h.pure _
  | cons p ps ih => exact h.bind (h.put p) fun _ => ih

theorem squashKa_rel (h : Fills R) : Rel R squashKa := h.set fun _ => rfl

/-- Most responses set their code, look at the clock and then at the request. -/
theorem respond_rel (h : Walks e R) {code : Nat} {m : Nat → Request → Srv Unit}
    (hm : ∀ t r, Rel R (m t r)) :
    Rel R (do
      modReq fun r => { r with responseStatus := code }
      let t ← now
      let r ← getReq
      m t r) :=
  h.setting (fun _ => rfl) <| now_rel fun t => readReq_rel fun r => hm t r

theorem reply_rel (h : Walks e R) (code : Nat) (reason : String)
    (fields body : Request → List Piece) : Rel R (reply e code reason fields body) := by
  refine h.bind (squashKa_rel h.toFills) fun _ => respond_rel h fun t r => ?_
  refine h.bind (h.onlyIf (puts_rel h _)) fun _ => h.bind (h.onlyIf (puts_rel h _)) fun _ => ?_
  exact h.returning h.flush _

theorem sendRError_rel (h : Walks e R) : Rel R (sendRError e) := reply_rel h _ _ _ _
theorem crotalusPerror_rel (h : Walks e R) : Rel R (crotalusPerror e) := sendRError_rel h
theorem sendRBadRequest_rel (h : Walks e R) : Rel R (sendRBadRequest e) := reply_rel h _ _ _ _
theorem sendRNotFound_rel (h : Walks e R) : Rel R (sendRNotFound e) := reply_rel h _ _ _ _
theorem sendRForbidden_rel (h : Walks e R) : Rel R (sendRForbidden e) := reply_rel h _ _ _ _
theorem sendRBadGateway_rel (h : Walks e R) : Rel R (sendRBadGateway e) := reply_rel h _ _ _ _
theorem sendRInvalidRange_rel (h : Walks e R) : Rel R (sendRInvalidRange e) := reply_rel h _ _ _ _

theorem sendRMovedTemp_rel (h : Walks e R) (u v w : Piece) : Rel R (sendRMovedTemp e u v w) :=
  reply_rel h _ _ _ _

theorem sendRMovedPerm_rel (h : Walks e R) (url : Text) : Rel R (sendRMovedPerm e url) :=
  reply_rel h _ _ _ _

theorem sendRServiceUnavailable_rel (h : Walks e R) : Rel R (sendRServiceUnavailable e) :=
  reply_rel h _ _ _ _

theorem sendRNotModified_rel (h : Walks e R) : Rel R (sendRNotModified e) := by
  refine h.bind (squashKa_rel h.toFills) fun _ => respond_rel h fun t r => ?_
  exact h.bind (puts_rel h _) fun _ => h.returning h.flushRaw _

theorem sendRNoContent_rel (h : Walks e R) : Rel R (sendRNoContent e) := by
  refine respond_rel h fun t r => ?_
  split
  · exact h.pure _
  · exact h.bind (puts_rel h _) fun _ => h.onlyIf (puts_rel h _)

theorem sendRPartialContent_rel (h : Walks e R) : Rel R (sendRPartialContent e) :=
  respond_rel h fun _ _ => puts_rel h _

theorem sendRNotImplemented_rel (h : Walks e R) : Rel R (sendRNotImplemented e) := by
  refine h.bind (squashKa_rel h.toFills) fun _ => respond_rel h fun t r => ?_
  refine h.bind (h.onlyIf (puts_rel h _)) fun _ => h.bind (puts_rel h _) fun _ => ?_
  exact h.returning h.flush _

theorem mimeHead_rel (h : Walks e R) (k : MimeHandler) : Rel R (mimeHead e k) := by
  have hline : Rel R (do
      let t ← now
      let r ← getReq
      puts (statusLine e t " 200 OK" r)) :=
    now_rel fun t => readReq_rel fun r => puts_rel h _
  cases k with
  | cgi => exact hline
  | php => exact hline
  | gzip =>
    refine now_rel fun t => readReq_rel fun r => h.bind (puts_rel h _) fun _ => ?_
    exact h.returning h.flush _

theorem mimeInterpHead_rel (h : Walks e R) (m : Mime) : Rel R (mimeInterpHead e m) := by
  refine h.setting (fun _ => rfl) <| readReq_rel fun r => ?_
  split
  · exact h.pure _
  · split
    · exact mimeHead_rel h _
    · exact now_rel fun t => h.bind (puts_rel h _) fun _ => h.returning h.flush _

theorem sendRRequestOk_rel (h : Walks e R) : Rel R (sendRRequestOk e) := by
  refine readReq_rel fun r => ?_
  split
  · exact mimeInterpHead_rel h _
  · refine respond_rel h fun t r => ?_
    split
    · exact h.pure _
    · refine h.bind (puts_rel h _) fun _ => ?_
      split
      · exact h.bind (puts_rel h _) fun _ => h.onlyIf (h.returning h.flushRaw _)
      · exact h.pure _

theorem badRequest_rel (h : Walks e R) : Rel R (badRequest e) :=
  h.returning (sendRBadRequest_rel h) _

end Responses

/-! The programs. -/

section Programs

variable {e : Config} {R : Conn → Conn → Prop}

theorem addCgiEnv_rel (h : Fills R) (key val : Text) (http : Bool) :
    Rel R (addCgiEnv key val http) := by
  refine readReq_rel fun r => ?_
  split
  · refine h.bind h.alloc fun _ => ?_
    split
    · exact h.setting (fun _ => rfl) (h.pure _)
    · exact h.pure _
  · exact h.pure _

theorem addCgiEnvs_rel (h : Fills R) (kvs : List (Text × Text)) : Rel R (addCgiEnvs kvs) := by
  induction kvs with
  | nil => exact h.pure _
  | cons kv kvs ih =>
    refine h.bind (addCgiEnv_rel h _ _ _) fun _ => ?_
    split
    · exact ih
    · exact h.pure _

theorem completeEnv_rel (h : Fills R) : Rel R (completeEnv e) := by
  refine h.setting (fun _ => rfl) <| readReq_rel fun r => h.bind (addCgiEnvs_rel h _) fun _ => ?_
  split
  · exact h.setting (fun _ => rfl) (h.pure _)
  · exact h.pure _

theorem forkCgi_rel (h : Launches e R) : Rel R (forkCgi e) := by
  refine Rel.read fun c => ?_
  split
  · exact h.pure _
  split
  · exact h.pure _
  split
  · exact h.returning (crotalusPerror_rel h.toWalks) _
  · exact h.started _

theorem initCgi_rel (h : Launches e R) : Rel R (initCgi e) := by
  refine h.bind (squashKa_rel h.toFills) fun _ => readReq_rel fun r => ?_
  split
  · exact h.work
  split
  · refine h.bind (completeEnv_rel h.toFills) fun _ => ?_
    split
    · exact forkCgi_rel h
    · exact h.pure _
  · exact forkCgi_rel h

theorem mimeGet_rel (h : Interprets e R) (k : MimeHandler) : Rel R (mimeGet e k) := by
  have hrun : ∀ f : Bool → Request → Request, (∀ ok r, (f ok r).bare = r.bare) → Rel R (do
      let ok ← allocOk
      modReq (f ok)
      initCgi e) := fun f hf =>
    h.bind h.alloc fun ok => h.setting (hf ok) (initCgi_rel h.toLaunches)
  cases k with
  | cgi => exact hrun _ fun _ _ => rfl
  | php => exact hrun _ fun _ _ => rfl
  | gzip => exact h.gzip

theorem mimeInterpRequest_rel (h : Interprets e R) : Rel R (mimeInterpRequest e) := by
  refine readReq_rel fun r => ?_
  split
  · exact mimeGet_rel h _
  · exact h.pure _

end Programs

/-! Files and directories. -/

section Files

variable {e : Config} {R : Conn → Conn → Prop}

theorem openPath_rel (h : Fills R) : Rel R (openPath e) := by
  refine Rel.read fun c => ?_
  dsimp only
  split
  · exact h.pure _
  split
  · split
    · exact h.setting (fun _ => rfl) (h.pure _)
    · exact h.pure _
  · exact h.pure _

theorem openFailed_rel (h : Walks e R) (err : Errno) : Rel R (openFailed e err) := by
  unfold openFailed
  split
  · exact sendRNotFound_rel h
  split
  · exact sendRForbidden_rel h
  · exact sendRBadRequest_rel h

theorem rangesFixup_rel (h : Walks e R) : Rel R (rangesFixup e) := by
  refine h.setting (fun _ => rfl) <| readReq_rel fun r => ?_
  split
  · exact h.returning (sendRInvalidRange_rel h) _
  · exact h.pure _

theorem serveHeader_rel (h : Walks e R) : Rel R (serveHeader e) := by
  refine readReq_rel fun r => ?_
  split
  · refine h.setting (fun _ => rfl) <| h.bind (rangesFixup_rel h) fun _ => ?_
    split
    · exact h.returning (sendRRequestOk_rel h) _
    · exact h.pure _
  · exact h.returning (sendRPartialContent_rel h) _

theorem serveFile_rel (h : Serves e R) (fd : Nat) (f : File) : Rel R (serveFile e fd f) := by
  have hserve : Rel R (do
      if ← serveHeader e then
        if (← getReq).method = .head then completeResponse e else fillBuffer e
      else return 0) := by
    refine h.bind (serveHeader_rel h.toWalks) fun _ => ?_
    split
    · refine readReq_rel fun r => ?_
      split
      · exact h.complete
      · exact h.fill
    · exact h.pure _
  exact fun c => h.trans (h.mapped fd f c) (hserve _)

theorem serveEmpty_rel (h : Walks e R) : Rel R (serveEmpty e) := by
  refine readReq_rel fun r => ?_
  dsimp only
  split
  · exact h.returning (sendRRequestOk_rel h) _
  · exact h.returning (sendRNoContent_rel h) _

theorem initGetFile_rel (h : Serves e R) (fd : Nat) (f : File) : Rel R (initGetFile e fd f) := by
  have hr := h.toWalks
  refine readReq_rel fun r => ?_
  split
  · exact h.returning (sendRBadRequest_rel hr) _
  split
  · exact h.returning (sendRNotModified_rel hr) _
  refine h.setting (fun _ => rfl) ?_
  split
  · exact serveEmpty_rel hr
  split
  · refine h.bind (rangesFixup_rel hr) fun _ => ?_
    split
    · exact serveFile_rel h fd f
    · exact h.pure _
  · exact serveFile_rel h fd f

theorem indexDirectory_rel (h : Walks e R) : Rel R (indexDirectory e) := by
  refine Rel.read fun c => ?_
  split
  · dsimp only
    split
    · exact h.returning (sendRForbidden_rel h) _
    · exact h.returning (sendRBadRequest_rel h) _
  · exact h.returning (sendRError_rel h) _
  · exact h.returning (crotalusPerror_rel h) _
  · exact h.setting (fun _ => rfl) (h.pure _)

theorem useIndex_rel (h : Fills R) (mtime fd : Nat) (f : File) :
    Rel R (useIndex e mtime fd f) := h.setting (fun _ => rfl) (h.pure _)

theorem makeCachedirFile_rel (h : Walks e R) (dir : File) : Rel R (makeCachedirFile e dir) := by
  refine h.bind (indexDirectory_rel h) fun _ => ?_
  split
  · refine Rel.read fun c => ?_
    split
    · exact useIndex_rel h.toFills _ _ _
    · exact h.returning (crotalusPerror_rel h) _
  · exact h.pure _

theorem getCachedirFile_rel (h : Walks e R) (cachedir : Text) (dir : File) :
    Rel R (getCachedirFile e cachedir dir) := by
  refine Rel.read fun c => ?_
  split
  · split
    · exact useIndex_rel h.toFills _ _ _
    · exact makeCachedirFile_rel h dir
  · exact makeCachedirFile_rel h dir

theorem dirmakerHeader_rel (h : Walks e R) : Rel R (dirmakerHeader e) :=
  now_rel fun _ => readReq_rel fun _ => h.bind (puts_rel h _) fun _ => h.returning h.flush _

theorem runDirmaker_rel (h : Serves e R) : Rel R (runDirmaker e) := by
  have hr := h.toWalks
  refine h.setting (fun _ => rfl) <| h.bind (squashKa_rel hr.toFills) fun _ => readReq_rel fun r => ?_
  refine h.bind (h.onlyIf (dirmakerHeader_rel hr)) fun _ => ?_
  split
  · exact h.pure _
  · exact h.bind h.dirmaker fun _ => initCgi_rel h.toLaunches

theorem listDirectory_rel (h : Serves e R) (dir : File) : Rel R (listDirectory e dir) := by
  unfold listDirectory
  split
  · exact h.bind (runDirmaker_rel h) fun _ => h.pure _
  split
  · exact getCachedirFile_rel h.toWalks _ dir
  · exact h.returning (sendRForbidden_rel h.toWalks) _

theorem getDir_rel (h : Serves e R) (dir : File) : Rel R (getDir e dir) := by
  refine Rel.read fun c => ?_
  dsimp only
  split
  · exact listDirectory_rel h dir
  split
  · exact h.returning (crotalusPerror_rel h.toWalks) _
  split
  · exact h.setting (fun _ => rfl) (h.pure _)
  · exact h.returning (sendRForbidden_rel h.toWalks) _
  · exact listDirectory_rel h dir
  · exact h.returning (sendRNotFound_rel h.toWalks) _

theorem portOk_rel (h : Fills R) : Rel R (portOk e) := by
  unfold portOk
  split
  · exact h.alloc
  · exact h.pure _

theorem redirectDir_rel (h : Walks e R) : Rel R (redirectDir e) := by
  refine readReq_rel fun r => h.bind (portOk_rel h.toFills) fun _ => ?_
  generalize (if e.serverPort ≠ 80 then [58] ++ simpleItoa e.serverPort else []) = port
  split
  · exact h.returning (crotalusPerror_rel h) _
  split
  · exact h.returning (crotalusPerror_rel h) _
  · exact h.returning (sendRMovedPerm_rel h _) _

theorem initGetDir_rel (h : Serves e R) (dir : File) : Rel R (initGetDir e dir) := by
  refine readReq_rel fun r => ?_
  split
  · exact redirectDir_rel h.toWalks
  refine h.bind (getDir_rel h dir) fun _ => ?_
  dsimp only
  split
  · exact h.pure _
  split
  · exact h.pure _
  · exact initGetFile_rel h _ _

theorem openGet_rel (h : Serves e R) : Rel R (openGet e) := by
  refine h.bind (openPath_rel h.toFills) fun _ => ?_
  split
  · exact h.returning (openFailed_rel h.toWalks _) _
  · refine readReq_rel fun r => ?_
    split
    · exact h.returning (sendRForbidden_rel h.toWalks) _
    split
    · exact initGetDir_rel h _
    · exact initGetFile_rel h _ _

theorem initGet_rel (h : Serves e R) : Rel R (initGet e) :=
  h.bind h.initGet fun _ => openGet_rel h

theorem startGet_rel (h : Serves e R) : Rel R (startGet e) :=
  h.bind h.filter fun _ c => h.trans (h.decline c) (initGet_rel h _)

theorem selectMime_rel (h : Fills R) : Rel R (selectMime e) := fun c =>
  h.set (f := fun r => { r with
    mime := c.req.mime.or (mimeInterpExtension e c.sys.stat (c.req.pathname.getD [])) })
    (fun _ => rfl) c

theorem answerGet_rel (h : Serves e R) : Rel R (answerGet e) := by
  refine h.bind (selectMime_rel h.toFills) fun _ => h.bind (mimeInterpRequest_rel h.toInterprets) fun _ => ?_
  split
  · exact h.pure _
  · exact startGet_rel h

end Files

/-! The way to the choice of the handler. -/

section Prepare

variable {e : Config} {R : Conn → Conn → Prop}

theorem decodeUri_rel (h : Walks e R) : Rel R (decodeUri e) := by
  refine readReq_rel fun r => ?_
  split
  · exact badRequest_rel h
  · refine h.setting (fun _ => rfl) ?_
    split
    · exact badRequest_rel h
    · exact h.pure _

theorem setTranslated_rel (h : Walks e R) (t : Text) : Rel R (setTranslated e t) := by
  refine h.bind h.alloc fun _ => ?_
  split
  · exact h.setting (fun _ => rfl) (h.pure _)
  · exact h.returning (crotalusPerror_rel h) _

theorem translatePathInfo_rel (h : Walks e R) (p : Text) : Rel R (translatePathInfo e p) := by
  unfold translatePathInfo
  split
  · split
    · exact h.returning (sendRBadRequest_rel h) _
    · exact setTranslated_rel h _
  split
  · split
    · exact setTranslated_rel h _
    · exact h.returning (sendRNotFound_rel h) _
  · exact setTranslated_rel h _
  · exact h.pure _

theorem takePathname_rel (h : Walks e R) : Rel R (takePathname e) := by
  refine h.bind h.alloc fun _ => ?_
  split
  · exact Rel.read fun c => h.setting (fun _ => rfl) (h.pure _)
  · exact h.returning (crotalusPerror_rel h) _

theorem scriptAtEnd_rel (h : Walks e R) : Rel R (scriptAtEnd e) := by
  refine Rel.read fun c => ?_
  dsimp only
  split
  · exact h.returning (sendRNotFound_rel h) _
  split
  · exact takePathname_rel h
  · exact h.returning (sendRForbidden_rel h) _

theorem scriptAtSlash_rel (h : Translates e R) (i : Nat) : Rel R (scriptAtSlash e i) := by
  have hr := h.toWalks
  refine Rel.read fun c => h.bind h.alloc fun _ => ?_
  split
  · refine h.setting (fun _ => rfl) <| h.bind (h.script _) fun _ => ?_
    refine h.bind (translatePathInfo_rel hr _) fun _ => ?_
    split
    · exact takePathname_rel hr
    · exact h.pure _
  · exact h.returning (crotalusPerror_rel hr) _

theorem initScriptAlias_rel (h : Translates e R) (a : Alias) : Rel R (initScriptAlias e a) := by
  have hr := h.toWalks
  refine Rel.read fun c => ?_
  dsimp only
  split
  · exact h.returning (sendRBadRequest_rel hr) _
  · refine h.setting (fun _ => rfl) <| h.bind (h.script _) fun _ => ?_
    split
    · exact h.returning (sendRNotFound_rel hr) _
    · exact h.returning (sendRForbidden_rel hr) _
    · refine h.bind h.alloc fun _ => ?_
      split
      · exact h.setting (fun _ => rfl) (scriptAtSlash_rel h _)
      · exact h.returning (crotalusPerror_rel hr) _
    · refine h.bind h.alloc fun _ => ?_
      split
      · exact h.setting (fun _ => rfl) (scriptAtEnd_rel hr)
      · exact h.returning (crotalusPerror_rel hr) _

theorem usePath_rel (h : Walks e R) (path : Text) {ok : Srv Int} (hok : Rel R ok) :
    Rel R (usePath e path ok) := by
  refine h.bind h.alloc fun _ => ?_
  split
  · exact h.setting (fun _ => rfl) hok
  · exact h.returning (crotalusPerror_rel h) _

theorem refusePost_rel (h : Walks e R) {ok : Srv Int} (hok : Rel R ok) :
    Rel R (refusePost e ok) := by
  refine readReq_rel fun r => ?_
  split
  · exact h.returning (sendRBadRequest_rel h) _
  · exact hok

theorem translateAlias_rel (h : Walks e R) (a : Alias) : Rel R (translateAlias e a) := by
  refine readReq_rel fun r => ?_
  dsimp only
  split
  · exact h.returning (sendRBadRequest_rel h) _
  split
  · exact refusePost_rel h (h.returning (sendRMovedTemp_rel h _ _ _) _)
  · exact usePath_rel h _ (h.pure _)

theorem translateUri_rel (h : Translates e R) : Rel R (translateUri e) := by
  have hr := h.toWalks
  refine readReq_rel fun r => ?_
  split
  · exact h.returning (sendRBadRequest_rel hr) _
  split
  · split
    · exact initScriptAlias_rel h _
    · exact translateAlias_rel hr _
  split
  · exact h.returning (sendRBadRequest_rel hr) _
  · exact h.returning (sendRNotFound_rel hr) _
  split
  · exact h.returning (sendRBadRequest_rel hr) _
  · exact usePath_rel hr _ (refusePost_rel hr (h.pure _))

end Prepare

end Crotalus
