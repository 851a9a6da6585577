import Crotalus.Framework.Blind
import Crotalus.Spec.ReadWalk

namespace Crotalus

open Stateful

/-! What the client has sent behind the bytes that are parsed is of no concern to the code that
looks at the lines of a header and answers the request. -/

/-- The request without the bytes that are not parsed yet; the end of the line in hand is
kept where `ends` says so. -/
def Request.parsed (ends : Bool) (r : Request) : Request :=
  { r with
    clientStream := r.clientStream.take r.parsePos
    headerEnd := if ends then r.headerEnd else 0 }

def World.parsed (w : World) : World := { w with recv := [] }

def Visit.parsed (v : Visit) : Visit := ⟨v.site, v.req.parsed true, v.sys.parsed⟩

/-- The connection without what it has not parsed, in its history too. -/
def Conn.parsed (ends : Bool) (c : Conn) : Conn :=
  { c with
    req := c.req.parsed ends
    sys := c.sys.parsed
    waits := none
    input := []
    body := []
    trace := c.trace.map Visit.parsed }

theorem Request.parsed_parsed (j k : Bool) (r : Request) :
    (r.parsed j).parsed k = r.parsed (j && k) := by
  have htake : (r.clientStream.take r.parsePos).take r.parsePos =
      r.clientStream.take r.parsePos := by
    rw [List.take_take, Nat.min_self]
  have hend : (if k then if j then r.headerEnd else 0 else 0) =
      if j && k then r.headerEnd else 0 := by
    cases k with
    | true => rw [Bool.and_true, if_pos rfl]
    | false => rw [Bool.and_false, if_neg Bool.false_ne_true, if_neg Bool.false_ne_true]
  exact congrArg₂ (fun s n => { r with clientStream := s, headerEnd := n }) htake hend

theorem Visit.parsed_parsed (v : Visit) : v.parsed.parsed = v.parsed :=
  congrArg (fun r => (⟨v.site, r, v.sys.parsed⟩ : Visit)) (v.req.parsed_parsed true true)

theorem Conn.parsed_parsed (j k : Bool) (c : Conn) : (c.parsed j).parsed k = c.parsed (j && k) := by
  have htrace : (c.trace.map Visit.parsed).map Visit.parsed = c.trace.map Visit.parsed := by
    rw [List.map_map]
    exact List.map_congr_left fun v _ => v.parsed_parsed
  exact congrArg₂ (fun r vs => { c.parsed k with req := r, trace := vs })
    (c.req.parsed_parsed j k) htrace

theorem Conn.parsed_self (k : Bool) (c : Conn) : (c.parsed k).parsed k = c.parsed k := by
  rw [c.parsed_parsed, Bool.and_self]

/-- The bytes of the client and how far they are parsed. -/
def Request.ahead (r : Request) : List Byte × Nat := (r.clientStream, r.parsePos)

def Conn.ahead (c : Conn) : List RecvRes × List Byte × Nat := (c.sys.recv, c.req.ahead)

/-- The program sees nothing behind the parsed bytes, and leaves them there. -/
abbrev Blinds {α : Type} (ends : Bool) (m : Srv α) : Prop :=
  Blind (Conn.parsed ends) Conn.ahead m

section Rules

variable {k : Bool} {α β : Type}

theorem Blinds.pure (a : α) : Blinds k (Pure.pure a : Srv α) :=
  Blind.pure (Conn.parsed_self k) a

theorem Blinds.commutes {m : Srv α} (h : ∀ c : Conn, value m (c.parsed k) = value m c ∧
    exec m (c.parsed k) = (exec m c).parsed k ∧ (exec m c).ahead = c.ahead) : Blinds k m :=
  Blind.of_commutes (Conn.parsed_self k) h

theorem Blinds.modify {f : Conn → Conn} (h : ∀ c : Conn, f (c.parsed k) = (f c).parsed k ∧
    (f c).ahead = c.ahead) : Blinds k (modify f : Srv Unit) := .commutes fun c => ⟨rfl, h c⟩

theorem Blinds.bind {m : Srv α} {f : α → Srv β} (hm : Blinds k m) (hf : ∀ a, Blinds k (f a)) :
    Blinds k (m >>= f) := Blind.bind hm hf

theorem Blinds.returning {m : Srv α} (hm : Blinds k m) (b : β) :
    Blinds k (m >>= fun _ => Pure.pure b) := hm.bind fun _ => .pure b

theorem Blinds.read {f : Conn → Srv α} (hf : ∀ c : Conn, f (c.parsed k) = f c)
    (h : ∀ c, Blinds k (f c)) : Blinds k (get >>= f) := Blind.read hf h

theorem Blinds.readReq {f : Request → Srv α} (hf : ∀ r : Request, f (r.parsed k) = f r)
    (h : ∀ r, Blinds k (f r)) : Blinds k (getReq >>= f) :=
  Blinds.read (fun c => hf c.req) fun c => h c.req

theorem Blinds.now {f : Nat → Srv α} (h : ∀ t, Blinds k (f t)) : Blinds k (now >>= f) :=
  Blinds.read (fun _ => rfl) fun c => h c.sys.now

/-- A change of the request keeps to what is parsed. -/
def Filling (k : Bool) (f : Request → Request) : Prop :=
  ∀ r : Request, f (r.parsed k) = (f r).parsed k ∧ (f r).ahead = r.ahead

theorem Blinds.modReq {f : Request → Request} (h : Filling k f) : Blinds k (modReq f) := by
  refine .commutes fun c => ⟨rfl, ?_, congrArg (Prod.mk c.sys.recv) (h c.req).2⟩
  change ({ c.parsed k with req := f (c.req.parsed k) } : Conn) =
    { c.parsed k with req := (f c.req).parsed k }
  rw [(h c.req).1]

/-- A field is filled in. -/
theorem Blinds.setting {f : Request → Request} {m : Srv α}
    (hf : Filling k f) (hm : Blinds k m) :
    Blinds k (Crotalus.modReq f >>= fun _ => m) := (Blinds.modReq hf).bind fun _ => hm

theorem Blinds.setStatus (st : Status) : Blinds k (setStatus st) :=
  .commutes fun _ => ⟨rfl, rfl, rfl⟩

theorem Blinds.mark (site : Site) : Blinds true (mark site) := by
  refine .commutes fun c => ?_
  let v : Visit := ⟨site, c.req, c.sys⟩
  have htrace : (c.trace ++ [v]).map Visit.parsed = c.trace.map Visit.parsed ++ [v.parsed] :=
    List.map_append
  exact ⟨rfl, congrArg (fun vs : List Visit => { c.parsed true with trace := vs }) htrace.symm, rfl⟩

theorem Blinds.ite {p : Prop} [Decidable p] {m n : Srv α} (hm : Blinds k m) (hn : Blinds k n) :
    Blinds k (if p then m else n) := Blind.ite hm hn

theorem Blinds.onlyIf {b : Bool} {m : Srv Unit} (hm : Blinds k m) : Blinds k (onlyIf b m) := by
  cases b with
  | true => exact hm
  | false => exact .pure _

theorem Blinds.alloc : Blinds k allocOk := .commutes fun _ => ⟨rfl, rfl, rfl⟩

theorem Blinds.sigbus : Blinds k sigbus := .commutes fun _ => ⟨rfl, rfl, rfl⟩

theorem Blinds.takeGz : Blinds k takeGz := .commutes fun _ => ⟨rfl, rfl, rfl⟩

/-- What a call waits for is history, and none of what has been parsed. -/
theorem waitFor_parsed (fd : Nat) (d : Dir) (err : Errno) (c : Conn) :
    (exec (waitFor fd d err) c).parsed k = c.parsed k := by
  unfold waitFor
  split
  · rfl
  · rfl

theorem waitFor_ahead (fd : Nat) (d : Dir) (err : Errno) (c : Conn) :
    (exec (waitFor fd d err) c).ahead = c.ahead := by
  unfold waitFor
  split
  · rfl
  · rfl

theorem Blinds.waitFor (fd : Nat) (d : Dir) (err : Errno) : Blinds k (waitFor fd d err) := by
  refine fun c => ⟨rfl, ?_, waitFor_ahead fd d err c⟩
  rw [waitFor_parsed, waitFor_parsed, c.parsed_self]

theorem Blinds.sockWrite (bs : List Byte) : Blinds k (sockWrite bs) := by
  intro c
  have hsock : (c.parsed k).sys.sock = c.sys.sock := rfl
  simp only [Crotalus.sockWrite, value_bind, exec_bind, value_get, exec_get, hsock]
  cases c.sys.sock with
  | nil => exact (Blinds.waitFor _ _ _).returning _ c
  | cons res rest =>
    cases res with
    | done n =>
      let c1 : Conn := { c with wire := c.wire ++ bs.take n, sys := { c.sys with sock := rest } }
      exact ⟨rfl, c1.parsed_self k, rfl⟩
    | fail err =>
      exact (Blinds.waitFor _ _ _).returning _ { c with sys := { c.sys with sock := rest } }

end Rules

/-! The responses. -/

section Responses

variable {e : Config} {k : Bool}

theorem append_blind (out : Text) : Blinds k (modReq fun r => r.append out) :=
  .modReq fun _ => ⟨rfl, rfl⟩

theorem reqWrite_blind (msg : Text) : Blinds k (reqWrite msg) := by
  refine .readReq (fun _ => rfl) fun r => .ite (.pure _) <| .ite ?_ ?_
  · exact (Blinds.setStatus _).returning _
  · exact (append_blind _).returning _

theorem reqWriteEscape_blind (esc : Byte → Text) (guard : Nat) (msg : Text) :
    Blinds k (reqWriteEscape esc guard msg) := by
  refine .readReq (fun _ => rfl) fun r => ?_
  refine (append_blind _).bind fun _ => .ite (.pure _) ?_
  exact (Blinds.setStatus _).returning _

theorem reqWriteEscapeAt_blind (esc : Byte → Text) (guard off : Nat) :
    Blinds k (reqWriteEscapeAt esc guard off) := by
  have hstore : ∀ res : (Nat → Byte) × Nat × Bool, Blinds k (do
      modReq fun r => { r with buffer := res.1, bufferEnd := res.2.1 }
      if res.2.2 then return (res.2.1 : Int)
      else
        setStatus .dead
        return -1) := fun res =>
    .setting (fun _ => ⟨rfl, rfl⟩) <| .ite (.pure _) ((Blinds.setStatus _).returning _)
  intro c
  have hbuffer : (c.parsed k).req.buffer = c.req.buffer := rfl
  have hend : (c.parsed k).req.bufferEnd = c.req.bufferEnd := rfl
  simp only [reqWriteEscapeAt, value_bind, exec_bind, value_getReq, exec_getReq, hbuffer, hend]
  generalize escapeLoopAt esc guard bufferSize c.req.buffer c.req.bufferEnd off = res
  exact hstore res c

theorem put_blind (p : Piece) : Blinds k (put p) := by
  cases p with
  | raw msg => exact (reqWrite_blind _).returning _
  | http msg => exact (reqWriteEscape_blind _ _ _).returning _
  | html msg => exact (reqWriteEscape_blind _ _ _).returning _
  | rawAt off => exact (Blinds.readReq (fun _ => rfl) fun r => reqWrite_blind _).returning _
  | httpAt off => exact (reqWriteEscapeAt_blind _ _ _).returning _
  | htmlAt off => exact (reqWriteEscapeAt_blind _ _ _).returning _

theorem puts_blind (ps : List Piece) : Blinds k (puts ps) := by
  induction ps with
  | nil => exact .pure _
  | cons p ps ih => exact (put_blind p).bind fun _ => ih

theorem chunkData_blind (w : List Byte) : Blinds k (chunkData w) :=
  .commutes fun _ => ⟨rfl, rfl, rfl⟩

theorem mimeFilterWriteChunk_blind (w : List Byte) : Blinds k (mimeFilterWriteChunk w) := by
  refine (Blinds.sockWrite _).bind fun res => ?_
  split
  · refine .ite (.pure _) <| (chunkData_blind w).bind fun _ => ?_
    refine (Blinds.sockWrite _).bind fun res => ?_
    split
    · exact .ite (.pure _) (.pure _)
    · exact .pure _
  · refine (chunkData_blind w).bind fun _ => (Blinds.sockWrite _).bind fun res => ?_
    split
    · exact .ite (.pure _) (.pure _)
    · exact .pure _

theorem writeChunks_blind (ws : List (List Byte)) : Blinds k (writeChunks ws) := by
  induction ws with
  | nil => exact .pure _
  | cons w ws ih => exact (mimeFilterWriteChunk_blind w).bind fun _ => ih

theorem forwardMem_blind (fl : List Byte) (len : Int) : Blinds k (forwardMem fl len) := by
  refine .readReq (fun _ => rfl) fun r => .ite (.pure _) ?_
  exact (writeChunks_blind _).bind fun _ => .modReq fun _ => ⟨rfl, rfl⟩

theorem mimeFilterWrite_blind (f : FilterKind) : Blinds k (mimeFilterWrite e f) := by
  cases f with
  | deflate =>
    refine .readReq (fun _ => rfl) fun r => .ite (.pure _) ?_
    split
    · exact .pure _
    · split
      · exact .pure _
      · exact .setting (fun _ => ⟨rfl, rfl⟩) ((writeChunks_blind _).returning _)
  | gzip =>
    refine .readReq (fun _ => rfl) fun r => ?_
    split
    · exact .pure _
    · refine Blinds.takeGz.bind fun res => .setting (fun _ => ⟨rfl, rfl⟩) <| .ite (.pure _) ?_
      exact (Blinds.onlyIf (forwardMem_blind _ _)).returning _

theorem flushed_blind (n : Nat) : Blinds k (flushed n) := by
  refine .setting (fun r => ?_) <| .readReq (fun _ => rfl) fun _ => .pure _
  by_cases h : r.bufferStart + n = r.bufferEnd
  · have h' : (r.parsed k).bufferStart + n = (r.parsed k).bufferEnd := h
    rw [Request.taken, Request.taken, if_pos h, if_pos h']
    exact ⟨rfl, rfl⟩
  · have h' : ¬(r.parsed k).bufferStart + n = (r.parsed k).bufferEnd := h
    rw [Request.taken, Request.taken, if_neg h, if_neg h']
    exact ⟨rfl, rfl⟩

theorem flushFailed_blind : Blinds k flushFailed :=
  .setting (fun _ => ⟨rfl, rfl⟩) ((Blinds.setStatus _).returning _)

theorem writePending_blind : Blinds k writePending :=
  .readReq (fun _ => rfl) fun _ => .ite (.pure _) (.sockWrite _)

theorem reqFlushRaw_blind : Blinds k reqFlushRaw := by
  refine .readReq (fun _ => rfl) fun r => .ite (.pure _) <| .ite (flushed_blind _) ?_
  refine writePending_blind.bind fun res => ?_
  split
  · exact flushed_blind _
  · exact .pure _
  · exact flushFailed_blind

theorem reqFlush_blind : Blinds k (reqFlush e) := by
  refine .readReq (fun _ => rfl) fun r => .ite (.pure _) <| .ite (flushed_blind _) ?_
  split
  · exact (mimeFilterWrite_blind _).bind fun n => .ite flushFailed_blind (flushed_blind _)
  · refine writePending_blind.bind fun res => ?_
    split
    · exact flushed_blind _
    · exact .pure _
    · exact flushFailed_blind

theorem squashKa_blind : Blinds k squashKa := .modReq fun _ => ⟨rfl, rfl⟩

/-- Most responses set their code, look at the clock and then at the request. -/
theorem respond_blind {code : Nat} {m : Nat → Request → Srv Unit}
    (hr : ∀ t (r : Request), m t (r.parsed k) = m t r) (hm : ∀ t r, Blinds k (m t r)) :
    Blinds k (do
      modReq fun r => { r with responseStatus := code }
      let t ← now
      let r ← getReq
      m t r) :=
  .setting (fun _ => ⟨rfl, rfl⟩) <| .now fun t => .readReq (hr t) fun r => hm t r

theorem reply_blind (code : Nat) (reason : String) (fields body : Request → List Piece)
    (hf : ∀ r : Request, fields (r.parsed k) = fields r)
    (hb : ∀ r : Request, body (r.parsed k) = body r) :
    Blinds k (reply e code reason fields body) := by
  refine squashKa_blind.bind fun _ => respond_blind (fun t r => ?_) fun t r => ?_
  · rw [hf, hb]
    rfl
  · refine (Blinds.onlyIf (puts_blind _)).bind fun _ => ?_
    exact (Blinds.onlyIf (puts_blind _)).bind fun _ => reqFlush_blind.returning _

theorem sendRError_blind : Blinds k (sendRError e) :=
  reply_blind _ _ _ _ (fun _ => rfl) fun _ => rfl

theorem crotalusPerror_blind : Blinds k (crotalusPerror e) := sendRError_blind

theorem sendRBadRequest_blind : Blinds k (sendRBadRequest e) :=
  reply_blind _ _ _ _ (fun _ => rfl) fun _ => rfl

theorem sendRNotFound_blind : Blinds k (sendRNotFound e) :=
  reply_blind _ _ _ _ (fun _ => rfl) fun _ => rfl

theorem sendRForbidden_blind : Blinds k (sendRForbidden e) :=
  reply_blind _ _ _ _ (fun _ => rfl) fun _ => rfl

theorem sendRBadGateway_blind : Blinds k (sendRBadGateway e) :=
  reply_blind _ _ _ _ (fun _ => rfl) fun _ => rfl

theorem sendRInvalidRange_blind : Blinds k (sendRInvalidRange e) :=
  reply_blind _ _ _ _ (fun _ => rfl) fun _ => rfl

theorem sendRMovedTemp_blind (u v w : Piece) : Blinds k (sendRMovedTemp e u v w) :=
  reply_blind _ _ _ _ (fun _ => rfl) fun _ => rfl

theorem sendRMovedPerm_blind (url : Text) : Blinds k (sendRMovedPerm e url) :=
  reply_blind _ _ _ _ (fun _ => rfl) fun _ => rfl

theorem sendRNotModified_blind : Blinds k (sendRNotModified e) := by
  refine squashKa_blind.bind fun _ => respond_blind (fun _ _ => rfl) fun t r => ?_
  exact (puts_blind _).bind fun _ => reqFlushRaw_blind.returning _

theorem sendRNoContent_blind : Blinds k (sendRNoContent e) := by
  refine respond_blind (fun _ _ => rfl) fun t r => .ite (.pure _) ?_
  exact (puts_blind _).bind fun _ => .onlyIf (puts_blind _)

theorem sendRPartialContent_blind : Blinds k (sendRPartialContent e) :=
  respond_blind (fun _ _ => rfl) fun _ _ => puts_blind _

theorem sendRNotImplemented_blind : Blinds k (sendRNotImplemented e) := by
  refine squashKa_blind.bind fun _ => respond_blind (fun _ _ => rfl) fun t r => ?_
  refine (Blinds.onlyIf (puts_blind _)).bind fun _ => ?_
  exact (puts_blind _).bind fun _ => reqFlush_blind.returning _

theorem mimeHead_blind (h : MimeHandler) : Blinds k (mimeHead e h) := by
  have hline : Blinds k (do
      let t ← now
      let r ← getReq
      puts (statusLine e t " 200 OK" r)) :=
    .now fun t => .readReq (fun _ => rfl) fun r => puts_blind _
  cases h with
  | cgi => exact hline
  | php => exact hline
  | gzip =>
    refine .now fun t => .readReq (fun _ => rfl) fun r => ?_
    exact (puts_blind _).bind fun _ => reqFlush_blind.returning _

theorem mimeInterpHead_blind (m : Mime) : Blinds k (mimeInterpHead e m) := by
  refine .setting (fun _ => ⟨rfl, rfl⟩) <| .readReq (fun _ => rfl) fun r => .ite (.pure _) ?_
  split
  · exact mimeHead_blind _
  · exact .now fun t => (puts_blind _).bind fun _ => reqFlush_blind.returning _

theorem sendRRequestOk_blind : Blinds k (sendRRequestOk e) := by
  refine .readReq (fun _ => rfl) fun r => ?_
  split
  · exact mimeInterpHead_blind _
  · refine respond_blind (fun _ _ => rfl) fun t r => .ite (.pure _) ?_
    refine (puts_blind _).bind fun _ => .ite ?_ (.pure _)
    exact (puts_blind _).bind fun _ => .onlyIf (reqFlushRaw_blind.returning _)

theorem badRequest_blind : Blinds k (badRequest e) := sendRBadRequest_blind.returning _

theorem completeResponse_blind : Blinds true (completeResponse e) := by
  refine (Blinds.mark _).bind fun _ => .setting (fun _ => ⟨rfl, rfl⟩) <|
    .readReq (fun _ => rfl) fun r => ?_
  refine .ite (.ite ((puts_blind _).returning _) ?_) ((Blinds.setStatus _).returning _)
  refine (puts_blind _).bind fun _ => (Blinds.setStatus _).bind fun _ => ?_
  exact reqFlush_blind.bind fun _ => .pure _

end Responses

/-! The programs. -/

section Programs

variable {e : Config}

theorem addCgiEnv_blind (key val : Text) (http : Bool) : Blinds true (addCgiEnv key val http) := by
  refine .readReq (fun _ => rfl) fun r => .ite (Blinds.alloc.bind fun ok => ?_) (.pure _)
  exact .ite (.setting (fun _ => ⟨rfl, rfl⟩) (.pure _)) (.pure _)

theorem addCgiEnvs_blind (kvs : List (Text × Text)) : Blinds true (addCgiEnvs kvs) := by
  induction kvs with
  | nil => exact .pure _
  | cons kv kvs ih => exact (addCgiEnv_blind _ _ _).bind fun _ => .ite ih (.pure _)

theorem completeEnv_blind : Blinds true (completeEnv e) := by
  refine .setting (fun _ => ⟨rfl, rfl⟩) <| .readReq (fun _ => rfl) fun r => ?_
  refine (addCgiEnvs_blind _).bind fun _ => .ite ?_ (.pure _)
  exact .setting (fun _ => ⟨rfl, rfl⟩) (.pure _)

theorem initWorkCgi_blind : Blinds true (initWorkCgi e) := by
  refine completeEnv_blind.bind fun _ => (Blinds.mark _).bind fun _ =>
    .read (fun _ => rfl) fun c => ?_
  exact .ite (.pure _) ((Blinds.setStatus _).returning _)

theorem cgiParent_blind (pipe : Nat) : Blinds true (cgiParent pipe) := by
  refine .setting (fun r => ?_) <| .readReq (fun _ => rfl) fun r => .ite (.pure _) ?_
  · by_cases h : r.method = .post
    · have h' : (r.parsed true).method = .post := h
      rw [if_pos h, if_pos h']
      exact ⟨rfl, rfl⟩
    · have h' : ¬(r.parsed true).method = .post := h
      rw [if_neg h, if_neg h']
      exact ⟨rfl, rfl⟩
  · refine .setting (fun _ => ⟨rfl, rfl⟩) <| (Blinds.setStatus _).bind fun _ => ?_
    exact .setting (fun _ => ⟨rfl, rfl⟩) (.pure _)

theorem cgiStarted_blind (pipe : Nat) : Blinds true (cgiStarted pipe) :=
  (Blinds.mark _).bind fun _ => cgiParent_blind _

theorem forkCgi_blind : Blinds true (forkCgi e) := by
  refine .read (fun _ => rfl) fun c => .ite (.pure _) <| .ite (.pure _) <| .ite ?_ ?_
  · exact crotalusPerror_blind.returning _
  · exact cgiStarted_blind _

theorem initCgi_blind : Blinds true (initCgi e) := by
  refine squashKa_blind.bind fun _ => .readReq (fun _ => rfl) fun r => ?_
  refine .ite initWorkCgi_blind <| .ite ?_ forkCgi_blind
  exact completeEnv_blind.bind fun _ => .ite forkCgi_blind (.pure _)

theorem gzipBlocks_blind (bs : List (List Byte)) : Blinds true (gzipBlocks e bs) := by
  induction bs with
  | nil => exact .pure _
  | cons b bs ih =>
    refine .ite (.pure _) <| Blinds.bind ?_ fun _ => ih
    refine (Blinds.mark _).bind fun _ => .setting (fun _ => ⟨rfl, rfl⟩) ?_
    exact reqFlush_blind.returning _

theorem mimeGetGzip_blind : Blinds true (mimeGetGzip e) := by
  refine (Blinds.mark _).bind fun _ => .read (fun _ => rfl) fun c => ?_
  split
  · exact sendRBadGateway_blind.returning _
  · exact sendRRequestOk_blind.bind fun _ => (gzipBlocks_blind _).returning _

theorem mimeGet_blind (h : MimeHandler) : Blinds true (mimeGet e h) := by
  cases h with
  | cgi => exact Blinds.alloc.bind fun ok => .setting (fun _ => ⟨rfl, rfl⟩) initCgi_blind
  | php => exact Blinds.alloc.bind fun ok => .setting (fun _ => ⟨rfl, rfl⟩) initCgi_blind
  | gzip => exact mimeGetGzip_blind

theorem mimeInterpRequest_blind : Blinds true (mimeInterpRequest e) := by
  refine .readReq (fun _ => rfl) fun r => ?_
  split
  · exact mimeGet_blind _
  · exact .pure _

end Programs

/-! Files and directories. -/

section Files

variable {e : Config}

theorem parentLoop_parsed (w : World) (n : Nat) (path : Text) :
    parentLoop e w.parsed n path = parentLoop e w n path := by
  induction n generalizing path with
  | zero => rfl
  | succ n ih =>
    have hopen : w.parsed.openFile = w.openFile := rfl
    simp only [parentLoop, hopen, ih]

theorem openPath_blind : Blinds true (openPath e) := by
  refine .read (fun c => ?_) fun c => ?_
  · have hparent : ∀ n path, parentLoop e (c.parsed true).sys n path = parentLoop e c.sys n path :=
      fun n path => parentLoop_parsed c.sys n path
    simp only [hparent]
    rfl
  · dsimp only
    split
    · exact .pure _
    · refine .ite ?_ (.pure _)
      split
      · exact .setting (fun _ => ⟨rfl, rfl⟩) (.pure _)
      · exact .pure _

theorem openFailed_blind (err : Errno) : Blinds true (openFailed e err) :=
  .ite sendRNotFound_blind <| .ite sendRForbidden_blind sendRBadRequest_blind

theorem rangesFixup_blind : Blinds true (rangesFixup e) := by
  refine .setting (fun _ => ⟨rfl, rfl⟩) <| .readReq (fun _ => rfl) fun r => .ite ?_ (.pure _)
  exact sendRInvalidRange_blind.returning _

theorem serveHeader_blind : Blinds true (serveHeader e) := by
  refine .readReq (fun _ => rfl) fun r => .ite ?_ (sendRPartialContent_blind.returning _)
  refine .setting (fun _ => ⟨rfl, rfl⟩) <| rangesFixup_blind.bind fun _ => .ite ?_ (.pure _)
  exact sendRRequestOk_blind.returning _

theorem mapFile_blind (fd : Nat) (f : File) : Blinds true (mapFile fd f) := by
  refine .read (fun _ => rfl) fun c => .ite ?_ (.modReq fun _ => ⟨rfl, rfl⟩)
  exact .setting (fun _ => ⟨rfl, rfl⟩) (.setStatus _)

theorem fillBuffer_blind : Blinds true (fillBuffer e) := by
  refine .readReq (fun _ => rfl) fun r => ?_
  dsimp only
  split
  · exact .pure _
  refine .ite (.pure _) <| (Blinds.mark _).bind fun _ => Blinds.sigbus.bind fun _ => .ite ?_ ?_
  · exact .setting (fun _ => ⟨rfl, rfl⟩) (sendRError_blind.returning _)
  · exact .setting (fun _ => ⟨rfl, rfl⟩) <| .ite completeResponse_blind (.pure _)

theorem serveFile_blind (fd : Nat) (f : File) : Blinds true (serveFile e fd f) := by
  refine (Blinds.mark _).bind fun _ => (mapFile_blind fd f).bind fun _ => ?_
  refine serveHeader_blind.bind fun _ => .ite (.readReq (fun _ => rfl) fun r => ?_) (.pure _)
  exact .ite completeResponse_blind fillBuffer_blind

theorem serveEmpty_blind : Blinds true (serveEmpty e) := by
  refine .readReq (fun _ => rfl) fun r => .ite ?_ ?_
  · exact sendRRequestOk_blind.returning _
  · exact sendRNoContent_blind.returning _

theorem initGetFile_blind (fd : Nat) (f : File) : Blinds true (initGetFile e fd f) := by
  refine .readReq (fun _ => rfl) fun r => .ite (sendRBadRequest_blind.returning _) <|
    .ite (sendRNotModified_blind.returning _) <| .setting (fun _ => ⟨rfl, rfl⟩) <|
    .ite serveEmpty_blind <| .ite ?_ (serveFile_blind fd f)
  exact rangesFixup_blind.bind fun _ => .ite (serveFile_blind fd f) (.pure _)

theorem indexDirectory_blind : Blinds true (indexDirectory e) := by
  refine .read (fun _ => rfl) fun c => ?_
  split
  · exact .ite (sendRForbidden_blind.returning _) (sendRBadRequest_blind.returning _)
  · exact sendRError_blind.returning _
  · exact crotalusPerror_blind.returning _
  · exact .setting (fun _ => ⟨rfl, rfl⟩) (.pure _)

theorem useIndex_blind (mtime fd : Nat) (f : File) : Blinds true (useIndex e mtime fd f) :=
  .setting (fun _ => ⟨rfl, rfl⟩) (.pure _)

theorem makeCachedirFile_blind (dir : File) : Blinds true (makeCachedirFile e dir) := by
  refine indexDirectory_blind.bind fun _ => .ite (.read (fun _ => rfl) fun c => ?_) (.pure _)
  split
  · exact useIndex_blind _ _ _
  · exact crotalusPerror_blind.returning _

theorem getCachedirFile_blind (cachedir : Text) (dir : File) :
    Blinds true (getCachedirFile e cachedir dir) := by
  refine .read (fun _ => rfl) fun c => ?_
  split
  · exact .ite (useIndex_blind _ _ _) (makeCachedirFile_blind dir)
  · exact makeCachedirFile_blind dir

theorem dirmakerHeader_blind : Blinds true (dirmakerHeader e) := by
  refine .now fun t => .readReq (fun _ => rfl) fun r => ?_
  exact (puts_blind _).bind fun _ => reqFlush_blind.returning _

theorem runDirmaker_blind : Blinds true (runDirmaker e) := by
  refine .setting (fun _ => ⟨rfl, rfl⟩) <| squashKa_blind.bind fun _ =>
    .readReq (fun _ => rfl) fun r => ?_
  refine (Blinds.onlyIf dirmakerHeader_blind).bind fun _ => .ite (.pure _) ?_
  exact (Blinds.mark _).bind fun _ => initCgi_blind

theorem listDirectory_blind (dir : File) : Blinds true (listDirectory e dir) := by
  refine .ite (runDirmaker_blind.bind fun _ => .pure _) ?_
  split
  · exact getCachedirFile_blind _ dir
  · exact sendRForbidden_blind.returning _

theorem getDir_blind (dir : File) : Blinds true (getDir e dir) := by
  refine .read (fun _ => rfl) fun c => ?_
  dsimp only
  split
  · exact listDirectory_blind dir
  refine .ite (crotalusPerror_blind.returning _) ?_
  split
  · exact .setting (fun _ => ⟨rfl, rfl⟩) (.pure _)
  · exact sendRForbidden_blind.returning _
  · exact listDirectory_blind dir
  · exact sendRNotFound_blind.returning _

theorem portOk_blind : Blinds true (portOk e) := .ite .alloc (.pure _)

theorem redirectDir_blind : Blinds true (redirectDir e) := by
  refine .readReq (fun _ => rfl) fun r => portOk_blind.bind fun _ => ?_
  refine .ite (crotalusPerror_blind.returning _) <| .ite (crotalusPerror_blind.returning _) ?_
  exact (sendRMovedPerm_blind _).returning _

theorem initGetDir_blind (dir : File) : Blinds true (initGetDir e dir) := by
  refine .readReq (fun _ => rfl) fun r => .ite redirectDir_blind ?_
  refine (getDir_blind dir).bind fun res => ?_
  exact .ite (.pure _) <| .ite (.pure _) (initGetFile_blind _ _)

theorem openGet_blind : Blinds true (openGet e) := by
  refine openPath_blind.bind fun res => ?_
  split
  · exact (openFailed_blind _).returning _
  · refine .readReq (fun _ => rfl) fun r => .ite (sendRForbidden_blind.returning _) ?_
    exact .ite (initGetDir_blind _) (initGetFile_blind _ _)

theorem selectFilter_blind : Blinds true (selectFilter e) := by
  refine .setting (fun r => ?_) <| .readReq (fun _ => rfl) fun r => ?_
  · by_cases h : r.encoding ≠ []
    · have h' : (r.parsed true).encoding ≠ [] := h
      rw [if_pos h, if_pos h']
      exact ⟨rfl, rfl⟩
    · have h' : ¬(r.parsed true).encoding ≠ [] := h
      rw [if_neg h, if_neg h']
      exact ⟨rfl, rfl⟩
  · split
    · rename_i f _
      cases f with
      | deflate => exact Blinds.alloc.bind fun ok => .modReq fun _ => ⟨rfl, rfl⟩
      | gzip => exact .read (fun _ => rfl) fun c => .modReq fun _ => ⟨rfl, rfl⟩
    · exact .pure _

theorem startGet_blind : Blinds true (startGet e) := by
  refine selectFilter_blind.bind fun _ => (Blinds.mark _).bind fun _ => ?_
  exact (Blinds.setStatus _).bind fun _ => (Blinds.mark _).bind fun _ => openGet_blind

theorem selectMime_blind : Blinds true (selectMime e) := .modify fun _ => ⟨rfl, rfl⟩

theorem answerGet_blind : Blinds true (answerGet e) := by
  refine selectMime_blind.bind fun _ => mimeInterpRequest_blind.bind fun _ => ?_
  exact .ite (.pure _) startGet_blind

end Files

/-! The way to the choice of the handler. -/

section Prepare

variable {e : Config}

theorem decodeUri_blind : Blinds true (decodeUri e) := by
  refine .readReq (fun _ => rfl) fun r => ?_
  split
  · exact badRequest_blind
  · exact .setting (fun _ => ⟨rfl, rfl⟩) <| .ite badRequest_blind (.pure _)

theorem setTranslated_blind (t : Text) : Blinds true (setTranslated e t) := by
  refine Blinds.alloc.bind fun _ => .ite (.setting (fun _ => ⟨rfl, rfl⟩) (.pure _)) ?_
  exact crotalusPerror_blind.returning _

theorem translatePathInfo_blind (p : Text) : Blinds true (translatePathInfo e p) := by
  unfold translatePathInfo
  split
  · exact .ite (sendRBadRequest_blind.returning _) (setTranslated_blind _)
  split
  · split
    · exact setTranslated_blind _
    · exact sendRNotFound_blind.returning _
  · exact setTranslated_blind _
  · exact .pure _

theorem takePathname_blind : Blinds true (takePathname e) := by
  refine Blinds.alloc.bind fun _ => .ite ?_ (crotalusPerror_blind.returning _)
  exact .read (fun _ => rfl) fun c => .setting (fun _ => ⟨rfl, rfl⟩) (.pure _)

theorem scriptAtEnd_blind : Blinds true (scriptAtEnd e) := by
  refine .read (fun _ => rfl) fun c => ?_
  dsimp only
  split
  · exact sendRNotFound_blind.returning _
  · exact .ite takePathname_blind (sendRForbidden_blind.returning _)

theorem setScriptPath_blind (m : Nat → Byte) : Blinds true (setScriptPath m) :=
  .modify fun _ => ⟨rfl, rfl⟩

theorem scriptAtSlash_blind (i : Nat) : Blinds true (scriptAtSlash e i) := by
  refine .read (fun _ => rfl) fun c => Blinds.alloc.bind fun _ => .ite ?_ ?_
  · refine .setting (fun _ => ⟨rfl, rfl⟩) <| (setScriptPath_blind _).bind fun _ => ?_
    exact (translatePathInfo_blind _).bind fun _ => .ite takePathname_blind (.pure _)
  · exact crotalusPerror_blind.returning _

theorem initScriptAlias_blind (a : Alias) : Blinds true (initScriptAlias e a) := by
  refine .read (fun _ => rfl) fun c => .ite (sendRBadRequest_blind.returning _) ?_
  refine .setting (fun _ => ⟨rfl, rfl⟩) <| (setScriptPath_blind _).bind fun _ => ?_
  split
  · exact sendRNotFound_blind.returning _
  · exact sendRForbidden_blind.returning _
  · refine Blinds.alloc.bind fun _ => .ite ?_ (crotalusPerror_blind.returning _)
    exact .setting (fun _ => ⟨rfl, rfl⟩) (scriptAtSlash_blind _)
  · refine Blinds.alloc.bind fun _ => .ite ?_ (crotalusPerror_blind.returning _)
    exact .setting (fun _ => ⟨rfl, rfl⟩) scriptAtEnd_blind

theorem usePath_blind (path : Text) {ok : Srv Int} (hok : Blinds true ok) :
    Blinds true (usePath e path ok) := by
  refine Blinds.alloc.bind fun _ => .ite (.setting (fun _ => ⟨rfl, rfl⟩) hok) ?_
  exact crotalusPerror_blind.returning _

theorem refusePost_blind {ok : Srv Int} (hok : Blinds true ok) : Blinds true (refusePost e ok) :=
  .readReq (fun _ => rfl) fun _ => .ite (sendRBadRequest_blind.returning _) hok

theorem translateAlias_blind (a : Alias) : Blinds true (translateAlias e a) := by
  refine .readReq (fun _ => rfl) fun r => .ite (sendRBadRequest_blind.returning _) <| .ite ?_ ?_
  · exact refusePost_blind ((sendRMovedTemp_blind _ _ _).returning _)
  · exact usePath_blind _ (.pure _)

theorem translateUri_blind : Blinds true (translateUri e) := by
  refine .readReq (fun _ => rfl) fun r => .ite (sendRBadRequest_blind.returning _) ?_
  split
  · exact .ite (initScriptAlias_blind _) (translateAlias_blind _)
  split
  · exact sendRBadRequest_blind.returning _
  · exact sendRNotFound_blind.returning _
  · exact .ite (sendRBadRequest_blind.returning _) (usePath_blind _ (refusePost_blind (.pure _)))

theorem chooseHost_blind : Blinds true (chooseHost e) := by
  refine .ite (.pure _) <| .readReq (fun _ => rfl) fun r => Blinds.alloc.bind fun _ => .ite ?_ ?_
  · exact .setting (fun _ => ⟨rfl, rfl⟩) <| .ite badRequest_blind (.pure _)
  · exact sendRError_blind.returning _

theorem prepareRequest_blind : Blinds true (prepareRequest e) := by
  refine .readReq (fun _ => rfl) fun r => .ite (sendRError_blind.returning _) ?_
  refine decodeUri_blind.bind fun _ => .ite ?_ (.pure _)
  refine chooseHost_blind.bind fun _ => .ite ?_ (.pure _)
  exact translateUri_blind.bind fun _ => .ite (squashKa_blind.returning _) (.pure _)

theorem openPost_blind : Blinds true (openPost e) := by
  refine .read (fun _ => rfl) fun c => .ite (sendRError_blind.returning _) ?_
  refine Blinds.bind (.modify fun _ => ⟨rfl, rfl⟩) fun _ => Blinds.ite (.pure _) ?_
  exact crotalusPerror_blind.bind fun _ => .setting (fun _ => ⟨rfl, rfl⟩) (.pure _)

theorem dispatchRequest_blind : Blinds true (dispatchRequest e) :=
  .readReq (fun _ => rfl) fun _ => .ite openPost_blind <| .ite initCgi_blind answerGet_blind

/-- The end of the header does not look behind it. -/
theorem endHeader_blind : Blinds true (endHeader e) :=
  (Blinds.mark _).bind fun _ => prepareRequest_blind.bind fun _ =>
    .ite dispatchRequest_blind (.pure _)

end Prepare

/-! The lines of the header. -/

section Lines

variable {e : Config}

theorem setVersion_blind (v : Version) : Blinds true (setVersion e v) := by
  refine .setting (fun _ => ⟨rfl, rfl⟩) <| .readReq (fun _ => rfl) fun r => .ite badRequest_blind ?_
  exact .setting (fun _ => ⟨rfl, rfl⟩) (.pure _)

theorem processLogline_blind (line : Text) : Blinds true (processLogline e line) := by
  refine (Blinds.mark _).bind fun _ => .setting (fun _ => ⟨rfl, rfl⟩) <| .ite badRequest_blind ?_
  split
  · exact sendRNotImplemented_blind.returning _
  · refine .setting (fun _ => ⟨rfl, rfl⟩) <| .ite badRequest_blind ?_
    split
    · exact badRequest_blind
    · refine .setting (fun _ => ⟨rfl, rfl⟩) ?_
      split
      · exact badRequest_blind
      · exact setVersion_blind _

theorem rangeParse_parsed (r : Request) (val : Text) :
    (r.parsed true).rangeParse val = ((r.rangeParse val).1.parsed true, (r.rangeParse val).2) := by
  unfold Request.rangeParse
  split
  · rfl
  · dsimp only
    cases rangeScan (val.drop 6) ⟨.initial, 0, 0, []⟩ with
    | none => rfl
    | some s => rfl

theorem rangeOption_blind (val : Text) : Blinds true (rangeOption e val) := by
  refine .readReq (fun r => ?_) fun r => .ite (.pure _) <| .setting (fun _ => ⟨rfl, rfl⟩) <|
    .ite (.pure _) ?_
  · rw [rangeParse_parsed]
    rfl
  · exact sendRInvalidRange_blind.returning _

theorem knownOption_blind (name val : Text) : Blinds true (knownOption e name val) := by
  have hset : ∀ (f : Request → Request), Filling true f →
      Blinds true (modReq f >>= fun _ => Pure.pure (some true)) := fun f hf => .setting hf (.pure _)
  refine .readReq (fun _ => rfl) fun r => ?_
  refine .ite (hset _ ?_) <| .ite (.pure _) <| .ite (hset _ ?_) <| .ite (hset _ ?_) <|
    .ite (hset _ ?_) <| .ite (hset _ ?_) <| .ite (hset _ ?_) <| .ite ?referer <|
    .ite (rangeOption_blind val) <| .ite ?agent (.pure _)
  case referer =>
    refine .setting (fun _ => ⟨rfl, rfl⟩) <| (addCgiEnv_blind _ _ _).bind fun _ => ?_
    exact .ite (.pure _) (.pure _)
  case agent => exact .setting (fun _ => ⟨rfl, rfl⟩) ((addCgiEnv_blind _ _ _).bind fun _ => .pure _)
  all_goals exact fun _ => ⟨rfl, rfl⟩

theorem processOptionLine_blind (line : Text) : Blinds true (processOptionLine e line) := by
  refine (Blinds.mark _).bind fun _ => ?_
  split
  · exact .pure _
  · refine .ite (.pure _) <| (knownOption_blind _ _).bind fun _ => ?_
    split
    · exact .pure _
    · exact addCgiEnv_blind _ _ _

end Lines

end Crotalus
