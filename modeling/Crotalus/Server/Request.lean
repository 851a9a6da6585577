import Crotalus.Server.Read
import Crotalus.Server.Select

namespace Crotalus

/-! The life of a request: `request.c`. -/

/-- What `memset` leaves: the fields from `fd` on, without the accepted encodings. -/
def Request.zeroed (r : Request) : Request :=
  { fd := r.fd, timeLast := r.timeLast, localIpAddr := r.localIpAddr,
    remoteIpAddr := r.remoteIpAddr, remotePort := r.remotePort, kacount := r.kacount,
    buffer := r.buffer, buff := r.buff, requestUri := r.requestUri,
    clientStream := r.clientStream, cgiEnv := r.cgiEnv, zlib := r.zlib, gzipFl := r.gzipFl,
    gzipOf := r.gzipOf }

/-- `sanitize_request`: a recycled request keeps the bytes it has not parsed. -/
def Request.sanitize (r : Request) : Request :=
  { r.zeroed with clientStream := r.clientStream.drop r.parsePos }

def Request.sanitizeNew (e : Config) (now : Nat) (r : Request) : Request :=
  { r.zeroed with clientStream := [], kacount := e.kaMax, timeLast := now }

/-- `accept` gave a connection its struct: a new one or one from the free list. -/
def acceptConn (e : Config) (now fd : Nat) (localIp remoteIp : Text) (port : Nat) (c : Conn) :
    Conn :=
  { c with
    req := { c.req.sanitizeNew e now with
      fd := fd, localIpAddr := localIp, remoteIpAddr := remoteIp, remotePort := port }
    wire := []
    place := .ready
    died := none
    input := []
    trace := c.trace ++ [⟨.sanitize, c.req, c.sys⟩] }

/-- The end of `get_request` when there are too many connections. -/
def refuseConn (e : Config) : Srv Unit := do
  modReq fun r => { r with httpVersion := .http10, method := .get }
  sendRServiceUnavailable e
  mark .serviceUnavailable
  setStatus .done

/-- A connection as `get_request` leaves it on the ready queue: its struct may have served
others before. -/
def Accepted (e : Config) (c : Conn) : Prop :=
  ∃ (c0 : Conn) (now fd : Nat) (localIp remoteIp : Text) (port : Nat),
    c = acceptConn e now fd localIp remoteIp port c0 ∨
      c = Stateful.exec (refuseConn e) (acceptConn e now fd localIp remoteIp port c0)

/-! `free_request`. -/

/-- The flush at the start; the flag says that bytes are left and the request stays. -/
def freeFlush (e : Config) : Srv Bool := do
  let r ← getReq
  if r.bufferEnd ≠ 0 ∧ !r.status.over then
    setStatus .done
    let i ← reqFlush e
    if i = -2 then
      setStatus .dead
      return false
    else return i > 0
  else return false

/-- Does the connection stay open for a further request? -/
def Request.keepsAlive (r : Request) : Bool :=
  !r.status.over && r.keepalive = .active && r.responseStatus < 500 && r.responseStatus ≠ 0 &&
    r.kacount > 0

def recycle : Srv Unit := do
  mark .sanitize
  modify fun c => { c with
    req := { c.req.sanitize with kacount := c.req.kacount - 1 }
    place := .block
    died := none }
  let fd := (← getReq).fd
  fdSet fd .read
  fdClr fd .write

def closeConn : Srv Unit := do
  let r ← getReq
  onlyIf (r.method = .post) (do let _ ← sockRead 32768)
  fdClr r.fd .read
  fdClr r.fd .write
  setPlace .free

/-- The end of the filter's stream. -/
def finishFilter (e : Config) : Srv Unit := do
  match (← getReq).filter with
  | some f =>
    mark .filterFlush
    mimeFilterFlush e f
  | none => pure ()

/-- A request that ran out of time before it had a response is logged as 408. -/
def Request.timedOut (r : Request) : Request :=
  if r.status = .timedOut ∧ r.responseStatus = 0 then { r with responseStatus := 408 } else r

/-- The request leaves the ready queue, and its connection is kept or closed. -/
def release : Srv Unit := do
  modReq fun r => { r.timedOut with ranges := [] }
  let r ← getReq
  onlyIf (r.dataFd ≠ 0) (fdClr r.dataFd .read)
  onlyIf (r.postDataFd ≠ 0) (fdClr r.postDataFd .write)
  if r.keepsAlive then recycle else closeConn

/-- Everything that follows the flush. -/
def dispose (e : Config) : Srv Unit := do
  finishFilter e
  release

def freeRequest (e : Config) : Srv Unit := do
  if ← freeFlush e then pure () else dispose e

/-! `process_requests`, for one request. -/

/-- The flush before the switch. -/
def topFlush (e : Config) : Srv Int := do
  let r ← getReq
  if r.bufferEnd ≠ 0 ∧ !r.status.over then
    let i ← reqFlush e
    if i = -2 then
      setStatus .dead
      return 0
    else if i ≥ 0 then return 1
    else return i
  else return 1

def processDone (e : Config) : Srv Int := do
  let i ← reqFlush e
  if i = -2 then
    setStatus .dead
    return 0
  else if i > 0 then return 1
  else return i

def processOver : Srv Int := do
  modReq fun r => { r with bufferEnd := 0 }
  squashKa
  return 0

def processStatus (e : Config) : Srv Int := do
  match (← getReq).status with
  | .readHeader | .oneCr | .oneLf | .twoCr => readHeader e
  | .bodyRead => readBody e
  | .bodyWrite => writeBody e
  | .write => processGet e
  | .buffPoll => pollFromShbuff e
  | .buffRead => readFromShbuff e
  | .buffWrite => writeFromShbuff e
  | .pipeRead => readFromPipe e
  | .pipeWrite => writeFromPipe
  | .ioshuffle => if e.build.haveSendfile then ioShuffleSendfile e else ioShuffle e
  | .done => processDone e
  | .timedOut | .dead => processOver

def touch : Srv Unit := modify fun c => { c with req := { c.req with timeLast := c.sys.now } }

/-- What becomes of the request after a turn that returned `ret`. -/
def settle (e : Config) (ret : Int) : Srv Unit := do
  onlyIf ((← get).sys.sigterm) squashKa
  if ret = -1 then blockRequest e
  else if ret = 0 then
    touch
    freeRequest e
  else if ret = 1 then touch
  else setStatus .dead

/-- History only: what the flush has waited for is not what the handler waits for. -/
def forgetWait : Srv Unit := modify fun c => { c with waits := none }

def processRequest (e : Config) : Srv Unit := do
  let ret ← topFlush e
  if ret = 1 then
    forgetWait
    let ret ← processStatus e
    settle e ret
  else settle e ret

/-! A connection over time. -/

/-- What happens to a connection: a turn of `process_requests`, a pass of `fdset_update`
behind `select`, results of workers that name its descriptor. -/
inductive Ev where
  | process (w : World)
  | select (w : World) (readyR readyW : Nat → Bool)
  | results (rs : List (Int × List Byte))

open Stateful in
def step (e : Config) (c : Conn) : Ev → Conn
  | .process w =>
    if c.place = .ready then exec (processRequest e) { c with sys := w, waits := none } else c
  | .select w readyR readyW =>
    if c.place = .block then
      exec (do
        selectFds readyR readyW
        fdsetUpdate e) { c with sys := w }
    else c
  | .results rs => exec (cgiWorkResps rs) c

end Crotalus
