import Crotalus.Server.CgiHeader

namespace Crotalus

open ByteMem Stateful

/-! `pipe.c` and `shbuff.c`. -/

/-- `write_from_pipe` and `write_from_shbuff`, which differ in the status for reading on. -/
def writeFrom (readStatus : Status) : Srv Int := do
  let r ← getReq
  let n := r.headerEnd - r.headerLine
  if n = 0 then
    if r.cgiStatus = .done then return 0
    else
      setStatus readStatus
      modReq fun r => { r with headerLine := 0, headerEnd := 0 }
      return 1
  else
    match ← sockWrite (slice r.buffer r.headerLine n) with
    | .error .again => return -1
    | .error .intr => return 1
    | .error _ =>
      setStatus .dead
      return 0
    | .ok k =>
      modReq fun r => { r with
        headerLine := r.headerLine + k
        bytesWritten := r.bytesWritten + k }
      if k = n then
        setStatus readStatus
        modReq fun r => { r with headerLine := 0, headerEnd := 0 }
        return 1
      else return 1

def writeFromPipe : Srv Int := writeFrom .pipeRead

def writeFromShbuff (e : Config) : Srv Int :=
  if e.build.haveLibshare then writeFrom .buffRead else return 0

/-- Room behind `header_end`, the byte for the final NUL included. -/
def Request.bytesToRead (r : Request) : Nat := u32 (bufferSize + 2^32 + 1 - r.headerEnd)

/-- The buffer is full. -/
def readFull (e : Config) (writeStatus : Status) : Srv Int := do
  let r ← getReq
  if r.cgiStatus = .parse then
    modReq fun r => { r with cgiStatus := .buffer }
    poke r.headerEnd [0]
    processCgiHeader e
  else
    setStatus writeStatus
    return 1

/-- What follows a read that returned the bytes `bs`. -/
def readDone (e : Config) (writeStatus readStatus : Status) (bs : List Byte) : Srv Int := do
  let r ← getReq
  poke r.headerEnd (bs ++ [0])
  if bs = [] then
    setStatus writeStatus
    modReq fun r => { r with cgiStatus := .done }
    if r.cgiStatus = .parse then processCgiHeader e else return 1
  else
    modReq fun r => { r with headerEnd := r.headerEnd + bs.length }
    if r.cgiStatus ≠ .parse then writeFrom readStatus
    else if (blankLine ((← getReq).strAt r.headerLine)).isNone then return 1
    else
      modReq fun r => { r with cgiStatus := .done }
      processCgiHeader e

def readFromPipe (e : Config) : Srv Int := do
  let r ← getReq
  if r.bytesToRead = 0 then readFull e .pipeWrite
  else
    match ← pipeRead r.bytesToRead with
    | .error .intr => return 1
    | .error .again => return -1
    | .error _ =>
      setStatus .dead
      return 0
    | .ok bs => readDone e .pipeWrite .pipeRead bs

def readFromShbuff (e : Config) : Srv Int := do
  if e.build.haveLibshare then
    let r ← getReq
    match r.buff with
    | none => return -1
    | some bs =>
      if r.bytesToRead = 0 then readFull e .buffWrite
      else
        modReq fun r => { r with buff := some (bs.drop r.bytesToRead) }
        readDone e .buffWrite .buffRead (bs.take r.bytesToRead)
  else return 0

/-- `cgi_work_resp` for the request it found. -/
def cgiWorkResp (err : Int) (data : List Byte) : Srv Unit := do
  if err ≠ 0 then pure ()
  else
    mark .workResp
    modReq fun r => { r with
      postDataFd := if r.method = .post then 0 else r.postDataFd
      buff := some (r.buff.getD [] ++ data) }
    setStatus .buffRead
    modReq fun r =>
      let half := if r.cgiType = .exec then bufferSize / 2 else 0
      { r with
        cgiStatus := if r.cgiType = .exec then .parse else .buffer
        headerArea := .buffer
        headerLine := half
        headerEnd := half
        filepos := 0 }

def cgiWorkResps : List (Int × List Byte) → Srv Unit
  | [] => pure ()
  | (err, data) :: rs => do
    cgiWorkResp err data
    cgiWorkResps rs

/-- `find_request_by_fd`: the position among all requests, of which those on the ready queue
come first, then the blocked and then the free ones. -/
def findRequestByFd (fd : Int) (cs : List Conn) : Option Nat :=
  let on := fun (q : Place) => cs.findIdx? fun c => c.place = q ∧ (c.req.fd : Int) = fd
  ((on .ready).or (on .block)).or (on .free)

/-- The descriptor at the start of a worker's answer, a `uint32_t` passed on as an `int`. -/
def workFd (buff : List Byte) : Int :=
  i32 (u32 ((buff.take 4).foldr (fun b n => b.toNat + 256 * n) 0))

/-- `cgi_work_resp` among all requests. -/
def cgiWorkRespAmong (err : Int) (buff : List Byte) (cs : List Conn) : List Conn :=
  if err ≠ 0 then cs
  else
    match findRequestByFd (workFd buff) cs with
    | none => cs
    | some i => cs.modify i (exec (cgiWorkResp err (buff.drop 4)))

/-- What `poll_from_shbuff` does once `shproc_poll` has delivered the results it had. -/
def pollCollect : Srv Int := do
  onlyIf ((← getReq).buff.getD [] ≠ []) (setStatus .buffRead)
  return 1

/-- Here the results are those of workers that name this connection. -/
def pollFromShbuff (e : Config) : Srv Int := do
  if e.build.haveLibshare then
    let c ← get
    if c.sys.pool then
      set { c with sys := { c.sys with results := [] } }
      cgiWorkResps c.sys.results
      pollCollect
    else return 0
  else return 0

def ioShuffleSendfile (e : Config) : Srv Int := do
  let c ← get
  let r := c.req
  if r.method = .head then completeResponse e
  else
    let n := min (u64 (r.range.stop + 2^64 - r.range.start + 1)) e.systemBufsize
    if n = 0 then
      if u64 (r.range.stop + 1) ≤ r.range.start then completeResponse e else return 1
    else if r.range.start ≥ 2^63 then
      setStatus .dead
      return 0
    else
      mark (.fileAccess r.range.start n)
      match ← retryIntr (sockWrite ((r.dataFile.drop r.range.start).take n)) c.sys.sock.length with
      | .error .again => return -1
      | .error _ =>
        setStatus .dead
        return 0
      | .ok k =>
        if k = 0 then
          mark .noneSent
          return -1
        else
          modReq fun r => (r.counted k).moveStart k
          let r ← getReq
          if u64 (r.range.stop + 1) ≤ r.range.start then completeResponse e else return 1

/-- The writing half of `io_shuffle`. -/
def ioShuffleWrite : Srv Int := do
  let c ← get
  let r := c.req
  if r.bufferEnd = r.bufferStart then
    if r.dataFd = 0 then return 0
    else
      modReq Request.emptied
      return 1
  else
    match ← retryIntr writePending c.sys.sock.length with
    | .error .again => return -1
    | .error _ =>
      setStatus .dead
      return 0
    | .ok k =>
      modReq fun r => (r.taken k).counted k
      return 1

/-- `bytes_to_read` of `io_shuffle`; the length of the range is narrowed to `int`. -/
def Request.shuffleWant (r : Request) : Int :=
  min ((bufferSize : Int) - r.bufferEnd - 256)
    (i32 (u64 (r.range.stop + 2^64 - r.range.start + 1)))

def ioShuffle (e : Config) : Srv Int := do
  let c ← get
  let r := c.req
  if r.method = .head then completeResponse e
  else if r.shuffleWant > 0 ∧ r.dataFd ≠ 0 then
    if ← seekOk then
      mark (.fileAccess r.range.start r.shuffleWant.toNat)
      match ← retryIntr (fileRead r.range.start r.shuffleWant.toNat) c.sys.file.length with
      | .error .again => if r.bufferEnd = r.bufferStart then return -1 else ioShuffleWrite
      | .error _ =>
        setStatus .dead
        return 0
      | .ok [] =>
        modReq fun r => { r with dataFd := 0 }
        ioShuffleWrite
      | .ok bs =>
        modReq fun r => (r.append bs).moveStart bs.length
        let r ← getReq
        if u64 (r.range.stop + 1 + 2^64 - r.range.start) = 0 then completeResponse e
        else ioShuffleWrite
    else
      setStatus .dead
      return 0
  else ioShuffleWrite

end Crotalus
