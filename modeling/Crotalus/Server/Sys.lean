import Crotalus.Server.State
import Crotalus.Framework.Stateful

namespace Crotalus

/-! Access to the fields of the current request. -/

def getReq : Srv Request := do return (← get).req

def modReq (f : Request → Request) : Srv Unit := modify fun c => { c with req := f c.req }

/-- Assignment to `req->status`. The first DEAD of a request is remembered together with
what had been sent by then. -/
def setStatus (st : Status) : Srv Unit :=
  modify fun c => { c with
    req := { c.req with status := st }
    died := if st = .dead then c.died.or (some c.wire) else c.died }

/-- `SQUASH_KA`. -/
def squashKa : Srv Unit := modReq fun r => { r with keepalive := .stopped }

def mark (site : Site) : Srv Unit :=
  modify fun c => { c with trace := c.trace ++ [⟨site, c.req, c.sys⟩] }

def onlyIf (b : Bool) (m : Srv Unit) : Srv Unit := if b then m else pure ()

/-! System calls. Each takes the next result of its kind. -/

def waitFor (fd : Nat) (d : Dir) (e : Errno) : Srv Unit :=
  if e = .again then modify fun c => { c with waits := some (fd, d) } else pure ()

/-- `write` and `sendfile` on the client socket: some of the bytes offered are accepted, in
order from the first. -/
def sockWrite (bs : List Byte) : Srv (Except Errno Nat) := do
  let c ← get
  match c.sys.sock with
  | .done n :: rest =>
    set { c with wire := c.wire ++ bs.take n, sys := { c.sys with sock := rest } }
    return .ok (min n bs.length)
  | .fail e :: rest =>
    set { c with sys := { c.sys with sock := rest } }
    waitFor c.req.fd .write e
    return .error e
  | [] =>
    waitFor c.req.fd .write .again
    return .error .again

/-- The bytes a `read` of at most `k` bytes returns; what it leaves comes with the next. -/
def takeRecv (k : Nat) : List RecvRes → Except Errno (List Byte) × List RecvRes
  | [] => (.error .again, [])
  | .fail e :: rest => (.error e, rest)
  | .data bs :: rest => (.ok (bs.take k), if bs.length ≤ k then rest else .data (bs.drop k) :: rest)

def received (bs : List Byte) : Srv Unit :=
  modify fun c => { c with input := c.input ++ bs, body := c.body ++ bs }

def sockRead (k : Nat) : Srv (Except Errno (List Byte)) := do
  let c ← get
  let (res, rest) := takeRecv k c.sys.recv
  set { c with sys := { c.sys with recv := rest } }
  match res with
  | .ok bs =>
    received bs
    return .ok bs
  | .error e =>
    waitFor c.req.fd .read e
    return .error e

def pipeRead (k : Nat) : Srv (Except Errno (List Byte)) := do
  let c ← get
  let (res, rest) := takeRecv k c.sys.pipe
  set { c with sys := { c.sys with pipe := rest } }
  match res with
  | .ok bs => return .ok bs
  | .error e =>
    waitFor c.req.dataFd .read e
    return .error e

/-- `read` of at most `k` bytes of the data file at `off`. -/
def fileRead (off k : Nat) : Srv (Except Errno (List Byte)) := do
  let c ← get
  match c.sys.file with
  | .done n :: rest =>
    set { c with sys := { c.sys with file := rest } }
    return .ok ((c.req.dataFile.drop off).take (min n k))
  | .fail e :: rest =>
    set { c with sys := { c.sys with file := rest } }
    waitFor c.req.dataFd .read e
    return .error e
  | [] =>
    waitFor c.req.dataFd .read .again
    return .error .again

def postWrite (bs : List Byte) : Srv (Except Errno Nat) := do
  let c ← get
  match c.sys.post with
  | .done n :: rest =>
    set { c with postFile := c.postFile ++ bs.take n, sys := { c.sys with post := rest } }
    return .ok (min n bs.length)
  | .fail e :: rest =>
    set { c with sys := { c.sys with post := rest } }
    waitFor c.req.postDataFd .write e
    return .error e
  | [] =>
    waitFor c.req.postDataFd .write .again
    return .error .again

/-- A call that is made again after EINTR, at most `k` times: once for each result left. -/
def retryIntr {α : Type} (io : Srv (Except Errno α)) : Nat → Srv (Except Errno α)
  | 0 => io
  | k + 1 => do
    match ← io with
    | .error .intr => retryIntr io k
    | res => return res

/-- Does `lseek` succeed? -/
def seekOk : Srv Bool := do
  let c ← get
  set { c with sys := { c.sys with seek := c.sys.seek.tail } }
  return c.sys.seek.headD true

/-- Does `malloc` or `strdup` succeed? -/
def allocOk : Srv Bool := do
  let c ← get
  set { c with sys := { c.sys with mem := c.sys.mem.tail } }
  return c.sys.mem.headD true

/-- Does the access to mapped memory raise SIGBUS? -/
def sigbus : Srv Bool := do
  let c ← get
  set { c with sys := { c.sys with sigbus := c.sys.sigbus.tail } }
  return c.sys.sigbus.headD false

end Crotalus
