import Crotalus.Server.Sys

namespace Crotalus

/-! `queue.c` and `select.c`: the descriptor a request waits for. -/

def fdSet (fd : Nat) : Dir → Srv Unit
  | .read => modify fun c => { c with
      readSet := fun x => x = fd || c.readSet x, maxFd := max c.maxFd fd }
  | .write => modify fun c => { c with
      writeSet := fun x => x = fd || c.writeSet x, maxFd := max c.maxFd fd }

def fdClr (fd : Nat) : Dir → Srv Unit
  | .read => modify fun c => { c with readSet := fun x => x ≠ fd && c.readSet x }
  | .write => modify fun c => { c with writeSet := fun x => x ≠ fd && c.writeSet x }

def Conn.isSet (c : Conn) (fd : Nat) : Dir → Bool
  | .read => c.readSet fd
  | .write => c.writeSet fd

/-- The switch that `block_request` and `ready_request` share. -/
def Request.registration (e : Config) (r : Request) : Nat × Dir :=
  if r.bufferEnd ≠ 0 then (r.fd, .write)
  else
    match r.status with
    | .ioshuffle =>
      if !e.build.haveSendfile ∧ r.bufferEnd = r.bufferStart then (r.dataFd, .read)
      else (r.fd, .write)
    | .write | .pipeWrite | .done => (r.fd, .write)
    | .pipeRead => (r.dataFd, .read)
    | .bodyWrite => (r.postDataFd, .write)
    | _ => (r.fd, .read)

def setPlace (p : Place) : Srv Unit := modify fun c => { c with place := p }

def blockRequest (e : Config) : Srv Unit := do
  setPlace .block
  let (fd, d) := (← getReq).registration e
  fdSet fd d

def readyRequest (e : Config) : Srv Unit := do
  setPlace .ready
  let (fd, d) := (← getReq).registration e
  fdClr fd d

/-- A turn of `fdset_update` that finds the descriptor ready or asks for it again. -/
def awaitFd (e : Config) (fd : Nat) (d : Dir) : Srv Unit := do
  if (← get).isSet fd d then readyRequest e else fdSet fd d

/-- Does the request run out of time? -/
def Request.expired (e : Config) (now : Nat) (r : Request) : Bool :=
  (r.kacount < e.kaMax ∧ (now : Int) - r.timeLast ≥ e.kaTimeout ∧ r.logline = none) ∨
    (now : Int) - r.timeLast > requestTimeout

/-- The switch of `fdset_update`. -/
def updateBlocked (e : Config) : Srv Unit := do
  let r ← getReq
  if r.bufferEnd ≠ 0 ∧ r.status.rank < Status.rank .done then awaitFd e r.fd .write
  else
    match r.status with
    | .ioshuffle =>
      if !e.build.haveSendfile ∧ r.bufferEnd = r.bufferStart then
        if (← get).isSet r.dataFd .read then readyRequest e else pure ()
      else awaitFd e r.fd .write
    | .write | .pipeWrite => awaitFd e r.fd .write
    | .bodyWrite => awaitFd e r.postDataFd .write
    | .pipeRead => awaitFd e r.dataFd .read
    | .done => awaitFd e r.fd .write
    | .timedOut | .dead => readyRequest e
    | _ => awaitFd e r.fd .read

/-- `fdset_update` for one blocked request. -/
def fdsetUpdate (e : Config) : Srv Unit := do
  let c ← get
  onlyIf (c.req.expired e c.sys.now) (do
    mark .timeout
    setStatus .timedOut)
  updateBlocked e

/-- `select` leaves in the sets the descriptors that are ready, and `loop` forgets the
largest. -/
def selectFds (readyR readyW : Nat → Bool) : Srv Unit := modify fun c => { c with
  readSet := fun fd => c.readSet fd && readyR fd
  writeSet := fun fd => c.writeSet fd && readyW fd
  maxFd := -1 }

end Crotalus
