import Crotalus.Framework.Linked
import Crotalus.Server.Request

namespace Crotalus

open Stateful Linked

/-! The main loop: `queue.c`, `select.c` and the queue part of `request.c`, with `select`
and without `NO_RATE_LIMIT`. The structs are named by the order of their `malloc`. -/

def fdSetSize : Nat := 1024

/-- A connection that `accept` gives, and what the calls that set it up answer. -/
structure Accept where
  fd : Nat
  sockname : Bool := true
  malloc : Bool := true
  localIp : Option Text := some []
  nonblock : Bool := true
  cloexec : Bool := true
  remoteIp : Option Text := some []
  port : Nat := 0
  now : Nat := 0
  sys : World := {}

/-- The addresses, when no call that sets up the connection fails. -/
def Accept.addresses (a : Accept) : Option (Text × Text) := do
  let localIp ← a.localIp
  let remoteIp ← if a.nonblock && a.cloexec then a.remoteIp else none
  return (localIp, remoteIp)

/-- What the turn of one request finds: its own system calls, and the results that workers
return for the other structs. -/
structure Turn where
  sys : World := {}
  others : Nat → List (Int × List Byte) := fun _ => []

/-- `head` holds `request_ready`, `request_block` and `request_free`; `listening` is the bit of
the server socket in the set for reading; `accepts` and `turns` are yet to come. -/
structure Queues where
  links : Links Nat
  head : Place → Option Nat
  allocated : List Nat
  mallocs : Nat
  conns : Nat → Conn
  totalConnections : Nat
  pendingRequests : Bool
  listening : Bool
  sigtermFlag : Nat
  exited : Bool
  accepts : List (Option Accept)
  turns : List Turn

namespace Queues

abbrev Loop := StateM Queues

def setHead (s : Queues) (q : Place) (h : Option Nat) : Queues :=
  { s with head := fun p => if p = q then h else s.head p }

def dequeue (q : Place) (req : Nat) : Loop Unit := modify fun s =>
  let head := if s.head q = some req then s.links.next req else s.head q
  let k := s.links.setNext (s.links.prev req) (s.links.next req)
  let k := k.setPrev (k.next req) (k.prev req)
  { s.setHead q head with links := (k.setNext (some req) none).setPrev (some req) none }

def enqueue (q : Place) (req : Nat) : Loop Unit := modify fun s =>
  let k := s.links.setPrev (s.head q) (some req)
  let k := k.setNext (some req) (s.head q)
  { s.setHead q (some req) with links := k.setPrev (some req) none }

/-- A part of the code that works on one request. -/
def onConn {α : Type} (req : Nat) (m : Srv α) : Loop α := do
  let s ← get
  set { s with conns := fun i => if i = req then exec m (s.conns req) else s.conns i }
  return value m (s.conns req)

/-! `get_request`. -/

def takeAccept : Loop (Option Accept) := do
  let s ← get
  set { s with accepts := s.accepts.tail }
  return s.accepts.head?.join

def newRequest (e : Config) (a : Accept) : Loop (Option Nat) := do
  let s ← get
  match s.head .free with
  | some req =>
    dequeue .free req
    onConn req (modReq (Request.sanitizeNew e a.now))
    return some req
  | none =>
    if a.malloc then
      set { s with mallocs := s.mallocs + 1, allocated := s.mallocs :: s.allocated }
      onConn s.mallocs (modReq (Request.sanitizeNew e a.now))
      return some s.mallocs
    else return none

/-- A connection too many is refused, and no other is accepted. -/
def breathe (e : Config) (max conn : Nat) : Loop Unit := do
  let s ← get
  if max < s.totalConnections then
    set { s with pendingRequests := false }
    onConn conn (refuseConn e)
  else pure ()

def setUp (e : Config) (max : Nat) (a : Accept) (conn : Nat) : Loop Unit :=
  match a.addresses with
  | none => do
    onConn conn (modReq fun r => { r with fd := a.fd })
    enqueue .free conn
  | some (localIp, remoteIp) => do
    onConn conn (modify fun c =>
      acceptConn e a.now a.fd localIp remoteIp a.port { c with sys := a.sys })
    modify fun s => { s with totalConnections := s.totalConnections + 1 }
    breathe e max conn
    enqueue .ready conn

def getRequest (e : Config) (max : Nat) : Loop Unit := do
  match ← takeAccept with
  | none => modify fun s => { s with pendingRequests := false }
  | some a =>
    if fdSetSize ≤ a.fd ∨ a.sockname = false then pure ()
    else
      match ← newRequest e a with
      | none => pure ()
      | some conn => setUp e max a conn

/-- `get_request` where the code asks for `pending_requests` first. -/
def getPending (e : Config) (max : Nat) : Loop Unit := do
  if (← get).pendingRequests then getRequest e max else pure ()

/-! `process_requests`. -/

/-- The turn of a request, up to the value that the last switch is on. -/
def turnOf (e : Config) : Srv Int := do
  let ret ← topFlush e
  if ret = 1 then
    forgetWait
    processStatus e
  else return ret

def takeTurn : Loop Turn := do
  let s ← get
  set { s with turns := s.turns.tail }
  return s.turns.headD {}

/-- Results of workers for the other structs, which `cgi_work_resp` finds on any queue. -/
def deliver (req : Nat) (rs : Nat → List (Int × List Byte)) : Loop Unit := modify fun s =>
  { s with conns := fun i =>
      if i = req then s.conns i else exec (cgiWorkResps (rs i)) (s.conns i) }

def blockRequest (e : Config) (req : Nat) : Loop Unit := do
  dequeue .ready req
  enqueue .block req
  onConn req (Crotalus.blockRequest e)

def freeRequest (e : Config) (req : Nat) : Loop Unit := do
  if ← onConn req (freeFlush e) then pure ()
  else
    onConn req (finishFilter e)
    dequeue .ready req
    let r ← onConn req getReq
    onConn req release
    if r.timedOut.keepsAlive then enqueue .block req
    else
      modify fun s => { s with totalConnections := s.totalConnections - 1 }
      enqueue .free req

/-- The switch on the value of a turn. -/
def settle (e : Config) (req : Nat) (ret : Int) : Loop Unit :=
  if ret = -1 then blockRequest e req
  else if ret = 0 then do
    onConn req touch
    freeRequest e req
  else if ret = 1 then onConn req touch
  else onConn req (setStatus .dead)

/-- A round of the loop over the ready queue; the value is where it goes on. -/
def processOne (e : Config) (max req : Nat) : Loop (Option Nat) := do
  let t ← takeTurn
  onConn req (modify fun c => { c with sys := t.sys, waits := none })
  let ret ← onConn req (turnOf e)
  deliver req t.others
  onConn req (do onlyIf ((← get).sys.sigterm) squashKa)
  getPending e max
  let next := (← get).links.next req
  settle e req ret
  return next

/-- The requests it has visited, and the state behind it. -/
def processRequests (e : Config) (max fuel : Nat) (s : Queues) : Option (List Nat × Queues) :=
  let s := exec (getPending e max) s
  forEach (processOne e max) fuel (s.head .ready) s

end Queues

/-! `loop`. -/

/-- What a round of the main loop meets: the settings in force, the signals, what `select`
answers, and the system calls of its requests. Where `select` is passed over or fails with
`EBADF` no descriptor is taken out of the sets. -/
structure Pass where
  conf : Config := {}
  sighup : Bool := false
  sigterm : Bool := false
  interrupted : Bool := false
  serverReady : Bool := false
  readyR : Nat → Bool := fun _ => false
  readyW : Nat → Bool := fun _ => false
  sys : World := {}
  accepts : List (Option Accept) := []
  turns : List Turn := []

namespace Queues

/-- A round of `fdset_update`; the request has moved when `ready_request` was called. -/
def updateOne (p : Pass) (req : Nat) : Loop (Option Nat) := do
  let next := (← get).links.next req
  onConn req (modify fun c => { c with sys := p.sys })
  onConn req (do
    selectFds p.readyR p.readyW
    fdsetUpdate p.conf)
  let c ← onConn req get
  if c.place = .ready then
    dequeue .block req
    enqueue .ready req
  else pure ()
  return next

def fdsetUpdate (p : Pass) (fuel : Nat) (s : Queues) : Option (List Nat × Queues) :=
  forEach (updateOne p) fuel (s.head .block) s

def freeOne (ptr : Nat) : Loop (Option Nat) := do
  let next := (← get).links.next ptr
  modify fun s => { s with allocated := s.allocated.erase ptr }
  return next

/-- `free_requests`, the part of `sighup_run` that the queues see. -/
def freeRequests (fuel : Nat) (s : Queues) : Option Queues :=
  (forEach freeOne fuel (s.head .free) s).map fun r => r.2.setHead .free none

def sighupRun (p : Pass) (fuel : Nat) (s : Queues) : Option Queues :=
  if p.sighup then freeRequests fuel s else some s

/-- The signals of a round reach the server, which asks for the end or for connections. -/
def askAccept (p : Pass) (max : Nat) (s : Queues) : Queues :=
  let flag := if p.sigterm ∧ s.sigtermFlag = 0 then 1 else s.sigtermFlag
  if flag = 0 then { s with listening := decide (s.totalConnections ≤ max) }
  else
    { s with
      sigtermFlag := 2
      listening := false
      exited := s.head .ready = none ∧ s.head .block = none }

/-- The server socket behind `select`. -/
def selected (p : Pass) (s : Queues) : Queues :=
  { s with
    listening := s.listening && p.serverReady
    pendingRequests := s.sigtermFlag = 0 ∧ (s.listening && p.serverReady) }

/-- A round up to `fdset_update`. -/
def prepare (p : Pass) (max fuel : Nat) (s : Queues) : Option Queues :=
  (sighupRun p fuel s).map fun s =>
    let s := askAccept p max { s with accepts := p.accepts, turns := p.turns }
    if s.exited then s
    else if p.interrupted then { s with pendingRequests := false }
    else selected p s

/-- The rest of it, which the end of the server and an interrupted `select` pass over. -/
def serve (p : Pass) (max fuel : Nat) (s : Queues) : Option Queues :=
  if s.exited || p.interrupted then some s
  else
    (fdsetUpdate p fuel s).bind fun r =>
      (processRequests p.conf max fuel r.2).map fun r => r.2

def loop (max fuel : Nat) : List Pass → Queues → Option Queues
  | [], s => some s
  | p :: ps, s =>
    if s.exited then some s
    else ((prepare p max fuel s).bind (serve p max fuel)).bind (loop max fuel ps)

/-- The server at its start, before the first `malloc`. -/
def start (links : Links Nat) (conns : Nat → Conn) : Queues :=
  { links := links, head := fun _ => none, allocated := [], mallocs := 0, conns := conns,
    totalConnections := 0, pendingRequests := false, listening := false, sigtermFlag := 0,
    exited := false, accepts := [], turns := [] }

end Queues

end Crotalus
