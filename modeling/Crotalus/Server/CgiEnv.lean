import Crotalus.Framework.NullArray
import Crotalus.Server.Defs

namespace Crotalus

/-! The strings of `common_cgi_env` and of the requests' `cgi_env`: who allocates them, in
which entries they stand, and who frees them. -/

/-- An allocated string. `id` tells the allocations apart, and `owner` is history for the
properties: the request that `add_cgi_env` made it for, or none. -/
structure EnvString where
  id : Nat
  owner : Option Nat
  text : Text
  deriving DecidableEq, Repr

/-- How far a request is: its request line is not there yet, its header is being read, its
program is started. -/
inductive EnvStage where
  | waiting | headers | started
  deriving DecidableEq, Repr

/-- The part of a request that the strings are in. `seen` and `own` are history: the number of
common variables when the request line was read, and what `add_cgi_env` made for the request. -/
structure EnvRequest where
  stage : EnvStage := .waiting
  cgiEnv : Nat → Option EnvString := fun _ => none
  cgiEnvIndex : Nat := 0
  seen : Nat := 0
  own : List EnvString := []

/-- An environment that `complete_env` finished: the common variables at that time, those that
the request's header had added, those added last, and what `execve` reads. -/
structure EnvBuilt where
  common : List EnvString
  headers : List EnvString
  vars : List EnvString
  envp : List EnvString
  deriving DecidableEq, Repr

/-- The server's side. `freed`, `ended`, `built` and `touched` are history: the strings that
`free_request` freed, those made for requests that are over, the finished environments, the
indices of `cgi_env` that were read or written. -/
structure EnvServer where
  common : List EnvString := []
  reqs : Nat → EnvRequest := fun _ => {}
  allocs : Nat := 0
  exited : Bool := false
  freed : List EnvString := []
  ended : List EnvString := []
  built : List EnvBuilt := []
  touched : List Nat := []

namespace EnvServer

def setReq (w : EnvServer) (k : Nat) (r : EnvRequest) : EnvServer :=
  { w with reqs := fun j => if j = k then r else w.reqs j }

def touch (w : EnvServer) (is : List Nat) : EnvServer := { w with touched := w.touched ++ is }

def addToCommonEnv (w : EnvServer) (text : Text) : EnvServer :=
  if w.exited then w
  else
    let common := w.common ++ [⟨w.allocs, none, text⟩]
    { w with common := common, allocs := w.allocs + 1, exited := cgiEnvMax < common.length }

/-- `ok` says whether the allocation succeeds. -/
def addCgiEnv (w : EnvServer) (k : Nat) (text : Text) (ok : Bool) : EnvServer × Bool :=
  let r := w.reqs k
  if r.cgiEnvIndex < cgiEnvMax && ok then
    let s : EnvString := ⟨w.allocs, some k, text⟩
    let r := { r with
      cgiEnv := NullArray.put r.cgiEnv r.cgiEnvIndex (some s)
      cgiEnvIndex := r.cgiEnvIndex + 1
      own := r.own ++ [s] }
    (({ w with allocs := w.allocs + 1 }.setReq k r).touch [r.cgiEnvIndex - 1], true)
  else (w, false)

/-- A sequence of `my_add_cgi_env`: the first failure ends it. -/
def addCgiEnvs (w : EnvServer) (k : Nat) : List (Text × Bool) → EnvServer × Bool
  | [] => (w, true)
  | (text, ok) :: vars =>
    let (w, added) := w.addCgiEnv k text ok
    if added then addCgiEnvs w k vars else (w, false)

/-- The loop of `complete_env` over the common variables. -/
def copyCommon (w : EnvServer) (k : Nat) : EnvServer :=
  let r := w.reqs k
  (w.setReq k { r with cgiEnv := NullArray.copy w.common r.cgiEnv }).touch
    (List.range w.common.length)

/-- The end of `complete_env`, with the header's strings `headers`. -/
def terminate (w : EnvServer) (k : Nat) (headers : List EnvString) : EnvServer :=
  let r := w.reqs k
  if r.cgiEnvIndex < cgiEnvMax + 1 then
    let env := NullArray.put r.cgiEnv r.cgiEnvIndex none
    let b := ⟨w.common, headers, r.own.drop headers.length,
      NullArray.entries env (cgiEnvMax + 4) 0⟩
    { (w.setReq k { r with cgiEnv := env }).touch [r.cgiEnvIndex] with built := w.built ++ [b] }
  else w

def completeEnv (w : EnvServer) (k : Nat) (vars : List (Text × Bool)) : EnvServer :=
  let headers := (w.reqs k).own
  let (w, ok) := (w.copyCommon k).addCgiEnvs k vars
  if ok then w.terminate k headers else w

/-- The index that `process_logline` remembers. -/
def processLogline (w : EnvServer) (k : Nat) : EnvServer :=
  w.setReq k { w.reqs k with
    stage := .headers, cgiEnvIndex := w.common.length, seen := w.common.length }

/-- The indices that the loop of `free_request` goes through. -/
def freeIndices (w : EnvServer) (k : Nat) : List Nat :=
  List.range' w.common.length ((w.reqs k).cgiEnvIndex - w.common.length)

/-- `free_request`, where the request does end, and the zeroing before its next use. -/
def freeRequest (w : EnvServer) (k : Nat) : EnvServer :=
  let r := w.reqs k
  let w' := (w.touch (w.freeIndices k)).setReq k { r with
    stage := .waiting, cgiEnvIndex := 0, seen := 0, own := [] }
  { w' with
    freed := w.freed ++ (w.freeIndices k).filterMap r.cgiEnv
    ended := w.ended ++ r.own }

end EnvServer

/-- What the server does between two waits, as far as the strings are concerned: it reads the
request line of a connection, one of its header lines, starts its program with these further
variables, ends it, or reads the configuration again, which adds common variables. -/
inductive EnvEvent where
  | logline (k : Nat)
  | header (k : Nat) (text : Text) (ok : Bool)
  | complete (k : Nat) (vars : List (Text × Bool))
  | free (k : Nat)
  | reload (texts : List Text)
  deriving DecidableEq, Repr

/-- A call that the stage of the request rules out does not happen. -/
def EnvServer.step (w : EnvServer) : EnvEvent → EnvServer
  | .logline k =>
    if !w.exited && (w.reqs k).stage = .waiting then w.processLogline k else w
  | .header k text ok =>
    if !w.exited && (w.reqs k).stage = .headers then (w.addCgiEnv k text ok).1 else w
  | .complete k vars =>
    if !w.exited && (w.reqs k).stage = .headers && vars ≠ [] then
      let w := w.completeEnv k vars
      w.setReq k { w.reqs k with stage := .started }
    else w
  | .free k => if !w.exited then w.freeRequest k else w
  | .reload texts => texts.foldl EnvServer.addToCommonEnv w

/-- A server whose start has made the common variables. -/
structure EnvServer.Initial (w : EnvServer) : Prop where
  room : w.common.length ≤ cgiEnvMax
  shared : ∀ s ∈ w.common, s.owner = none
  idle : ∀ k, (w.reqs k).stage = .waiting ∧ (w.reqs k).cgiEnvIndex = 0 ∧
    (w.reqs k).seen = 0 ∧ (w.reqs k).own = []
  clear : w.freed = [] ∧ w.ended = [] ∧ w.built = [] ∧ w.touched = []

end Crotalus
