import Crotalus.Framework.Singly
import Crotalus.Server.Range

namespace Crotalus

/-! The nodes of `range.c`: the lists of the requests and the pool, with their links. -/

structure RangeNode where
  range : Range := ⟨0, 0⟩
  next : Option Nat := none
  deriving DecidableEq, Repr

/-- The memory of the nodes, the pool, and the lists of the requests. `held` and `freed` are
history: what callers of `range_pool_pop` have not given to a request or back to the pool, and
what `range_pool_empty` freed. -/
structure RangeHeap where
  node : Nat → RangeNode := fun _ => {}
  rangePool : Option Nat := none
  ranges : Nat → Option Nat := fun _ => none
  numranges : Nat → Nat := fun _ => 0
  allocs : Nat := 0
  held : List Nat := []
  freed : List Nat := []

/-- The ends that the loop of `ranges_fixup` writes. -/
def fixupRange (filesize : Nat) (r : Range) : Range :=
  let stop := if r.stop = 2^32 - 1 ∨ r.stop ≥ filesize then filesize - 1 else r.stop
  if r.start = minusOne then ⟨u64 (filesize + 2^64 - stop), filesize - 1⟩ else ⟨r.start, stop⟩

/-- Its test for a range that is left out. -/
def Range.isInvalid (r : Range) : Bool := r.start ≥ 2^63 ∨ r.start > r.stop

namespace RangeHeap

def next (w : RangeHeap) (x : Nat) : Option Nat := (w.node x).next

def range (w : RangeHeap) (x : Nat) : Range := (w.node x).range

def setNext (w : RangeHeap) (x : Nat) (y : Option Nat) : RangeHeap :=
  { w with node := Function.update w.node x { w.node x with next := y } }

def setRange (w : RangeHeap) (x : Nat) (r : Range) : RangeHeap :=
  { w with node := Function.update w.node x { w.node x with range := r } }

def setRanges (w : RangeHeap) (req : Nat) (x : Option Nat) : RangeHeap :=
  { w with ranges := Function.update w.ranges req x }

def setHeld (w : RangeHeap) (held : List Nat) : RangeHeap := { w with held := held }

def countRange (w : RangeHeap) (req : Nat) : RangeHeap :=
  { w with numranges := Function.update w.numranges req (w.numranges req + 1) }

/-- The node that `range_pool_pop` takes: the first of the pool, or a new one. -/
def popNode (w : RangeHeap) : Nat := w.rangePool.getD w.allocs

def rangePoolPop (w : RangeHeap) : RangeHeap :=
  let w' : RangeHeap := match w.rangePool with
    | some r => { w with rangePool := w.next r }
    | none => { w with allocs := w.allocs + 1 }
  { w' with node := Function.update w.node w.popNode {} }

def rangePoolPush (w : RangeHeap) (r : Nat) : RangeHeap :=
  { w.setNext r w.rangePool with rangePool := some r }

/-- The loop of `ranges_reset`, of at most so many turns, which is also the one of
`ranges_fixup` for an empty file. -/
def pushLoop : Nat → RangeHeap → Option Nat → Option RangeHeap
  | _, w, none => some w
  | 0, _, some _ => none
  | k + 1, w, some r => pushLoop k (w.rangePoolPush r) (w.next r)

def rangesReset (w : RangeHeap) (req : Nat) : Option RangeHeap :=
  (pushLoop w.allocs w (w.ranges req)).map (·.setRanges req none)

def rangeAbort (w : RangeHeap) (req : Nat) : Option RangeHeap :=
  (w.rangesReset req).map fun w =>
    ((w.rangePoolPop).setRanges req (some w.popNode)).setRange w.popNode ⟨0, minusOne⟩

/-- The loop of `range_add`: the last node of the list, if there is one. -/
def lastLoop (w : RangeHeap) : Nat → Option Nat → Option (Option Nat)
  | _, none => some none
  | 0, some _ => none
  | k + 1, some prev =>
    if w.next prev = none then some (some prev) else lastLoop w k (w.next prev)

def rangeAdd (w : RangeHeap) (req start stop : Nat) : Option RangeHeap :=
  let r := w.popNode
  let w := w.rangePoolPop
  (lastLoop w w.allocs (w.ranges req)).map fun prev =>
    let w := match prev with
      | some prev => w.setNext prev (some r)
      | none => w.setRanges req (some r)
    (w.setRange r ⟨start, stop⟩).countRange req

/-- The loop of `ranges_fixup` for a file of `filesize` bytes. -/
def fixupLoop (filesize req : Nat) :
    Nat → RangeHeap → Option Nat → Option Nat → Option RangeHeap
  | _, w, _, none => some w
  | 0, _, _, some _ => none
  | k + 1, w, prev, some r =>
    let w := w.setRange r (fixupRange filesize (w.range r))
    if (w.range r).isInvalid then
      let behind := w.next r
      let w := match prev with
        | some prev => w.setNext prev behind
        | none => w
      fixupLoop filesize req k (w.rangePoolPush r) prev behind
    else
      let w := if prev = none then w.setRanges req (some r) else w
      fixupLoop filesize req k w (some r) (w.next r)

/-- The heap it leaves, and whether a range is left. -/
def rangesFixup (w : RangeHeap) (req filesize : Nat) : Option (RangeHeap × Bool) :=
  let r := w.ranges req
  let w := w.setRanges req none
  (if filesize = 0 then pushLoop w.allocs w r
    else fixupLoop filesize req w.allocs w none r).map
      fun w => (w, (w.ranges req).isSome)

/-- What `complete_response` does to the list; it reads the first node. -/
def completeResponse (w : RangeHeap) (req : Nat) : Option RangeHeap :=
  (w.ranges req).map fun r => (w.setRanges req (w.next r)).rangePoolPush r

/-- The loop of `range_pool_empty`. -/
def emptyLoop : Nat → RangeHeap → Option RangeHeap
  | 0, w => if w.rangePool = none then some w else none
  | k + 1, w =>
    if w.rangePool = none then some w
    else emptyLoop k { w.rangePoolPop with freed := w.freed ++ [w.popNode] }

end RangeHeap

/-- What is done with nodes: by the functions for the requests, and by callers of
`range_pool_pop`, who give what they took to a request without ranges, as a range over the
whole file, or push it. -/
inductive RangeOp where
  | pop
  | push (r : Nat)
  | give (r req : Nat)
  | add (req start stop : Nat)
  | abort (req : Nat)
  | reset (req : Nat)
  | fixup (req filesize : Nat)
  | complete (req : Nat)
  | empty
  deriving DecidableEq, Repr

/-- One operation; `none` is for what no caller does, and for a null pointer followed. -/
def RangeHeap.step (w : RangeHeap) : RangeOp → Option RangeHeap
  | .pop => some (w.rangePoolPop.setHeld (w.held ++ [w.popNode]))
  | .push r =>
    if r ∈ w.held then some ((w.rangePoolPush r).setHeld (w.held.erase r)) else none
  | .give r req =>
    if r ∈ w.held ∧ w.ranges req = none then
      some (((w.setRanges req (some r)).setHeld (w.held.erase r)).setRange r ⟨0, minusOne⟩)
    else none
  | .add req start stop => w.rangeAdd req start stop
  | .abort req => w.rangeAbort req
  | .reset req => w.rangesReset req
  | .fixup req filesize => (w.rangesFixup req filesize).map Prod.fst
  | .complete req => w.completeResponse req
  | .empty => RangeHeap.emptyLoop w.allocs w

def RangeHeap.run (ops : List RangeOp) (w : RangeHeap) : Option RangeHeap :=
  ops.foldlM RangeHeap.step w

end Crotalus
