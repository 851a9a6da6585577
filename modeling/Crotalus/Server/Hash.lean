import Crotalus.Framework.Singly
import Crotalus.Server.Settings

namespace Crotalus

/-! The chained hash tables of `cr_hash.c`, with the links of their nodes. -/

def maxHashLength : Nat := 4

/-- `fnv1a_hash`; it reads one character more than it counts. -/
def fnv1aHash (key : Text) : Nat :=
  (key.take (maxHashLength + 1)).foldl (fun hash c => u32 ((hash ^^^ charU32 c) * 16777619))
    2166136261

def crHash (key : Text) : Nat := if key = [] then 0 else fnv1aHash key

structure HashStruct where
  key : Text := []
  value : Text := []
  next : Option Nat := none
  deriving DecidableEq, Repr

/-- A table, with the memory its nodes are in: the nodes below `allocs` were allocated, and
those of `freed` were given back. -/
structure HashTable where
  table : Nat → Option Nat := fun _ => none
  node : Nat → HashStruct := fun _ => {}
  allocs : Nat := 0
  freed : List Nat := []

/-- Where the loop of `hash_insert` stops. -/
inductive InsertEnd where
  | found (x : Nat)
  | behind (x : Nat)
  | empty
  deriving DecidableEq, Repr

namespace HashTable

def next (w : HashTable) (x : Nat) : Option Nat := (w.node x).next

def setNext (w : HashTable) (x : Nat) (y : Option Nat) : HashTable :=
  { w with node := Function.update w.node x { w.node x with next := y } }

def setTable (w : HashTable) (hash : Nat) (x : Option Nat) : HashTable :=
  { w with table := Function.update w.table hash x }

/-- A new node with nothing behind it. -/
def malloc (w : HashTable) (key value : Text) : HashTable :=
  { w with node := Function.update w.node w.allocs ⟨key, value, none⟩, allocs := w.allocs + 1 }

def free (w : HashTable) (x : Nat) : HashTable := { w with freed := w.freed ++ [x] }

/-- The loop of `hash_insert`, of at most so many turns. -/
def insertLoop (w : HashTable) (key : Text) : Nat → Option Nat → Option InsertEnd
  | 0, _ => none
  | _ + 1, none => some .empty
  | k + 1, some x =>
    if (w.node x).key = key then some (.found x)
    else if (w.next x).isSome then insertLoop w key k (w.next x)
    else some (.behind x)

def hashInsert (w : HashTable) (hash : Nat) (key value : Text) :
    Option (HashTable × Option Nat) :=
  if key = [] then some (w, none)
  else if value = [] then some (w, none)
  else
    match insertLoop w key (w.allocs + 1) (w.table hash) with
    | none => none
    | some (.found x) => some (w, some x)
    | some .empty => some ((w.malloc key value).setTable hash (some w.allocs), some w.allocs)
    | some (.behind x) =>
      some ((w.malloc key value).setNext x (some w.allocs), some w.allocs)

/-- The loop of `hash_find`: the node, if there is one. -/
def findLoop (w : HashTable) (key : Text) : Nat → Option Nat → Option (Option Nat)
  | _, none => some none
  | 0, some _ => none
  | k + 1, some x =>
    if (w.node x).key = key then some (some x) else findLoop w key k (w.next x)

def hashFind (w : HashTable) (key : Text) (hash : Nat) : Option (Option Nat) :=
  if key = [] then some none else findLoop w key w.allocs (w.table hash)

/-- The inner loop of `hash_clear`, which reads the link of a node before it frees it. -/
def clearLoop : Nat → HashTable → Option Nat → Option HashTable
  | _, w, none => some w
  | 0, _, some _ => none
  | k + 1, w, some x => clearLoop k (w.free x) (w.next x)

def hashClear (w : HashTable) (size : Nat) : Option HashTable :=
  (List.range size).foldlM (fun w i =>
    (clearLoop w.allocs w (w.table i)).map (·.setTable i none)) w

end HashTable

/-- What the functions are called for. -/
inductive HashOp where
  | insert (key value : Text)
  | clear
  deriving DecidableEq, Repr

/-- The slot of a key in a table of `size` slots. -/
def hashSlot (size : Nat) (key : Text) : Nat := crHash key % size

def HashTable.step (size : Nat) (w : HashTable) : HashOp → Option HashTable
  | .insert key value => (w.hashInsert (hashSlot size key) key value).map Prod.fst
  | .clear => w.hashClear size

def HashTable.run (size : Nat) (ops : List HashOp) (w : HashTable) : Option HashTable :=
  ops.foldlM (HashTable.step size) w

end Crotalus
