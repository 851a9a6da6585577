import Crotalus.Server.Buffer
import Crotalus.Server.Config

namespace Crotalus

open ByteMem

/-! `c_add_mime_types_file`, which takes a line apart in its buffer of 256 bytes. A result
`none` stands for a scan that leaves the buffer. -/

def mimeBufSize : Nat := 256

def mimeScan (m : Nat → Byte) (p : Byte → Bool) (i : Nat) : Option Nat :=
  scanFor m p (mimeBufSize - i) i

def isTabOrBlank (b : Byte) : Bool := b = 9 || b = 32

/-- Where `strcspn` stops at a tab, a blank or the end of the string. -/
def wordEnd (m : Nat → Byte) (p : Nat) : Option Nat :=
  mimeScan m (fun b => isTabOrBlank b || b = 0) p

/-- The loop that looks for the next letter or digit of the string. -/
def nextAlnum (m : Nat → Byte) (p : Nat) : Option Nat :=
  mimeScan m (fun b => b = 0 || isAlnum b) p

/-- The loop over the extensions, of at most so many turns. The scan goes on behind the byte
that ended the word, also when that was the end of the string. -/
def extensionLoop : Nat → (Nat → Byte) → Nat → Option ((Nat → Byte) × List Text)
  | 0, _, _ => none
  | k + 1, m, p => do
    let len ← wordEnd m p
    if len = p then some (m, [])
    else
      let next ← nextAlnum (store m len [0]) (len + 1)
      let (m', extensions) ← extensionLoop k (store m len [0]) next
      some (m', slice m p (len - p) :: extensions)

/-- One turn of the loop over the lines: the buffer it leaves, and the arguments of the calls
of `add_mime_type`. -/
def mimeLine (m : Nat → Byte) (line : Text) : Option ((Nat → Byte) × List (Text × Text)) :=
  let m := store m 0 (line ++ [0])
  if m 0 = 0 ∨ m 0 = 35 ∨ m 0 = 10 then some (m, [])
  else do
    let m := match strchr 10 (line.takeWhile (· ≠ 0)) with
      | some i => store m i [0]
      | none => m
    let len ← wordEnd m 0
    if len = 0 then some (m, [])
    else
      let p ← nextAlnum (store m len [0]) (len + 1)
      let (m', extensions) ← extensionLoop mimeBufSize (store m len [0]) p
      some (m', extensions.map fun extension => (extension, slice m 0 len))

/-- The calls that each line leads to. -/
def mimeCalls : (Nat → Byte) → List Text → Option (List (List (Text × Text)))
  | _, [] => some []
  | m, line :: lines => do
    let (m, calls) ← mimeLine m line
    let rest ← mimeCalls m lines
    some (calls :: rest)

/-- The calls for a file; `stack` is what the buffer holds before the first line. -/
def addMimeTypesCalls (stack : Nat → Byte) (file : Text) : Option (List (List (Text × Text))) :=
  mimeCalls stack (fgets 255 file)

end Crotalus
