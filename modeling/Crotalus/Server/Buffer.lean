import Crotalus.Server.Zlib

namespace Crotalus

open ByteMem

/-! `buffer.c` and `escape.c`. -/

def isAlnum (b : Byte) : Bool := (65 ≤ b ∧ b ≤ 90) ∨ (97 ≤ b ∧ b ≤ 122) ∨ isDigit b

def needsEscape (b : Byte) : Bool := !(isAlnum b || (str "-_.!~*'():@&=+$,/?").contains b)

/-- `msg` copied behind the bytes already buffered. -/
def Request.append (r : Request) (msg : Text) : Request :=
  { r with buffer := store r.buffer r.bufferEnd msg, bufferEnd := r.bufferEnd + msg.length }

def reqWrite (msg : Text) : Srv Int := do
  let r ← getReq
  if msg.length = 0 ∨ r.status.over then return r.bufferEnd
  else if r.bufferEnd + msg.length > bufferSize then
    setStatus .dead
    return -1
  else
    modReq fun r => r.append msg
    return (r.bufferEnd + msg.length : Nat)

def resetOutputBuffer : Srv Unit := modReq fun r => { r with bufferEnd := 0 }

def escapeHttp (b : Byte) : Text :=
  if needsEscape b then [37, hexDigit (b.toNat / 16), hexDigit (b.toNat % 16)] else [b]

def escapeHtml (b : Byte) : Text :=
  if b = 62 then str "&gt;"
  else if b = 60 then str "&lt;"
  else if b = 38 then str "&amp;"
  else if b = 34 then str "&quot;"
  else [b]

/-- The copying loop of the escape writers: `guard` is the room it wants before each
character. The flag says whether the message came to its end. -/
def escapeLoop (esc : Byte → Text) (guard : Nat) : Nat → Text → Text × Bool
  | _, [] => ([], true)
  | left, b :: s =>
    if left < guard then ([], false)
    else
      let (out, ended) := escapeLoop esc guard (left - (esc b).length) s
      (esc b ++ out, ended)

def reqWriteEscape (esc : Byte → Text) (guard : Nat) (msg : Text) : Srv Int := do
  let r ← getReq
  let (out, ended) := escapeLoop esc guard (bufferSize - r.bufferEnd) msg
  modReq fun r => r.append out
  if ended then return (r.bufferEnd + out.length : Nat)
  else
    setStatus .dead
    return -1

/-! The same writers on a message that lies in the output buffer itself, where what is
written can overwrite what is still to be read. -/

/-- The C string at a position of the buffer. -/
def cstr (m : Nat → Byte) : Nat → Nat → Text
  | 0, _ => []
  | k + 1, i => if m i = 0 then [] else m i :: cstr m k (i + 1)

def Request.strAt (r : Request) (off : Nat) : Text := cstr r.buffer (bufferSize + 1 - off) off

def escapeLoopAt (esc : Byte → Text) (guard : Nat) :
    Nat → (Nat → Byte) → Nat → Nat → (Nat → Byte) × Nat × Bool
  | 0, m, dest, inp => (m, dest, m inp = 0)
  | k + 1, m, dest, inp =>
    if m inp = 0 then (m, dest, true)
    else if bufferSize - dest < guard then (m, dest, false)
    else escapeLoopAt esc guard k (store m dest (esc (m inp))) (dest + (esc (m inp)).length) (inp + 1)

def reqWriteEscapeAt (esc : Byte → Text) (guard off : Nat) : Srv Int := do
  let r ← getReq
  let (m, dest, ended) := escapeLoopAt esc guard bufferSize r.buffer r.bufferEnd off
  modReq fun r => { r with buffer := m, bufferEnd := dest }
  if ended then return dest
  else
    setStatus .dead
    return -1

def reqWriteAt (off : Nat) : Srv Int := do reqWrite ((← getReq).strAt off)

def reqWriteEscapeHttp (msg : Text) : Srv Int := reqWriteEscape escapeHttp 3 msg
def reqWriteEscapeHtml (msg : Text) : Srv Int := reqWriteEscape escapeHtml 6 msg

def Request.emptied (r : Request) : Request := { r with bufferStart := 0, bufferEnd := 0 }

/-- The indices after `n` bytes have been taken. -/
def Request.taken (r : Request) (n : Nat) : Request :=
  if r.bufferStart + n = r.bufferEnd then r.emptied
  else { r with bufferStart := r.bufferStart + n }

/-- A flush that lost the connection. -/
def flushFailed : Srv Int := do
  modReq Request.emptied
  setStatus .dead
  return -2

/-- A flush that took `n` bytes. -/
def flushed (n : Nat) : Srv Int := do
  modReq fun r => r.taken n
  return ((← getReq).bufferEnd : Nat)

/-- The `write` of the pending bytes. Indices that have crossed give it a size no object
can have, which it refuses. -/
def writePending : Srv (Except Errno Nat) := do
  let r ← getReq
  if r.bufferEnd < r.bufferStart then return .error .inval else sockWrite r.pending

def reqFlushRaw : Srv Int := do
  let r ← getReq
  if r.status.over then return -2
  else if r.bufferEnd = r.bufferStart then flushed 0
  else
    match ← writePending with
    | .ok n => flushed n
    | .error .again => return -1
    | .error _ => flushFailed

def reqFlush (e : Config) : Srv Int := do
  let r ← getReq
  if r.status.over then return -2
  else if r.bufferEnd = r.bufferStart then flushed 0
  else
    match r.filter with
    | some f =>
      let n ← mimeFilterWrite e f
      if n < 0 then flushFailed else flushed n.toNat
    | none =>
      match ← writePending with
      | .ok n => flushed n
      | .error .again => return -1
      | .error _ => flushFailed

/-- `escape_string` with a buffer of its own. -/
def escapeString (s : Text) : Text := s.flatMap escapeHttp

end Crotalus
