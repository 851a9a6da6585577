import Mathlib.Data.List.DropRight
import Crotalus.Server.Header

namespace Crotalus

open ByteMem

/-! `read.c`. -/

/-- Everything but CR, LF, tab and printable characters is illegal. -/
def legalByte (uc : Byte) : Bool :=
  uc = 13 || uc = 10 || uc = 9 || (32 ≤ uc && uc ≤ 127)

/-- The automaton of `read_header`. -/
def headerStatus (st : Status) (uc : Byte) : Status :=
  match st with
  | .readHeader => if uc = 13 then .oneCr else if uc = 10 then .oneLf else .readHeader
  | .oneCr => if uc = 10 then .oneLf else if uc ≠ 13 then .readHeader else .oneCr
  | .oneLf => if uc = 13 then .twoCr else if uc = 10 then .bodyRead else .readHeader
  | .twoCr => if uc = 10 then .bodyRead else if uc ≠ 13 then .readHeader else .twoCr
  | st => st

/-- The length that a POST announces. -/
def postLength (e : Config) (r : Request) : Option Nat :=
  match r.contentLength.map boaAtoi with
  | none => none
  | some n =>
    if n < 0 then none
    else if e.singlePostLimit ≠ 0 ∧ n > e.singlePostLimit then none
    else some n.toNat

/-- The start of a body: what is already read of it goes to the file first. -/
def startBody (e : Config) (ret : Int) : Srv Int := do
  modify fun c => { c with body := c.req.clientStream.drop c.req.parsePos }
  modReq fun r => { r with
    headerArea := .stream
    headerLine := r.parsePos
    headerEnd := r.clientStream.length }
  setStatus .bodyWrite
  match postLength e (← getReq) with
  | none =>
    sendRBadRequest e
    return 0
  | some n =>
    modReq fun r => { r with
      filesize := n
      filepos := 0
      headerEnd := if u32 (r.headerEnd - r.headerLine) > n then r.headerLine + n else r.headerEnd }
    return ret

/-- Both calls of `process_header_end`. -/
def endHeader (e : Config) : Srv Int := do
  mark .headerEnd
  processHeaderEnd e

/-- The first line of `s`: up to its LF, without the CRs directly before. -/
def firstLine (s : List Byte) : Text := (s.takeWhile (· ≠ 10)).rdropWhile (· = 13)

/-- The string at `header_line`. The end of each complete line was overwritten with a NUL, so
it is the first of the lines between there and `header_end`. -/
def Request.headerText (r : Request) : Text :=
  firstLine ((r.clientStream.drop r.headerLine).take (r.headerEnd - r.headerLine))

/-- A complete header line; `none` when the reading goes on. -/
def headerLineDone (e : Config) : Srv (Option Int) := do
  let r ← getReq
  if r.headerEnd - r.headerLine ≥ maxHeaderLength then
    sendRBadRequest e
    return some 0
  else
    if r.logline ≠ none then
      if ← processOptionLine e r.headerText then
        modReq fun r => { r with headerLine := r.parsePos }
        return none
      else return some 0
    else if ← processLogline e (r.clientStream.take r.headerEnd) then
      if (← getReq).httpVersion = .http09 then
        let ret ← endHeader e
        return some ret
      else
        modReq fun r => { r with headerLine := r.parsePos }
        return none
    else return some 0

def headerDone (e : Config) : Srv Int := do
  let ret ← endHeader e
  if ret ≠ 0 ∧ (← getReq).method = .post then startBody e ret else return ret

/-- One byte of the header. -/
def readByte (e : Config) (uc : Byte) : Srv (Option Int) := do
  if !legalByte uc then
    sendRBadRequest e
    return some 0
  else
    modReq fun r => { r with
      headerEnd := if r.status = .readHeader ∧ (uc = 13 ∨ uc = 10) then r.parsePos else r.headerEnd
      parsePos := r.parsePos + 1 }
    setStatus (headerStatus (← getReq).status uc)
    let st := (← getReq).status
    if st = .oneLf then headerLineDone e
    else if st = .bodyRead then
      let ret ← headerDone e
      return some ret
    else return none

/-- The bytes that are already there. -/
def readLoop (e : Config) : Nat → Srv (Option Int)
  | 0 => return none
  | k + 1 => do
    let r ← getReq
    match r.clientStream[r.parsePos]? with
    | none => return none
    | some uc =>
      match ← readByte e uc with
      | some ret => return some ret
      | none => readLoop e k

/-- More bytes from the client. -/
def readMore : Srv Int := do
  let r ← getReq
  if clientStreamSize - r.clientStream.length < 1 then
    modReq fun r => { r with responseStatus := rBadRequest }
    setStatus .dead
    return 0
  else
    match ← sockRead (clientStreamSize - r.clientStream.length) with
    | .error .intr => return 1
    | .error .again => return -1
    | .error _ =>
      modReq fun r => { r with responseStatus := rBadRequest }
      return 0
    | .ok bs =>
      if bs = [] then
        modReq fun r => { r with responseStatus := rBadRequest }
        return 0
      else
        modReq fun r => { r with clientStream := r.clientStream ++ bs }
        return 1

def readHeader (e : Config) : Srv Int := do
  let r ← getReq
  match ← readLoop e (r.clientStream.length - r.parsePos) with
  | some ret => return ret
  | none =>
    if (← getReq).status.rank < Status.rank .bodyRead then readMore else return 1

def readBody (e : Config) : Srv Int := do
  let r ← getReq
  let bytesFree := u32 (bufferSize + 2^32 - (r.headerEnd - r.headerLine))
  let n := min (u32 (u64 (r.filesize + 2^64 - r.filepos))) bytesFree
  if n = 0 then
    setStatus .bodyWrite
    return 1
  else
    match ← sockRead n with
    | .error .again => return -1
    | .error _ =>
      crotalusPerror e
      modReq fun r => { r with responseStatus := rBadRequest }
      return 0
    | .ok bs =>
      if bs = [] then
        sendRBadRequest e
        return 0
      else
        setStatus .bodyWrite
        modReq fun r => { r with
          buffer := store r.buffer r.headerEnd bs
          headerEnd := r.headerEnd + bs.length }
        return 1

/-- The bytes from `header_line` on, wherever it points. -/
def Request.bodyBytes (r : Request) (n : Nat) : List Byte :=
  match r.headerArea with
  | .stream => (r.clientStream.drop r.headerLine).take n
  | .buffer => slice r.buffer r.headerLine n

/-- How much of the buffered body is to go to the file. -/
def Request.bodyCount (r : Request) : Nat :=
  let avail := u32 (r.headerEnd - r.headerLine)
  if r.filepos + avail > r.filesize then u32 (u64 (r.filesize + 2^64 - r.filepos)) else avail

def writeBody (e : Config) : Srv Int := do
  let r ← getReq
  let n := r.bodyCount
  if n = 0 then
    modReq fun r => { r with headerArea := .buffer, headerLine := 0, headerEnd := 0 }
    if r.filepos ≥ r.filesize then
      let c ← get
      mark (.bodyDone c.postFile c.body)
      initCgi e
    else
      setStatus .bodyRead
      return 1
  else
    match ← postWrite (r.bodyBytes n) with
    | .error .again => return -1
    | .error .intr => return 1
    | .error _ =>
      crotalusPerror e
      return 0
    | .ok k =>
      modReq fun r => { r with filepos := r.filepos + k, headerLine := r.headerLine + k }
      return 1

end Crotalus
