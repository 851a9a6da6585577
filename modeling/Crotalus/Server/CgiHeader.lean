import Crotalus.Server.Response

namespace Crotalus

open ByteMem

/-! `cgi_header.c`. -/

def poke (i : Nat) (bs : List Byte) : Srv Unit :=
  modReq fun r => { r with buffer := store r.buffer i bs }

/-- Position of the blank line in a script's output: of the first `\n\r\n`, else of the
first `\n\n`. -/
def blankLine (s : Text) : Option Nat := (strstr [10, 13, 10] s).or (strstr [10, 10] s)

/-- `while (*c2 == '\r') --c2;` -/
def skipCrBack (m : Nat → Byte) : Nat → Nat
  | 0 => 0
  | i + 1 => if m (i + 1) = 13 then skipCrBack m i else i + 1

/-- `while ((*c2 == '\n' || *c2 == '\r') && c2 < req->header_end) ++c2;` -/
def skipEol (m : Nat → Byte) (stop : Nat) : Nat → Nat → Nat
  | 0, i => i
  | k + 1, i => if (m i = 10 ∨ m i = 13) ∧ i < stop then skipEol m stop k (i + 1) else i

/-- A redirect to the URL behind `Location: `, which is at `url` in the buffer. -/
def locationUrl (e : Config) (url : Nat) : Srv Unit := do
  let r ← getReq
  let lf := url + (strchr 10 (r.strAt url)).getD 0
  let c2 := skipCrBack r.buffer (lf - 1) + 1
  poke c2 [0]
  let r ← getReq
  let rest := skipEol r.buffer r.headerEnd bufferSize (c2 + 1)
  if rest = r.headerEnd then sendRMovedTemp e (.httpAt url) (.htmlAt url) (.raw [])
  else sendRMovedTemp e (.httpAt url) (.htmlAt url) (.rawAt rest)

/-- A path of the server itself is refused. -/
def locationReply (e : Config) (url : Nat) : Srv Unit := do
  if (← getReq).buffer url = 47 then sendRBadRequest e else locationUrl e url

def cgiLocation (e : Config) : Srv Int := do
  mark .locationDone
  locationReply e ((← getReq).headerLine + 10)
  setStatus .done
  return 1

/-- The script's output moves behind the server's header; `c` is the blank line. -/
def cgiMerge (e : Config) (c : Nat) : Srv Int := do
  sendRRequestOk e
  modReq fun r =>
    if r.method = .head then
      { r with headerEnd := if r.buffer (c + 1) = 13 then c + 2 else c + 1, cgiStatus := .done }
    else r
  let r ← getReq
  let howmuch := r.headerEnd - r.headerLine
  if r.bufferEnd + howmuch > bufferSize then
    modReq Request.emptied
    sendRError e
    return 0
  else
    modReq fun r => { r.append (slice r.buffer r.headerLine howmuch) with
      headerLine := r.bufferEnd + howmuch
      headerEnd := r.bufferEnd + howmuch }
    let _ ← reqFlush e
    if r.method = .head then return 0 else return 1

def processCgiHeader (e : Config) : Srv Int := do
  modReq fun r => { r with cgiStatus := if r.cgiStatus ≠ .done then .buffer else .done }
  let r ← getReq
  let buf := r.strAt r.headerLine
  match blankLine buf with
  | none =>
    sendRBadGateway e
    return 0
  | some i =>
    let c := r.headerLine + i
    if r.httpVersion = .http09 then
      modReq fun r => { r with headerLine := if r.buffer (c + 1) = 13 then c + 2 else c + 1 }
      return 1
    else if strncaseEq buf (str "Status: ") then
      poke (r.headerLine - 1) (str "HTTP/1.0 ")
      modReq fun r => { r with headerLine := r.headerLine - 1 }
      return 1
    else if strncaseEq buf (str "Location: ") then cgiLocation e
    else cgiMerge e c

end Crotalus
