import Crotalus.Server.Get
import Crotalus.Server.Alias
import Crotalus.Server.Pipe

namespace Crotalus

/-! The request line, the header fields and the end of the header: `request.c`. -/

/-- `%u` of `sscanf`. -/
def scanUint (s : Text) : Option (Nat × Text) :=
  let s := s.dropWhile isSpace
  let neg := s.head? = some 45
  let s := if s.head? = some 45 ∨ s.head? = some 43 then s.drop 1 else s
  let ds := s.takeWhile isDigit
  if ds = [] then none
  else
    let v := min (digitsValue ds) (2^64 - 1)
    some (u32 (if neg then 2^64 - v else v), s.drop ds.length)

/-- `sscanf(s, "HTTP/%u.%u", ..)`. -/
def scanVersion (s : Text) : Option (Nat × Nat) := do
  if startsWith s (str "HTTP/") then
    let (p1, s) ← scanUint (s.drop 5)
    let (p2, _) ← scanUint (← scanChar 46 s)
    return (p1, p2)
  else none

def parseMethod (line : Text) : Option (Method × Text) :=
  if startsWith line (str "GET ") then some (.get, line.drop 4)
  else if startsWith line (str "HEAD ") then some (.head, line.drop 5)
  else if startsWith line (str "POST ") then some (.post, line.drop 5)
  else none

/-- The URI of the request line and, in an absolute one, its host. -/
def parseTarget (target : Text) : Option (Text × Option Text) :=
  if startsWith target (str "http://") then
    let rest := target.drop 7
    let host := rest.takeWhile (· ≠ 47)
    if host = [] ∨ rest.dropWhile (· ≠ 47) = [] then none
    else some (rest.dropWhile (· ≠ 47), some host)
  else some (target, none)

/-- What follows the URI; `none` is a version the server does not know. -/
def parseVersion (s : Text) : Option Version :=
  let s := s.dropWhile (· = 32)
  if s = [] then some .http09
  else
    match scanVersion s with
    | some (0, 9) => some .http09
    | some (1, 0) => some .http10
    | some (1, 1) => some .http11
    | _ => none

def badRequest (e : Config) : Srv Bool := do
  sendRBadRequest e
  return false

/-- The version fields; 1.1 starts with keep-alive. -/
def setVersion (e : Config) (v : Version) : Srv Bool := do
  modReq fun r => { r with
    httpVersion := v
    keepalive := if v = .http11 then .active else r.keepalive }
  if (← getReq).method = .head ∧ v = .http09 then badRequest e
  else
    modReq fun r => { r with cgiEnvIndex := e.commonCgiEnv.length }
    return true

def processLogline (e : Config) (line : Text) : Srv Bool := do
  mark .logline
  modReq fun r => { r with logline := some line }
  if line.length < 5 then badRequest e
  else
    match parseMethod line with
    | none =>
      sendRNotImplemented e
      return false
    | some (m, rest) =>
      modReq fun r => { r with method := m, httpVersion := .http10 }
      let rest := rest.dropWhile (· = 32)
      let target := rest.takeWhile (· ≠ 32)
      if target.length > maxHeaderLength then badRequest e
      else
        match parseTarget target with
        | none => badRequest e
        | some (uri, host) =>
          modReq fun r => { r with
            requestUri := uri
            headerHost := host.or r.headerHost }
          match parseVersion (rest.drop target.length) with
          | none => badRequest e
          | some v => setVersion e v

/-- Name and value of a header line. -/
def splitOption (line : Text) : Option (Text × Text) :=
  (strchr 58 line).map fun i =>
    (toUpper (line.take i), (line.drop (i + 1)).dropWhile fun b => b = 32 ∨ b = 9)

def rangeOption (e : Config) (value : Text) : Srv (Option Bool) := do
  let r ← getReq
  if (r.ranges.head?.map (·.stop)) = some (2^31 - 1) then return some true
  else
    let (r', ok) := r.rangeParse value
    modReq fun r => { r with ranges := r'.ranges, numranges := r'.numranges }
    if ok then return none
    else
      sendRInvalidRange e
      return some false

/-- The fields the server acts on; `none` leaves the line to the environment. -/
def knownOption (e : Config) (name value : Text) : Srv (Option Bool) := do
  let r ← getReq
  if startsWith name (str "ACCEPT_ENCODING") then
    modReq fun r => { r with encoding := value.take bufferSize }
    return some true
  else if name = str "ACCEPT" then return some true
  else if name = str "CONTENT_TYPE" ∧ r.contentType = none then
    modReq fun r => { r with contentType := some value }
    return some true
  else if name = str "CONTENT_LENGTH" ∧ r.contentLength = none then
    modReq fun r => { r with contentLength := some value }
    return some true
  else if name = str "CONNECTION" ∧ e.kaMax ≠ 0 ∧ r.keepalive ≠ .stopped then
    modReq fun r => { r with
      keepalive := if strncaseEq value (str "Keep-Alive") then .active else .stopped }
    return some true
  else if name = str "HOST" ∧ r.headerHost = none then
    modReq fun r => { r with headerHost := some value }
    return some true
  else if name = str "IF_MODIFIED_SINCE" ∧ r.ifModifiedSince = none then
    modReq fun r => { r with ifModifiedSince := some value }
    return some true
  else if name = str "REFERER" then
    modReq fun r => { r with headerReferer := some value }
    if ← addCgiEnv (str "REFERER") value true then return none else return some false
  else if name = str "RANGE" then rangeOption e value
  else if name = str "USER_AGENT" then
    modReq fun r => { r with headerUserAgent := some value }
    return some (← addCgiEnv (str "USER_AGENT") value true)
  else return none

def processOptionLine (e : Config) (line : Text) : Srv Bool := do
  mark .optionLine
  match splitOption line with
  | none => return false
  | some (name, value) =>
    if value = [] then return true
    else
      match ← knownOption e name value with
      | some ok => return ok
      | none => addCgiEnv name value true

/-! The end of the header. -/

/-- Decoding and cleaning of the URI. -/
def decodeUri (e : Config) : Srv Bool := do
  let r ← getReq
  match unescapeUri r.requestUri with
  | none => badRequest e
  | some (path, query) =>
    modReq fun r => { r with
      requestUri := cleanPathname path
      queryString := query.or r.queryString }
    if (cleanPathname path).head? ≠ some 47 then badRequest e else return true

/-- The host that picks the tree of a virtual server. -/
def chooseHost (e : Config) : Srv Bool := do
  if e.vhostRoot = none then return true
  else
    let r ← getReq
    if ← allocOk then
      let host := (strlower (r.headerHost.getD e.defaultVhost)).takeWhile (· ≠ 58)
      modReq fun r => { r with host := some host }
      if checkHost host < 1 then badRequest e else return true
    else
      sendRError e
      return false

/-- The file that takes the body of a POST. -/
def openPost (e : Config) : Srv Int := do
  let c ← get
  let fd := c.sys.tmpfile.getD 0
  if fd = 0 then
    sendRError e
    return 0
  else
    modify fun c => { c with postFile := [], req := { c.req with postDataFd := fd } }
    if c.sys.cloexec then return 1
    else
      crotalusPerror e
      modReq fun r => { r with postDataFd := 0 }
      return 0

/-- The definition that `mime_interp_extension` selects for the request. -/
def selectMime (e : Config) : Srv Unit := modify fun c =>
  { c with req := { c.req with
      mime := c.req.mime.or (mimeInterpExtension e c.sys.stat (c.req.pathname.getD [])) } }

def selectFilter (e : Config) : Srv Unit := do
  modReq fun r => if r.encoding ≠ [] then { r with filter := mimeInterpFilter e r } else r
  match (← getReq).filter with
  | some f => mimeFilterInit f
  | none => pure ()

/-- The plain response, when no handler has taken the request. -/
def startGet (e : Config) : Srv Int := do
  selectFilter e
  mark .handlerDeclined
  setStatus .write
  initGet e

def answerGet (e : Config) : Srv Int := do
  selectMime e
  let err ← mimeInterpRequest e
  if err ≠ 0 then return err else startGet e

/-- The request after its URI is translated. -/
def dispatchRequest (e : Config) : Srv Int := do
  let r ← getReq
  if r.method = .post then openPost e
  else if r.cgiType ≠ .unset then initCgi e
  else answerGet e

/-- The part before the choice of a handler: the URI is decoded and translated. -/
def prepareRequest (e : Config) : Srv Bool := do
  if (← getReq).logline = none then
    sendRError e
    return false
  else if ← decodeUri e then
    if ← chooseHost e then
      if (← translateUri e) = 0 then
        squashKa
        return false
      else return true
    else return false
  else return false

def processHeaderEnd (e : Config) : Srv Int := do
  if ← prepareRequest e then dispatchRequest e else return 0

end Crotalus
