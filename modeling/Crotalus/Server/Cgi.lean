import Crotalus.Server.Response

namespace Crotalus

/-! The server's side of `mime_cgi.c`. -/

def addCgiEnv (key value : Text) (httpPrefix : Bool) : Srv Bool := do
  let r ← getReq
  if r.cgiEnvIndex < cgiEnvMax then
    if ← allocOk then
      let p := (if httpPrefix then str "HTTP_" else []) ++ key ++ [61] ++ value
      modReq fun r => { r with
        cgiEnv := fun i => if i = r.cgiEnvIndex then some p else r.cgiEnv i
        cgiEnvIndex := r.cgiEnvIndex + 1 }
      return true
    else return false
  else return false

/-- A sequence of `my_add_cgi_env`: the first failure ends it. -/
def addCgiEnvs : List (Text × Text) → Srv Bool
  | [] => return true
  | (key, value) :: kvs => do
    if ← addCgiEnv key value false then addCgiEnvs kvs else return false

def ifSet (key : String) : Option Text → List (Text × Text)
  | some v => [(str key, v)]
  | none => []

def requestMethod : Method → Text
  | .post => str "POST"
  | .head => str "HEAD"
  | .get => str "GET"
  | _ => str "UNKNOWN"

/-- The variables `complete_env` adds, in its order. -/
def envEntries (e : Config) (r : Request) : List (Text × Text) :=
  [(str "REQUEST_METHOD", requestMethod r.method)] ++ ifSet "HTTP_HOST" r.headerHost ++
    [(str "SERVER_ADDR", r.localIpAddr), (str "SERVER_PROTOCOL", httpVerString r.httpVersion),
      (str "REQUEST_URI", r.requestUri)] ++
    ifSet "PATH_INFO" r.pathInfo ++ ifSet "PATH_TRANSLATED" r.pathTranslated ++
    [(str "SCRIPT_NAME", r.scriptName.getD [])] ++ ifSet "QUERY_STRING" r.queryString ++
    [(str "REMOTE_ADDR", r.remoteIpAddr), (str "REMOTE_PORT", simpleItoa r.remotePort)] ++
    (if r.method = .post then
      [(str "CONTENT_TYPE", r.contentType.getD e.defaultType)] ++
        ifSet "CONTENT_LENGTH" r.contentLength
    else [])

def completeEnv (e : Config) : Srv Bool := do
  modReq fun r => { r with
    cgiEnv := fun i => if i < e.commonCgiEnv.length then e.commonCgiEnv[i]? else r.cgiEnv i }
  if ← addCgiEnvs (envEntries e (← getReq)) then
    modReq fun r => { r with
      cgiEnv := fun i => if i = r.cgiEnvIndex then none else r.cgiEnv i }
    return true
  else return false

/-- The job goes to the worker with the number of the client's descriptor, whether or not
the environment was complete. -/
def initWorkCgi (e : Config) : Srv Int := do
  let _ ← completeEnv e
  mark .pushWork
  let err := (← get).sys.shprocPush
  if err ≠ 0 then return err
  else
    setStatus .buffPoll
    return 1

def Request.usePipes (r : Request) : Bool :=
  r.cgiType = .exec || (r.cgiType = .unset && (r.pathname.getD []).getLast? = some 47)

/-- The parent's side of a successful `fork`. -/
def cgiParent (pipe : Nat) : Srv Int := do
  modReq fun r => if r.method = .post then { r with postDataFd := 0 } else r
  let r ← getReq
  if !r.usePipes then return 0
  else
    modReq fun r => { r with dataFd := pipe }
    setStatus .pipeRead
    let half := if r.cgiType = .exec then bufferSize / 2 else 0
    modReq fun r => { r with
      cgiStatus := if r.cgiType = .exec then .parse else .buffer
      headerArea := .buffer
      headerLine := half
      headerEnd := half
      filepos := 0 }
    return 1

def cgiStarted (pipe : Nat) : Srv Int := do
  mark .startCgi
  cgiParent pipe

def forkCgi (e : Config) : Srv Int := do
  let c ← get
  if c.req.usePipes && c.sys.cgiPipe.isNone then return 0
  else if c.req.usePipes && !c.sys.nonblock then return 0
  else if !c.sys.fork then
    crotalusPerror e
    return 0
  else cgiStarted (c.sys.cgiPipe.getD 0)

def initCgi (e : Config) : Srv Int := do
  squashKa
  let r ← getReq
  if e.build.haveLibshare && (r.cgiType = .work || r.cgiType = .php) then initWorkCgi e
  else if r.cgiType ≠ .unset then
    if ← completeEnv e then forkCgi e else return 0
  else forkCgi e

end Crotalus
