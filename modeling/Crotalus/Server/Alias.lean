import Crotalus.Server.Response

namespace Crotalus

open ByteMem

/-! `alias.c`. -/

def aliasHashtableSize : Nat := 17

/-- A `char` converted to `unsigned int`. -/
def charU32 (b : Byte) : Nat := if b < 128 then b.toNat else 2^32 - 256 + b.toNat

def getAliasHashValue : Text → Nat
  | [] => 0
  | c :: s =>
    u32 ((s.takeWhile (· ≠ 47)).foldl (fun h b => u32 (h + charU32 b)) (charU32 c)) %
      aliasHashtableSize

/-- The test of `find_alias`. -/
def Alias.matchesUri (a : Alias) (uri : Text) : Bool :=
  startsWith uri a.fakename &&
    (a.fakename.getLast? = some 47 ||
      (uri.drop a.fakename.length).head? = none || (uri.drop a.fakename.length).head? = some 47)

def findAlias (e : Config) (uri : Text) : Option Alias :=
  (e.aliasHashtable (getAliasHashValue uri)).find? fun a => a.matchesUri uri

/-! `init_script_alias` works in a static buffer of `MAX_HEADER_LENGTH + 1` bytes. -/

def strBuf (m : Nat → Byte) (off : Nat) : Text := cstr m (maxHeaderLength + 1 - off) off

/-- How the search for the program in the buffer ends. -/
inductive ScriptScan where
  | missing
  | refused
  | slash (i : Nat)
  | toEnd
  deriving DecidableEq, Repr

/-- The search loop from the byte behind position `i`: the buffer it leaves and its end. -/
def scriptLoop (stat : Text → Option FileKind) (accessRX : Text → Bool) :
    Nat → (Nat → Byte) → Nat → (Nat → Byte) × ScriptScan
  | 0, m, _ => (m, .toEnd)
  | k + 1, m, i =>
    let c := m (i + 1)
    if c = 47 then
      let cut := store m (i + 1) [0]
      match stat (strBuf cut 0) with
      | none => (cut, .missing)
      | some .dir => scriptLoop stat accessRX k m (i + 1)
      | some kind =>
        if kind ≠ .reg ∨ !accessRX (strBuf cut 0) then (cut, .refused) else (m, .slash (i + 1))
    else if c = 0 then (m, .toEnd)
    else scriptLoop stat accessRX k m (i + 1)

/-- Where `script_name` is cut. -/
def scriptCut (uri pathInfo : Text) : Int := uri.length - pathInfo.length

/-- `script_name` behind the cut; a cut in front of the string leaves the string alone. -/
def cutScriptName (uri pathInfo : Text) : Text :=
  if scriptCut uri pathInfo < 0 then uri else uri.take (scriptCut uri pathInfo).toNat

def setScriptPath (m : Nat → Byte) : Srv Unit := modify fun c => { c with scriptPath := m }

/-- The first entry of the bucket whose name starts the extra path. -/
def pathInfoAlias (e : Config) (pathInfo : Text) : Option Alias :=
  (e.aliasHashtable (getAliasHashValue pathInfo)).find? fun a => startsWith pathInfo a.fakename

/-- A `~user` path, from the part behind the tilde: home directory, user directory, rest. -/
def userPath (e : Config) (userdir behind : Text) : Option Text :=
  (e.getHomeDir (behind.takeWhile (· ≠ 47))).map fun home =>
    home ++ [47] ++ userdir ++ behind.dropWhile (· ≠ 47)

def setTranslated (e : Config) (t : Text) : Srv Bool := do
  if ← allocOk then
    modReq fun r => { r with pathTranslated := some t }
    return true
  else
    crotalusPerror e
    return false

/-- PATH_TRANSLATED of the extra path. -/
def translatePathInfo (e : Config) (pathInfo : Text) : Srv Bool := do
  match pathInfoAlias e pathInfo with
  | some a =>
    if a.realname.length + pathInfo.length - a.fakename.length + 1 > maxHeaderLength + 1 then
      sendRBadRequest e
      return false
    else setTranslated e (a.realname ++ pathInfo.drop a.fakename.length)
  | none =>
    match e.userdir, decide (pathInfo.getD 1 0 = 126), e.docroot with
    | some userdir, true, _ =>
      match userPath e userdir (pathInfo.drop 2) with
      | some t => setTranslated e t
      | none =>
        sendRNotFound e
        return false
    | _, _, some docroot => setTranslated e (docroot ++ pathInfo)
    | _, _, none => return true

/-- The end of `init_script_alias`. -/
def takePathname (e : Config) : Srv Int := do
  if ← allocOk then
    let path := strBuf (← get).scriptPath 0
    modReq fun r => { r with pathname := some path }
    return 1
  else
    crotalusPerror e
    return 0

/-- The whole path names the program. -/
def scriptAtEnd (e : Config) : Srv Int := do
  let c ← get
  let path := strBuf c.scriptPath 0
  match c.sys.stat path with
  | none =>
    sendRNotFound e
    return 0
  | some kind =>
    if kind = .reg ∧ c.sys.accessRX path then takePathname e
    else
      sendRForbidden e
      return 0

/-- The program ends at position `i`, and the rest is extra path. -/
def scriptAtSlash (e : Config) (i : Nat) : Srv Int := do
  let c ← get
  if ← allocOk then
    let pathInfo := strBuf c.scriptPath i
    modReq fun r => { r with
      pathInfo := some pathInfo
      scriptName := some (cutScriptName r.requestUri pathInfo) }
    setScriptPath (store c.scriptPath i [0])
    if ← translatePathInfo e pathInfo then takePathname e else return 0
  else
    crotalusPerror e
    return 0

/-- What goes in front of the alias's real name: with virtual hosts a tree for each. -/
def scriptRoot (e : Config) (r : Request) : Text :=
  match e.vhostRoot with
  | some root => root ++ [47] ++ r.localIpAddr ++ [47] ++ r.host.getD [] ++ [47]
  | none => []

def nphOr (e : Config) (r : Request) (rest : Text) : CgiType :=
  if rest.take 4 = str "nph-" ∨ r.httpVersion = .http09 then .nph
  else if e.build.haveLibshare then .work
  else .exec

def initScriptAlias (e : Config) (a : Alias) : Srv Int := do
  let c ← get
  let r := c.req
  let path := scriptRoot e r ++ a.realname ++ r.requestUri.drop a.fakename.length
  if path.length + 1 > maxHeaderLength + 1 then
    sendRBadRequest e
    return 0
  else
    let m := store c.scriptPath 0 (path ++ [0])
    modReq fun r => { r with cgiType := nphOr e r (strBuf m a.realname.length) }
    let (m, found) := scriptLoop c.sys.stat c.sys.accessRX (maxHeaderLength + 1) m a.realname.length
    setScriptPath m
    match found with
    | .missing =>
      sendRNotFound e
      return 0
    | .refused =>
      sendRForbidden e
      return 0
    | .slash i =>
      if ← allocOk then
        modReq fun r => { r with scriptName := some r.requestUri }
        scriptAtSlash e i
      else
        crotalusPerror e
        return 0
    | .toEnd =>
      if ← allocOk then
        modReq fun r => { r with scriptName := some r.requestUri }
        scriptAtEnd e
      else
        crotalusPerror e
        return 0

/-! `translate_uri`. -/

/-- The document-root path of a request that matches no alias, by the first of the rules
for user directories, virtual hosts and the document root that applies. -/
inductive Located where
  | path (p : Text)
  | emptyUser
  | nowhere

def locate (e : Config) (r : Request) : Located :=
  match e.userdir, decide (r.requestUri.getD 1 0 = 126) with
  | some userdir, true =>
    if r.requestUri.drop 2 = [] then .emptyUser
    else
      match userPath e userdir (r.requestUri.drop 2) with
      | some p => .path p
      | none => .nowhere
  | _, _ =>
    match e.vhostRoot, e.docroot with
    | some root, _ =>
      .path (root ++ [47] ++ r.localIpAddr ++ [47] ++ r.host.getD [] ++ [47] ++ str "htdocs" ++
        r.requestUri)
    | none, some docroot =>
      .path (docroot ++ (if e.virtualhost then [47] ++ r.localIpAddr else []) ++ r.requestUri)
    | none, none => .nowhere

def refusePost (e : Config) (ok : Srv Int) : Srv Int := do
  if (← getReq).method = .post then
    sendRBadRequest e
    return 0
  else ok

def usePath (e : Config) (path : Text) (ok : Srv Int) : Srv Int := do
  if ← allocOk then
    modReq fun r => { r with pathname := some path }
    ok
  else
    crotalusPerror e
    return 0

def translateAlias (e : Config) (a : Alias) : Srv Int := do
  let r ← getReq
  let path := a.realname ++ r.requestUri.drop a.fakename.length
  if path.length + 1 > maxHeaderLength + 1 then
    sendRBadRequest e
    return 0
  else if a.type = .redirect then
    refusePost e do
      sendRMovedTemp e (.http path) (.html path) (.raw [])
      return 0
  else usePath e path (return 1)

/-- The room `translate_uri` asks for is one byte more without virtual hosts or users. -/
def pathRoom (e : Config) (r : Request) (path : Text) : Nat :=
  if e.vhostRoot = none ∧ !e.virtualhost ∧ (e.userdir = none ∨ r.requestUri.getD 1 0 ≠ 126)
  then path.length + 2 else path.length + 1

def translateUri (e : Config) : Srv Int := do
  let r ← getReq
  if r.requestUri.head? ≠ some 47 then
    sendRBadRequest e
    return 0
  else
    match findAlias e r.requestUri with
    | some a => if a.type = .scriptAlias then initScriptAlias e a else translateAlias e a
    | none =>
      match locate e r with
      | .emptyUser =>
        sendRBadRequest e
        return 0
      | .nowhere =>
        sendRNotFound e
        return 0
      | .path path =>
        if pathRoom e r path > maxHeaderLength + 1 then
          sendRBadRequest e
          return 0
        else usePath e path (refusePost e (return 1))

end Crotalus
