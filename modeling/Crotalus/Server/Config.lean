import Crotalus.Server.Settings

namespace Crotalus

open ByteMem

/-! `config.c`, with the start and the reload of `boa.c` and `signals.c`. A result `none`
stands for a server that exits, or that reads or writes outside its line buffer. -/

/-! The common CGI environment of `mime_cgi.c`. -/

def envGen (key : Text) (value : Option Text) : Text := key ++ [61] ++ value.getD []

/-- The variables `create_common_env` allocates. -/
def builtinEnv (h : Host) (s : Settings) : List Text :=
  [envGen (str "PATH") (some ((s.string .cgiPath).getD (s.crPrefGet (str "CGIPath")))),
    envGen (str "SERVER_SOFTWARE") (some (str "Crotalus/4.1")),
    envGen (str "SERVER_NAME") (s.string .serverName),
    envGen (str "GATEWAY_INTERFACE") (some (str "CGI/1.1")),
    envGen (str "SERVER_PORT") (some (simpleItoa (s.int .serverPort % 2^32).toNat))] ++
    (if h.ncsaCgiEnv then [envGen (str "DOCUMENT_ROOT") s.crprefDocroot,
      envGen (str "SERVER_ROOT") (s.string .serverRoot)] else []) ++
    [envGen (str "SERVER_ADMIN") (s.string .serverAdmin)]

/-- Whatever the array held before is given up. -/
def createCommonEnv (h : Host) (s : Settings) : Settings :=
  { s with commonCgiEnv := builtinEnv h s }

def addToCommonEnv (s : Settings) (key : Text) (value : Option Text) : Option Settings :=
  let env := s.commonCgiEnv ++ [envGen key value]
  if env.length > cgiEnvMax then none else some { s with commonCgiEnv := env }

/-! The actions of the directives. -/

def digitValue (b : Byte) : Nat :=
  if isDigit b then b.toNat - 48
  else if 97 ≤ lowerByte b ∧ lowerByte b ≤ 122 then (lowerByte b).toNat - 87
  else 36

/-- The base that `strtol` finds when it is told none, and the digits behind its mark. -/
def strtolBase (s : Text) : Nat × Text :=
  if s.head? = some 48 ∧ (s.drop 1).head?.map lowerByte = some 120 ∧
      ((s.drop 2).head?.map digitValue).getD 36 < 16 then (16, s.drop 2)
  else if s.head? = some 48 then (8, s)
  else (10, s)

/-- `strtol` with base 0, and what is behind the number. -/
def strtol (s : Text) : Int × Text :=
  let t := s.dropWhile isSpace
  let neg := t.head? = some 45
  let t := if t.head? = some 45 ∨ t.head? = some 43 then t.drop 1 else t
  let (base, ds) := strtolBase t
  let digits := ds.takeWhile fun b => digitValue b < base
  let n : Int := digits.foldl (fun v b => v * base + digitValue b) 0
  if digits = [] then (0, s)
  else (if neg then max (-n) (-2^63) else min n (2^63 - 1), ds.drop digits.length)

/-- The number that all of a string is. -/
def wholeNumber (s : Text) : Option Int :=
  if s ≠ [] ∧ (strtol s).2 = [] then some (i32 (strtol s).1) else none

def cSetInt (v : IntVar) (v1 : Text) (s : Settings) : Settings :=
  match wholeNumber v1 with
  | some i => { s with int := Function.update s.int v i }
  | none => s

def cSetString (v : StrVar) (v1 : Text) (s : Settings) : Settings :=
  { s with string := Function.update s.string v (some v1) }

def cSetUnity (v : FlagVar) (v1 : Option Text) (s : Settings) : Settings :=
  let value := !(v1.map (strcaseEq · (str "off"))).getD false
  { s with flag := Function.update s.flag v value }

/-- A name that the database does not have ends only a server that runs as root. -/
def idOf (h : Host) (database : Text → Option Int) (old : Int) (v1 : Text) : Option Int :=
  match wholeNumber v1 with
  | some i => some i
  | none =>
    match database v1 with
    | some i => some i
    | none => if h.uid = 0 then none else some old

def cSetUser (h : Host) (v1 : Text) (s : Settings) : Option Settings :=
  (idOf h h.getpwnam s.serverUid v1).map fun i => { s with serverUid := i }

def cSetGroup (h : Host) (v1 : Text) (s : Settings) : Option Settings :=
  (idOf h h.getgrnam s.serverGid v1).map fun i => { s with serverGid := i }

def cAddAccess (h : Host) (type : Access) (v1 : Text) (s : Settings) : Settings :=
  if h.build.accessControl then s.accessAdd h ((s.string .serverName).getD []) v1 type else s

inductive Action where
  | setInt (v : IntVar)
  | setString (v : StrVar)
  | setUnity (v : FlagVar)
  | setPreference (token : String)
  | setUser
  | setGroup
  | addMimeType
  | addAlias (type : AliasType)
  | addAccess (type : Access)
  | addCgiEnv
  deriving DecidableEq, Repr

inductive StmtType where
  | noArgs | oneArg | twoArgs
  deriving DecidableEq, Repr

structure Command where
  name : Text
  type : StmtType
  action : Action
  deriving DecidableEq, Repr

def clist (h : Host) : List Command := [
  ⟨str "Port", .oneArg, .setInt .serverPort⟩,
  ⟨str "Listen", .oneArg, .setString .serverIp⟩,
  ⟨str "BackLog", .oneArg, .setInt .backlog⟩,
  ⟨str "User", .oneArg, .setUser⟩,
  ⟨str "Group", .oneArg, .setGroup⟩,
  ⟨str "ServerAdmin", .oneArg, .setString .serverAdmin⟩,
  ⟨str "ServerRoot", .oneArg, .setString .serverRoot⟩,
  ⟨str "UseLocaltime", .noArgs, .setUnity .useLocaltime⟩,
  ⟨str "ErrorLog", .oneArg, .setPreference "ErrorLog"⟩,
  ⟨str "AccessLog", .oneArg, .setPreference "AccessLog"⟩,
  ⟨str "CGILog", .oneArg, .setPreference "CGILog"⟩,
  ⟨str "VerboseCGILogs", .noArgs, .setUnity .verboseCgiLogs⟩,
  ⟨str "ServerName", .oneArg, .setString .serverName⟩,
  ⟨str "VirtualHost", .noArgs, .setUnity .virtualhost⟩,
  ⟨str "VHostRoot", .oneArg, .setString .vhostRoot⟩,
  ⟨str "DefaultVHost", .oneArg, .setString .defaultVhost⟩,
  ⟨str "DocumentRoot", .oneArg, .setPreference "DocumentRoot"⟩,
  ⟨str "UserDir", .oneArg, .setPreference "UserDir"⟩,
  ⟨str "DirectoryIndex", .oneArg, .setPreference "DirectoryIndex"⟩,
  ⟨str "DirectoryMaker", .oneArg, .setString .dirmaker⟩,
  ⟨str "DirectoryCache", .oneArg, .setPreference "DirectoryCache"⟩,
  ⟨str "PidFile", .oneArg, .setString .pidFile⟩,
  ⟨str "KeepAliveMax", .oneArg, .setInt .kaMax⟩,
  ⟨str "KeepAliveTimeout", .oneArg, .setInt .kaTimeout⟩,
  ⟨str "DefaultType", .oneArg, .setString .defaultType⟩,
  ⟨str "DefaultCharset", .oneArg, .setString .defaultCharset⟩,
  ⟨str "AddType", .twoArgs, .addMimeType⟩,
  ⟨str "ScriptAlias", .twoArgs, .addAlias .scriptAlias⟩,
  ⟨str "Redirect", .twoArgs, .addAlias .redirect⟩,
  ⟨str "Alias", .twoArgs, .addAlias .alias⟩,
  ⟨str "SinglePostLimit", .oneArg, .setInt .singlePostLimit⟩,
  ⟨str "CGIPath", .oneArg, .setString .cgiPath⟩,
  ⟨str "CGIumask", .oneArg, .setInt .cgiUmask⟩,
  ⟨str "MaxConnections", .oneArg, .setInt .maxConnections⟩,
  ⟨str "ConcealServerIdentity", .noArgs, .setUnity .concealServerIdentity⟩,
  ⟨str "Allow", .oneArg, .addAccess .allow⟩,
  ⟨str "Deny", .oneArg, .addAccess .deny⟩] ++
  (if h.setrlimit then [
    ⟨str "CGIRlimitCpu", .twoArgs, .setInt .cgiRlimitCpu⟩,
    ⟨str "CGIRlimitData", .twoArgs, .setInt .cgiRlimitData⟩,
    ⟨str "CGINice", .twoArgs, .setInt .cgiNice⟩] else []) ++ [
  ⟨str "CGIEnv", .twoArgs, .addCgiEnv⟩,
  ⟨str "ParentIndex", .noArgs, .setUnity .useParentindex⟩]

def lookupKeyword (h : Host) (c : Text) : Option Command :=
  (clist h).find? fun p => strcaseEq c p.name

/-- A directive as `apply_command` calls its action. -/
structure Call where
  action : Action
  v1 : Option Text
  v2 : Option Text
  deriving DecidableEq, Repr

def Call.apply (h : Host) (c : Call) (s : Settings) : Option Settings :=
  match c.action with
  | .setInt v => c.v1.map (cSetInt v · s)
  | .setString v => c.v1.map (cSetString v · s)
  | .setUnity v => some (cSetUnity v c.v1 s)
  | .setPreference token => some (crPrefSet s (str token) (c.v1.getD []))
  | .setUser => c.v1.bind (cSetUser h · s)
  | .setGroup => c.v1.bind (cSetGroup h · s)
  | .addMimeType => s.addMimeType c.v2 c.v1
  | .addAlias type => s.addAlias c.v1 c.v2 type
  | .addAccess type => c.v1.map (cAddAccess h type · s)
  | .addCgiEnv => c.v1.bind (addToCommonEnv s · c.v2)

/-! The scan of a line works in a buffer of 1025 bytes. -/

def lineBufSize : Nat := 1025

/-- The first position from `i` on, among the next `k`, whose byte `p` holds of. -/
def scanFor (m : Nat → Byte) (p : Byte → Bool) : Nat → Nat → Option Nat
  | 0, _ => none
  | k + 1, i => if p (m i) then some i else scanFor m p k (i + 1)

def lineScan (m : Nat → Byte) (p : Byte → Bool) (i : Nat) : Option Nat :=
  scanFor m p (lineBufSize - i) i

/-- The string at position `i` of the line buffer. -/
def lineStr (m : Nat → Byte) (i : Nat) : Option Text :=
  (lineScan m (· = 0) i).map fun j => slice m i (j - i)

/-- `trim` leaves the first character alone. -/
def trim : Text → Text
  | [] => []
  | c :: s => c :: (s.reverse.dropWhile isSpace).reverse

/-- The arguments of a directive that takes two; a blank behind the first one is looked for
beyond the end of the string, too. -/
def twoArgs (m : Nat → Byte) (args : Nat) :
    Option ((Nat → Byte) × Option Text × Option Text) := do
  let args ← lineScan m (fun b => !isSpace b) args
  if m args = 0 then none
  else
    let blank ← lineScan m isSpace args
    let m := store m blank [0]
    let second ← lineScan m (fun b => !isSpace b) (blank + 1)
    let v1 ← lineStr m args
    if m second = 0 then return (m, some v1, none)
    else return (m, some v1, some (← lineStr m second))

/-- One turn of the loop of `parse`: the line buffer it leaves, and the directive. The blank
behind the keyword is looked for beyond the end of the string, too: a keyword without an
argument takes what an earlier line left in the buffer. -/
def scanLine (h : Host) (m : Nat → Byte) (line : Text) :
    Option ((Nat → Byte) × Option Call) := do
  let m := store m 0 (line ++ [0])
  if m 0 = 0 ∨ m 0 = 35 ∨ m 0 = 10 then return (m, none)
  else
    let s := line.takeWhile (· ≠ 0)
    let m := store m (trim s).length (List.replicate (s.length - (trim s).length) 0)
    let blank ← lineScan m isSpace 0
    let m := store m blank [0]
    let p ← lookupKeyword h (← lineStr m 0)
    match p.type with
    | .noArgs => return (m, some ⟨p.action, none, none⟩)
    | .oneArg => return (m, some ⟨p.action, some (← lineStr m (blank + 1)), none⟩)
    | .twoArgs =>
      let (m, v1, v2) ← twoArgs m (blank + 1)
      return (m, some ⟨p.action, v1, v2⟩)

def parseLines (h : Host) : (Nat → Byte) → List Text → Settings → Option Settings
  | _, [], s => some s
  | m, line :: lines, s => do
    let (m, call) ← scanLine h m line
    match call with
    | none => parseLines h m lines s
    | some c => parseLines h m lines (← c.apply h s)

def parse (h : Host) (file : Text) (s : Settings) : Option Settings :=
  parseLines h h.stack (fgets 1024 file) s

/-! `read_config_files`. -/

def setFlagUnlessOff (v : FlagVar) (token : String) (s : Settings) : Settings :=
  if s.crPrefGet (str token) = str "Off" then s
  else { s with flag := Function.update s.flag v true }

def setStringPref (v : StrVar) (token : String) (s : Settings) : Settings :=
  cSetString v (s.crPrefGet (str token)) s

def setIntPref (v : IntVar) (token : String) (s : Settings) : Settings :=
  { s with int := Function.update s.int v (atoi (s.crPrefGet (str token))) }

/-- The types of the `mime.types` file. -/
def addMimeTypesFile (h : Host) (s : Settings) : Option Settings :=
  (h.mimeTypes ((s.string .serverRoot).getD [])).foldlM
    (fun s p => s.addMimeType (some p.1) (some p.2)) s

def applyInlinePreferences (h : Host) (s : Settings) : Option Settings := do
  let s := setIntPref .serverPort "Port" s
  let s := setStringPref .serverIp "Listen" s
  let s ← cSetUser h (s.crPrefGet (str "User")) s
  let s ← cSetGroup h (s.crPrefGet (str "Group")) s
  let s := setStringPref .serverAdmin "ServerAdmin" s
  let s := setFlagUnlessOff .useLocaltime "UseLocaltime" s
  let s := setStringPref .serverName "ServerName" s
  let s := setFlagUnlessOff .verboseCgiLogs "VerboseCGILogs" s
  let s := setFlagUnlessOff .virtualhost "VirtualHost" s
  let s := setStringPref .defaultVhost "DefaultVHost" s
  let s := setStringPref .pidFile "PidFile" s
  let s := setIntPref .kaMax "KeepAliveMax" s
  let s := setIntPref .kaTimeout "KeepAliveTimeout" s
  let s ← addMimeTypesFile h s
  let s := setStringPref .defaultType "DefaultType" s
  let s := setIntPref .singlePostLimit "SinglePostLimit" s
  let s := setIntPref .cgiUmask "CGIumask" s
  let s ← addToCommonEnv s (str "CGIPath") (some (s.crPrefGet (str "CGIPath")))
  let s := setFlagUnlessOff .useParentindex "ParentIndex" s
  let s := cSetString .accessLogName (s.crprefLogPath "Access") s
  let s := cSetString .errorLogName (s.crprefLogPath "Error") s
  let s := cSetString .cgiLogName (s.crprefLogPath "CGI") s
  return s

def setInt (v : IntVar) (i : Int) (s : Settings) : Settings :=
  { s with int := Function.update s.int v i }

/-- `if (x < 0) x = 0`. -/
def raiseToZero (v : IntVar) (s : Settings) : Settings :=
  if s.int v < 0 then setInt v 0 s else s

/-- `max_connections` is unsigned. -/
def limitConnections (h : Host) (s : Settings) : Settings :=
  let n := s.int .maxConnections % 2^32
  let n := if n < 1 then h.rlimitNofile else n
  setInt .maxConnections (if n > 1024 - 20 then 1024 - 20 else n) s

def nameServer (h : Host) (s : Settings) : Option Settings :=
  if (s.string .serverName).isSome then some s
  else h.hostname.map fun name => cSetString .serverName name s

def addTypeIf (built : Bool) (extension type : String) (s : Settings) : Option Settings :=
  if built then s.addMimeType (some (str extension)) (some (str type)) else some s

def addHandledTypes (h : Host) (s : Settings) : Option Settings :=
  (addTypeIf h.build.phpRuntime "php" "application/x-httpd-php" s).bind
    (addTypeIf h.build.cgi "cgi" "application/x-httpd-cgi")

/-- What `read_config_files` does when the file is read. -/
def finishConfig (h : Host) (s : Settings) : Option Settings := do
  let s ← nameServer h s
  if s.int .singlePostLimit < 0 then none
  else if (s.string .vhostRoot).isSome ∧ s.flag .virtualhost then none
  else if (s.string .vhostRoot).isSome ∧ s.crprefDocroot.isSome then none
  else
    let s := if (s.string .defaultVhost).isNone then
      setStringPref .defaultVhost "DefaultVHost" s else s
    let s := if h.setrlimit then
      raiseToZero .cgiNice (raiseToZero .cgiRlimitData (raiseToZero .cgiRlimitCpu s)) else s
    let s := raiseToZero .kaTimeout (limitConnections h s)
    if (s.string .defaultType).isNone then none else addHandledTypes h s

def readConfigFiles (h : Host) (file : Text) (s : Settings) : Option Settings := do
  let s ← applyInlinePreferences h s
  let s := if h.build.accessControl then accessInit s else s
  let s ← parse h file s
  finishConfig h s

/-- The globals before anything is read; the server root is that of the command line. -/
def initialSettings (h : Host) (root : Text) : Settings where
  int
    | .backlog => h.somaxconn
    | .cgiUmask => 23
    | _ => 0
  string
    | .serverRoot => some root
    | _ => none
  flag _ := false

/-- The start-up sequence of `main`. -/
def start (h : Host) (root file : Text) : Option Settings :=
  (readConfigFiles h file (initialSettings h root)).map (createCommonEnv h)

/-- `sighup_run`. -/
def sighupRun (h : Host) (file : Text) (s : Settings) : Option Settings :=
  readConfigFiles h file { s with mimeHashtable := [], aliasHashtable := fun _ => [] }

end Crotalus
