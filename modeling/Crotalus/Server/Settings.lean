import Crotalus.Server.Access
import Crotalus.Server.Alias
import Mathlib.Logic.Function.Basic

namespace Crotalus

/-! What the configuration sets, with the tables of `cr_hash.c`, `cr_pref.c`, `cr_access.c`
and `alias.c`. -/

/-- The globals that a directive names by their address. -/
inductive IntVar where
  | serverPort | backlog | kaMax | kaTimeout | singlePostLimit | cgiUmask | maxConnections
  | cgiRlimitCpu | cgiRlimitData | cgiNice
  deriving DecidableEq, Repr

inductive StrVar where
  | serverIp | serverAdmin | serverRoot | serverName | vhostRoot | defaultVhost | dirmaker
  | pidFile | defaultType | defaultCharset | cgiPath
  | accessLogName | errorLogName | cgiLogName
  deriving DecidableEq, Repr

inductive FlagVar where
  | useLocaltime | verboseCgiLogs | virtualhost | concealServerIdentity | useParentindex
  deriving DecidableEq, Repr

def maxHostNameLen : Nat := 64

/-- The rules of one host name. `htaccess` is history for the properties: the rules that
its `.htaccess` file gave when the list was made. -/
structure AccessList where
  hostname : Text
  nodes : List AccessNode
  htaccess : List AccessNode
  deriving DecidableEq, Repr

structure Settings where
  int : IntVar → Int
  string : StrVar → Option Text
  flag : FlagVar → Bool
  serverUid : Int := 0
  serverGid : Int := 0
  prefHashtable : List (Text × Text) := []
  mimeHashtable : List (Text × Text) := []
  aliasHashtable : Nat → List Alias := fun _ => []
  accessHashtable : List (Text × Text) := []
  accessHostList : List AccessList := []
  commonCgiEnv : List Text := []

/-- What the program reads besides the configuration file: how it was built, its user, the
password and group databases, the host's own name, its limit of descriptors, the pairs of
the `mime.types` file under a server root, the bytes of an `.htaccess` file. `stack` is
what the line buffer of `parse` holds before the first line. -/
structure Host where
  build : Build := {}
  ncsaCgiEnv : Bool := false
  setrlimit : Bool := false
  uid : Nat := 0
  somaxconn : Int := 128
  getpwnam : Text → Option Int := fun _ => none
  getgrnam : Text → Option Int := fun _ => none
  hostname : Option Text := none
  rlimitNofile : Int := 1024
  mimeTypes : Text → List (Text × Text) := fun _ => []
  htaccess : Text → Option Text := fun _ => none
  stack : Nat → Byte := fun _ => 0

/-! Hash tables: `hash_insert` keeps the entry that a key already has. -/

def hashFind (table : List (Text × Text)) (key : Text) : Option Text :=
  (table.find? fun e => e.1 = key).map Prod.snd

def hashInsert (table : List (Text × Text)) (key value : Text) : Option (List (Text × Text)) :=
  if key = [] ∨ value = [] then none
  else if (hashFind table key).isSome then some table
  else some (table ++ [(key, value)])

/-! `cr_pref.c`. -/

/-- The preferences that the modelled code reads, with their values. -/
def prefDef : List (Text × Text) := [
  (str "Port", str "80"), (str "Listen", []), (str "User", str "nobody"),
  (str "Group", str "nobody"), (str "ServerAdmin", []),
  (str "PidFile", str "/var/run/crotalus.pid"),
  (str "ErrorLog", str "/var/log/crotalus/error_log"),
  (str "AccessLog", str "/var/log/crotalus/access_log"),
  (str "CGILog", str "/var/log/crotalus/cgi_log"), (str "CGIumask", str "022"),
  (str "UseLocaltime", str "Off"), (str "VerboseCGILogs", str "Off"),
  (str "VirtualHost", str "Off"), (str "VHostRoot", []), (str "DefaultVHost", str "default"),
  (str "DocumentRoot", str "/var/www"), (str "UserDir", str "public_html"),
  (str "DirectoryIndex", str "index.html"), (str "DirectoryMaker", []),
  (str "DirectoryCache", str "/var/spool/crotalus/dir"), (str "KeepAliveMax", str "1000"),
  (str "KeepAliveTimeout", str "10"), (str "DefaultType", str "text/plain"),
  (str "CGIPath", str "/bin:/usr/bin:/usr/local/bin"), (str "SinglePostLimit", str "16000000"),
  (str "ServerRoot", str "/etc/crotalus"), (str "ServerName", []), (str "ParentIndex", str "Off")]

def crPrefDefault (token : Text) : Text :=
  ((prefDef.find? fun p => strcaseEq p.1 token).map Prod.snd).getD []

/-- An empty value is not stored. -/
def crPrefSet (s : Settings) (token value : Text) : Settings :=
  { s with prefHashtable := (hashInsert s.prefHashtable token value).getD s.prefHashtable }

def Settings.crPrefGet (s : Settings) (token : Text) : Text :=
  if token = [] then [] else (hashFind s.prefHashtable token).getD (crPrefDefault token)

/-- `crpref_docroot` and its siblings. The root is read again after every change. -/
def Settings.crprefPath (s : Settings) (token : String) : Option Text :=
  let value := s.crPrefGet (str token)
  if value = [] then none else some value

def Settings.crprefDocroot (s : Settings) : Option Text := s.crprefPath "DocumentRoot"

def Settings.crprefLogPath (s : Settings) (type : String) : Text :=
  s.crPrefGet (str (type ++ "Log"))

/-! `cr_hash.c` and `alias.c`. -/

def Settings.addMimeType (s : Settings) (extension type : Option Text) : Option Settings := do
  let table ← hashInsert s.mimeHashtable (← extension) (← type)
  return { s with mimeHashtable := table }

/-- A name that an entry of the bucket other than the last one has is not added again. -/
def Settings.addAlias (s : Settings) (fakename realname : Option Text) (type : AliasType) :
    Option Settings := do
  let fakename ← fakename
  let realname ← realname
  if fakename = [] ∨ realname = [] then none
  else
    let hash := getAliasHashValue fakename
    let bucket := s.aliasHashtable hash
    if bucket.dropLast.any (fun a => a.fakename = fakename) then some s
    else
      let table := Function.update s.aliasHashtable hash (bucket ++ [⟨fakename, realname, type⟩])
      some { s with aliasHashtable := table }

/-- The pieces that `fgets` with a size of `n` reads from a file, `acc` read backwards being
the start of the first. -/
def fgetsFrom (n : Nat) : Text → Text → List Text
  | acc, [] => if acc = [] then [] else [acc.reverse]
  | acc, b :: bs =>
    if b = 10 ∨ n ≤ acc.length + 2 then (b :: acc).reverse :: fgetsFrom n [] bs
    else fgetsFrom n (b :: acc) bs

def fgets (n : Nat) (file : Text) : List Text := fgetsFrom n [] file

/-! `cr_access.c`. -/

def crAccessSet (s : Settings) (token value : Text) : Settings :=
  { s with accessHashtable := (hashInsert s.accessHashtable token value).getD s.accessHashtable }

/-- The two words of an `.htaccess` line, in lower case: `strtok` ends the line, and the
first blank ends the first word. -/
def htaccessWords (line : Text) : Option (Text × Text) :=
  let line := line.takeWhile (· ≠ 0)
  let eol : Byte → Bool := fun b => b = 13 ∨ b = 10
  let tok := line.takeWhile eol ++ (line.dropWhile eol).takeWhile fun b => !eol b
  if tok.head? = none ∨ tok.head? = some 35 then none
  else (strchr 32 tok).map fun i => ((strlower tok).take i, (strlower tok).drop (i + 1))

/-- The access rule of an `.htaccess` line. -/
def htaccessNode (line : Text) : Option AccessNode := do
  let (tok, val) ← htaccessWords line
  if tok = str "allow" then some ⟨val, .allow⟩
  else if tok = str "deny" then some ⟨val, .deny⟩
  else none

/-- The output filter of an `.htaccess` line, with the type it is for. -/
def htaccessFilter (line : Text) : Option (Text × Text) := do
  let (tok, val) ← htaccessWords line
  let i ← strchr 32 val
  if tok = str "addoutputfilterbytype" ∧ (val.take i = str "deflate" ∨ val.take i = str "gzip")
  then some (val.take i, val.drop (i + 1))
  else none

/-- The `.htaccess` file of a host name. -/
def Settings.htaccessPath (s : Settings) (hostname : Text) : Text :=
  s.crprefDocroot.getD [] ++ (if s.flag .virtualhost then [47] ++ hostname else []) ++
    str "/.htaccess"

def Settings.htaccessLines (h : Host) (s : Settings) (hostname : Text) : List Text :=
  fgets 4095 ((h.htaccess (s.htaccessPath hostname)).getD [])

/-- The rules that `_access_host_init` puts at the start of a list. -/
def Settings.htaccessNodes (h : Host) (s : Settings) (hostname : Text) : List AccessNode :=
  (s.htaccessLines h hostname).filterMap htaccessNode

/-- `_access_host_init`, for a list that has no rules yet. -/
def accessHostInit (h : Host) (s : Settings) (hostname : Text) : Settings × AccessList :=
  let filters := (s.htaccessLines h hostname).filterMap htaccessFilter
  let nodes := s.htaccessNodes h hostname
  (filters.foldl (fun s f => crAccessSet s f.1 f.2) s, ⟨hostname, nodes, nodes⟩)

/-- The name whose list a host name stands for: without virtual hosts there is one list. -/
def Settings.accessName (s : Settings) (hostname : Text) : Text :=
  if s.flag .virtualhost then hostname else (s.string .serverName).getD []

/-- The place of the list of a host name. A list that is not found is made and put in
front, under as much of the name as its field holds. -/
def Settings.accessListGet (h : Host) (s : Settings) (hostname : Text) : Settings × Nat :=
  let hostname := s.accessName hostname
  match s.accessHostList.findIdx? fun l => strcaseEq l.hostname hostname with
  | some i => (s, i)
  | none =>
    let (s, l) := accessHostInit h s (hostname.take maxHostNameLen)
    ({ s with accessHostList := l :: s.accessHostList }, 0)

def accessNodeAdd (l : AccessList) (pattern : Text) (type : Access) : AccessList :=
  { l with nodes := l.nodes ++ [⟨pattern, type⟩] }

def Settings.accessAdd (h : Host) (s : Settings) (hostname pattern : Text) (type : Access) :
    Settings :=
  let (s, i) := s.accessListGet h hostname
  { s with accessHostList := s.accessHostList.modify i fun l => accessNodeAdd l pattern type }

/-- The list `access_allow` asks for a host name, and the settings it leaves. -/
def Settings.accessAsk (h : Host) (s : Settings) (hostname : Text) :
    Settings × Option AccessList :=
  let (s, i) := s.accessListGet h hostname
  (s, s.accessHostList[i]?)

/-- `access_allow` over the lists. -/
def Settings.accessAllow (h : Host) (fnmatch : Text → Text → Bool) (s : Settings)
    (hostname origin _filename : Text) : Settings × Access :=
  let (s, l) := s.accessAsk h hostname
  (s, firstMatch fnmatch origin ((l.map AccessList.nodes).getD []))

def accessInit (s : Settings) : Settings := { s with accessHostList := [] }

end Crotalus
