import Crotalus.Server.Util

namespace Crotalus

/-- Compile-time switches the modelled functions test. -/
structure Build where
  haveSendfile : Bool := false
  haveLibshare : Bool := false
  accessControl : Bool := false
  cgi : Bool := false
  gunzip : Bool := false
  phpRuntime : Bool := false
  deriving DecidableEq, Repr

inductive AliasType where
  | alias | scriptAlias | redirect
  deriving DecidableEq, Repr

structure Alias where
  fakename : Text
  realname : Text
  type : AliasType
  deriving DecidableEq, Repr

inductive Access where
  | deny | allow
  deriving DecidableEq, Repr

structure AccessNode where
  hostPattern : Text
  type : Access
  deriving DecidableEq, Repr

/-- The settings of a running server, and the library functions its code calls: `fnmatch`,
`gmtime`, the password database and the compressor. The compressor answers a history of
inputs with the outputs of the `deflate` calls that the last input leads to, and `none`
for a stream error; `deflateEnd` answers the calls that ask it to finish. -/
structure Config where
  build : Build := {}
  serverName : Text := []
  serverPort : Nat := 80
  concealServerIdentity : Bool := false
  kaMax : Nat := 1000
  kaTimeout : Nat := 10
  defaultType : Text := str "text/plain"
  defaultCharset : Option Text := none
  mimeHashtable : List (Text × Text) := []
  docroot : Option Text := none
  userdir : Option Text := none
  dirindex : Option Text := none
  cachedir : Option Text := none
  dirmaker : Option Text := none
  vhostRoot : Option Text := none
  defaultVhost : Text := []
  virtualhost : Bool := false
  useParentindex : Bool := false
  singlePostLimit : Nat := 0
  systemBufsize : Nat := 49152
  aliasHashtable : Nat → List Alias := fun _ => []
  accessHostList : Text → List AccessNode := fun _ => []
  filterType : FilterKind → Text := fun _ => []
  commonCgiEnv : List Text := []
  fnmatch : Text → Text → Bool := fun _ _ => false
  gmtime : Nat → Tm := fun _ => ⟨0, 0, 0, 1, 0, 70, 4⟩
  getHomeDir : Text → Option Text := fun _ => none
  deflate : List (List Byte) → Option (List (List Byte)) := fun _ => none
  deflateEnd : List (List Byte) → Option (List (List Byte)) := fun _ => none

/-- `struct request`, all zero by default. The fields above `fd` are those that
`sanitize_request` zeroes. -/
structure Request where
  status : Status := .readHeader
  keepalive : KaStatus := .inactive
  httpVersion : Version := .unset
  method : Method := .unset
  responseStatus : Nat := 0
  cgiType : CgiType := .unset
  cgiStatus : CgiStatus := .parse
  pathname : Option Text := none
  ranges : List Range := []
  numranges : Nat := 0
  dataFd : Nat := 0
  dataFile : List Byte := []
  filesize : Nat := 0
  filepos : Nat := 0
  bytesWritten : Nat := 0
  dataMem : Option (List Byte) := none
  logline : Option Text := none
  headerArea : Area := .stream
  headerLine : Nat := 0
  headerEnd : Nat := 0
  parsePos : Nat := 0
  bufferStart : Nat := 0
  bufferEnd : Nat := 0
  ifModifiedSince : Option Text := none
  lastModified : Nat := 0
  cgiEnvIndex : Nat := 0
  mime : Option Mime := none
  filter : Option FilterKind := none
  headerHost : Option Text := none
  headerUserAgent : Option Text := none
  headerReferer : Option Text := none
  headerIfrange : Option Text := none
  host : Option Text := none
  postDataFd : Nat := 0
  pathInfo : Option Text := none
  pathTranslated : Option Text := none
  scriptName : Option Text := none
  queryString : Option Text := none
  contentType : Option Text := none
  contentLength : Option Text := none
  fd : Nat := 0
  timeLast : Nat := 0
  localIpAddr : Text := []
  remoteIpAddr : Text := []
  remotePort : Nat := 0
  kacount : Nat := 0
  buffer : Nat → Byte := fun _ => 0
  buff : Option (List Byte) := none
  requestUri : Text := []
  clientStream : List Byte := []
  cgiEnv : Nat → Option Text := fun _ => none
  encoding : Text := []
  zlib : Option (List (List Byte)) := none
  gzipFl : Option (List Byte) := none
  gzipOf : Int := 0

inductive IoRes where
  | done (n : Nat)
  | fail (e : Errno)
  deriving DecidableEq, Repr

inductive RecvRes where
  | data (bs : List Byte)
  | fail (e : Errno)
  deriving DecidableEq, Repr

/-- How the generation of a directory page ends. -/
inductive IndexRes where
  | chdirFailed (e : Errno)
  | opendirFailed
  | fopenFailed
  | made (bytes : Nat)
  deriving DecidableEq, Repr

/-- What the operating system answers during one step: the results of the calls that have
a result each time, in the order of the calls, and the file system. A socket or pipe with
no result left would block; by default none has one. -/
structure World where
  now : Nat := 0
  sock : List IoRes := []
  recv : List RecvRes := []
  pipe : List RecvRes := []
  file : List IoRes := []
  seek : List Bool := []
  post : List IoRes := []
  mem : List Bool := []
  sigbus : List Bool := []
  gz : List (List Byte × Int) := []
  gzopen : Option (List (List Byte)) := none
  shmOpen : Bool := false
  openFile : Text → Except Errno (Nat × File) := fun _ => .error .noEnt
  reopen : Except Errno (Nat × File) := .error .noEnt
  indexDirectory : IndexRes := .opendirFailed
  stat : Text → Option FileKind := fun _ => none
  accessRX : Text → Bool := fun _ => false
  mmap : Bool := false
  tmpfile : Option Nat := none
  cloexec : Bool := false
  cgiPipe : Option Nat := none
  nonblock : Bool := false
  fork : Bool := false
  shprocPush : Int := 0
  pool : Bool := false
  results : List (Int × List Byte) := []
  sigterm : Bool := false

inductive Dir where
  | read | write
  deriving DecidableEq, Repr

inductive Place where
  | ready | block | free
  deriving DecidableEq, Repr

/-- Points of the code that the properties speak about. -/
inductive Site where
  | completeResponse | locationDone | handlerDeclined | initGet | dirmaker | filterFlush
  | serviceUnavailable | workResp | timeout | startCgi | pushWork | serveFile
  | sanitize | logline | optionLine | headerEnd | gzip | noneSent
  | bodyDone (file body : List Byte)
  | fileAccess (off n : Nat)
  deriving DecidableEq, Repr

/-- A visit of a point, with the request and the pending system results it found. -/
structure Visit where
  site : Site
  req : Request
  sys : World

/-- A connection: its request, what the client socket has accepted, the queue it is on, the
descriptor sets, the static buffer of `init_script_alias` and the file for its POST body.
`died`, `waits`, `input`, `body` and `trace` are history for the properties: the bytes
accepted when the request became DEAD, the last descriptor that would have blocked, the
bytes read from the client, those behind the header of a POST, the visits. -/
structure Conn where
  req : Request := {}
  wire : List Byte := []
  sys : World := {}
  place : Place := .ready
  readSet : Nat → Bool := fun _ => false
  writeSet : Nat → Bool := fun _ => false
  maxFd : Int := -1
  scriptPath : Nat → Byte := fun _ => 0
  postFile : List Byte := []
  died : Option (List Byte) := none
  waits : Option (Nat × Dir) := none
  input : List Byte := []
  body : List Byte := []
  trace : List Visit := []

abbrev Srv := StateM Conn

end Crotalus
