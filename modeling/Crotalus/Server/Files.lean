import Crotalus.Framework.Ledger
import Crotalus.Server.Get

namespace Crotalus

/-! `init_get` with its calls of `open` and `close`. What it does to the connection is as in
the model of the handler; the history of the descriptors is added to it. -/

/-- A connection and what has happened to the descriptors that were opened for it. -/
structure FileConn where
  conn : Conn := {}
  history : List (Ledger.Event Nat) := []

abbrev Files := StateM FileConn

/-- A part of the code that opens and closes nothing. -/
def ofSrv {α : Type} (m : Srv α) : Files α := do
  let s ← get
  set { s with conn := (m.run s.conn).2 }
  return (m.run s.conn).1

def noteOpen (fd : Nat) : Files Unit :=
  modify fun s => { s with history := s.history ++ [.opened fd] }

def noteClose (fd : Nat) : Files Unit :=
  modify fun s => { s with history := s.history ++ [.closed fd] }

/-- A call of `open` that succeeds. -/
def openedFile (fd : Nat) (f : File) : Files (Except Errno (Nat × File)) := do
  noteOpen fd
  return .ok (fd, f)

def openPathFiles (e : Config) : Files (Except Errno (Nat × File)) := do
  match ← ofSrv (openPath e) with
  | .ok (fd, f) => openedFile fd f
  | .error err => return .error err

/-- A file that is mapped is closed, another one is kept. -/
def mapFileFiles (fd : Nat) (f : File) : Files Unit := do
  let c := (← get).conn
  ofSrv (mapFile fd f)
  if c.req.filesize > maxFileMmap ∨ !c.sys.mmap then return () else noteClose fd

/-- What follows the mapping. -/
def serveMapped (e : Config) : Srv Int := do
  if ← serveHeader e then
    if (← getReq).method = .head then completeResponse e else fillBuffer e
  else return 0

def serveFileFiles (e : Config) (fd : Nat) (f : File) : Files Int := do
  ofSrv (mark .serveFile)
  mapFileFiles fd f
  ofSrv (serveMapped e)

/-- The exits that close the file. -/
def thenClose (fd : Nat) (m : Srv Int) : Files Int := do
  let ret ← ofSrv m
  noteClose fd
  return ret

def initGetFileFiles (e : Config) (fd : Nat) (f : File) : Files Int := do
  let r ← ofSrv getReq
  if f.kind ≠ .reg then
    thenClose fd do
      sendRBadRequest e
      return 0
  else if (r.ifModifiedSince.map (modifiedSince (e.gmtime f.mtime))) = some 0 then
    thenClose fd do
      sendRNotModified e
      return 0
  else
    ofSrv (modReq fun r => { r with
      filesize := f.size, lastModified := f.mtime, headerIfrange := none })
    if f.size = 0 then thenClose fd (serveEmpty e)
    else if r.ranges ≠ [] then
      if ← ofSrv (rangesFixup e) then serveFileFiles e fd f else thenClose fd (return 0)
    else serveFileFiles e fd f

/-! Directories. -/

def useIndexFiles (e : Config) (mtime fd : Nat) (f : File) : Files (Int × File) := do
  noteOpen fd
  ofSrv (useIndex e mtime fd f)

def makeCachedirFiles (e : Config) (dir : File) : Files (Int × File) := do
  if ← ofSrv (indexDirectory e) then
    match (← get).conn.sys.reopen with
    | .ok (fd, f) => useIndexFiles e dir.mtime fd f
    | .error _ => ofSrv do
      crotalusPerror e
      return (-1, dir)
  else return (-1, dir)

/-- A stale file of the directory cache is closed. -/
def getCachedirFiles (e : Config) (cachedir : Text) (dir : File) : Files (Int × File) := do
  let c := (← get).conn
  match c.sys.openFile (cachedir ++ str "/dir." ++ decimal dir.dev ++ [46] ++ decimal dir.ino) with
  | .ok (fd, f) =>
    if f.mtime > dir.mtime then useIndexFiles e dir.mtime fd f
    else
      noteOpen fd
      noteClose fd
      makeCachedirFiles e dir
  | .error _ => makeCachedirFiles e dir

/-- Of the pipe to the program the end for reading stays, as `data_fd`; where `init_cgi` fails
it closes both. -/
def runDirmakerFiles (e : Config) : Files Int := do
  let ret ← ofSrv (runDirmaker e)
  let fd := (← get).conn.req.dataFd
  if fd ≠ 0 then
    noteOpen fd
    return ret
  else return ret

def listDirectoryFiles (e : Config) (dir : File) : Files (Int × File) := do
  if e.dirmaker ≠ none then
    let ret ← runDirmakerFiles e
    return (ret, dir)
  else
    match e.cachedir with
    | some cachedir => getCachedirFiles e cachedir dir
    | none => ofSrv do
      sendRForbidden e
      return (-1, dir)

def getDirFiles (e : Config) (dir : File) : Files (Int × File) := do
  let c := (← get).conn
  let path := c.req.pathname.getD []
  match e.dirindex with
  | none => listDirectoryFiles e dir
  | some index =>
    if path.length + index.length + 1 > maxPathLength then ofSrv do
      crotalusPerror e
      return (-1, dir)
    else
      match c.sys.openFile (path ++ index) with
      | .ok (fd, f) =>
        noteOpen fd
        ofSrv (modReq fun r => { r with requestUri := index })
        return (fd, f)
      | .error .acces => ofSrv do
        sendRForbidden e
        return (-1, dir)
      | .error .noEnt => listDirectoryFiles e dir
      | .error _ => ofSrv do
        sendRNotFound e
        return (-1, dir)

def initGetDirFiles (e : Config) (fd : Nat) (dir : File) : Files Int := do
  noteClose fd
  if ((← ofSrv getReq).pathname.getD []).getLast? ≠ some 47 then ofSrv (redirectDir e)
  else
    let (dataFd, f) ← getDirFiles e dir
    if dataFd < 0 then return 0
    else if dataFd = 0 ∨ dataFd = 1 then return dataFd
    else initGetFileFiles e dataFd.toNat f

def openGetFiles (e : Config) : Files Int := do
  match ← openPathFiles e with
  | .error err => ofSrv do
    openFailed e err
    return 0
  | .ok (fd, f) =>
    if e.build.accessControl && (← ofSrv getReq).access e = .deny then ofSrv do
      sendRForbidden e
      return 0
    else if f.kind = .dir then initGetDirFiles e fd f
    else initGetFileFiles e fd f

def initGetFiles (e : Config) : Files Int := do
  ofSrv (mark .initGet)
  openGetFiles e

/-- `free_request` closes `data_fd`. -/
def FileConn.freed (s : FileConn) : List (Ledger.Event Nat) :=
  s.history ++ (if s.conn.req.dataFd ≠ 0 then [.closed s.conn.req.dataFd] else [])

end Crotalus
