import Crotalus.Server.Range
import Crotalus.Server.Mime

namespace Crotalus

/-! `get.c`. -/

/-- The search of `get_parent_index`: cut the path at its last `/` and try to open what is
left, down to the document root. -/
def parentLoop (e : Config) (w : World) : Nat → Text → Option (Text × Nat × File)
  | 0, _ => none
  | k + 1, path =>
    match strrchr 47 path with
    | none => none
    | some i =>
      let path := path.take i
      if path.length < u64 ((e.docroot.getD []).length + 2^64 - 1) then none
      else
        match w.openFile path with
        | .ok (fd, f) => some (path ++ [47], fd, f)
        | .error _ => parentLoop e w k path

/-- The file a GET opens: its own, else that of a parent when the server looks there. -/
def openPath (e : Config) : Srv (Except Errno (Nat × File)) := do
  let c ← get
  let path := c.req.pathname.getD []
  match c.sys.openFile path with
  | .ok v => return .ok v
  | .error err =>
    if e.useParentindex then
      match parentLoop e c.sys (path.length + 1) (path.take maxPathLength) with
      | some (newPath, fd, f) =>
        modReq fun r => { r with pathname := some newPath }
        return .ok (fd, f)
      | none => return .error err
    else return .error err

/-- The data goes on the wire from the mapping or, in pieces, from the descriptor. -/
def mapFile (fd : Nat) (f : File) : Srv Unit := do
  let c ← get
  if c.req.filesize > maxFileMmap ∨ !c.sys.mmap then
    modReq fun r => { r with dataFd := fd, dataFile := f.bytes }
    setStatus .ioshuffle
  else modReq fun r => { r with dataMem := some f.mapped }

/-- The copy of file data into the room the header leaves in the buffer. -/
def fillBuffer (e : Config) : Srv Int := do
  let r ← getReq
  let bytesFree := u32 (bufferSize + 2^32 - r.bufferEnd)
  match r.dataMem with
  | none => return 1
  | some mem =>
    if bytesFree ≤ 256 then return 1
    else
      let want := u32 (u64 (r.range.stop + 2^64 - r.range.start + 1))
      let n := min bytesFree want
      mark (.fileAccess r.range.start n)
      if ← sigbus then
        resetOutputBuffer
        sendRError e
        return 0
      else
        modReq fun r => ((r.append ((mem.drop r.range.start).take n)).counted n).moveStart n
        if n = want then completeResponse e else return 1

/-- The header, for the whole file or for the ranges asked for. -/
def serveHeader (e : Config) : Srv Bool := do
  if (← getReq).ranges = [] then
    modReq fun r => { r with ranges := [⟨0, minusOne⟩] }
    if ← rangesFixup e then
      sendRRequestOk e
      return true
    else return false
  else
    sendRPartialContent e
    return true

/-- The response to a request whose ranges are settled. -/
def serveFile (e : Config) (fd : Nat) (f : File) : Srv Int := do
  mark .serveFile
  mapFile fd f
  if ← serveHeader e then
    if (← getReq).method = .head then completeResponse e else fillBuffer e
  else return 0

/-- A regular file without contents. -/
def serveEmpty (e : Config) : Srv Int := do
  let v := (← getReq).httpVersion
  if v ≠ .http11 then sendRRequestOk e else sendRNoContent e
  return 0

def initGetFile (e : Config) (fd : Nat) (f : File) : Srv Int := do
  let r ← getReq
  if f.kind ≠ .reg then
    sendRBadRequest e
    return 0
  else if (r.ifModifiedSince.map (modifiedSince (e.gmtime f.mtime))) = some 0 then
    sendRNotModified e
    return 0
  else
    modReq fun r => { r with filesize := f.size, lastModified := f.mtime, headerIfrange := none }
    if f.size = 0 then serveEmpty e
    else if r.ranges ≠ [] then
      if ← rangesFixup e then serveFile e fd f else return 0
    else serveFile e fd f

/-! Directories. -/

def decimal (n : Nat) : Text := (digitsRev 21 n).reverse

def indexDirectory (e : Config) : Srv Bool := do
  match (← get).sys.indexDirectory with
  | .chdirFailed err =>
    if err = .acces ∨ err = .perm then sendRForbidden e else sendRBadRequest e
    return false
  | .opendirFailed =>
    sendRError e
    return false
  | .fopenFailed =>
    crotalusPerror e
    return false
  | .made bytes =>
    modReq fun r => { r with filesize := bytes }
    return true

/-- A file of the directory cache stands for the directory, with its time. -/
def useIndex (e : Config) (mtime fd : Nat) (f : File) : Srv (Int × File) := do
  modReq fun r => { r with requestUri := e.dirindex.getD [] }
  return (fd, { f with mtime := mtime })

def makeCachedirFile (e : Config) (dir : File) : Srv (Int × File) := do
  if ← indexDirectory e then
    match (← get).sys.reopen with
    | .ok (fd, f) => useIndex e dir.mtime fd f
    | .error _ =>
      crotalusPerror e
      return (-1, dir)
  else return (-1, dir)

def getCachedirFile (e : Config) (cachedir : Text) (dir : File) : Srv (Int × File) := do
  let c ← get
  match c.sys.openFile (cachedir ++ str "/dir." ++ decimal dir.dev ++ [46] ++ decimal dir.ino) with
  | .ok (fd, f) =>
    if f.mtime > dir.mtime then useIndex e dir.mtime fd f else makeCachedirFile e dir
  | .error _ => makeCachedirFile e dir

def dirmakerHeader (e : Config) : Srv Unit := do
  let t ← now
  let r ← getReq
  puts (statusLine e t " 200 OK" r ++ printLastModified e t r ++
    [.raw (str "Content-Type: text/html" ++ crlf ++ crlf)])
  let _ ← reqFlush e

/-- The program that lists the directory writes its own body. -/
def runDirmaker (e : Config) : Srv Int := do
  modReq fun r => { r with responseStatus := rRequestOk }
  squashKa
  let r ← getReq
  onlyIf (r.httpVersion ≠ .http09) (dirmakerHeader e)
  if r.method = .head then return 0
  else
    mark .dirmaker
    initCgi e

def listDirectory (e : Config) (dir : File) : Srv (Int × File) := do
  if e.dirmaker ≠ none then
    let ret ← runDirmaker e
    return (ret, dir)
  else
    match e.cachedir with
    | some cachedir => getCachedirFile e cachedir dir
    | none =>
      sendRForbidden e
      return (-1, dir)

def getDir (e : Config) (dir : File) : Srv (Int × File) := do
  let c ← get
  let path := c.req.pathname.getD []
  match e.dirindex with
  | none => listDirectory e dir
  | some index =>
    if path.length + index.length + 1 > maxPathLength then
      crotalusPerror e
      return (-1, dir)
    else
      match c.sys.openFile (path ++ index) with
      | .ok (fd, f) =>
        modReq fun r => { r with requestUri := index }
        return (fd, f)
      | .error .acces =>
        sendRForbidden e
        return (-1, dir)
      | .error .noEnt => listDirectory e dir
      | .error _ =>
        sendRNotFound e
        return (-1, dir)

def portOk (e : Config) : Srv Bool := if e.serverPort ≠ 80 then allocOk else return true

/-- A directory named without its final `/`. -/
def redirectDir (e : Config) : Srv Int := do
  let r ← getReq
  let host := r.host.getD e.serverName
  let port := if e.serverPort ≠ 80 then [58] ++ simpleItoa e.serverPort else []
  if !(← portOk e) then
    crotalusPerror e
    return 0
  else if 7 + host.length + port.length + r.requestUri.length + 1 > 3 * maxPathLength + 128 then
    crotalusPerror e
    return 0
  else
    sendRMovedPerm e (str "http://" ++ host ++ port ++ r.requestUri ++ [47])
    return 0

def initGetDir (e : Config) (dir : File) : Srv Int := do
  if ((← getReq).pathname.getD []).getLast? ≠ some 47 then redirectDir e
  else
    let (dataFd, f) ← getDir e dir
    if dataFd < 0 then return 0
    else if dataFd = 0 ∨ dataFd = 1 then return dataFd
    else initGetFile e dataFd.toNat f

def openFailed (e : Config) (err : Errno) : Srv Unit :=
  if err = .noEnt then sendRNotFound e
  else if err = .acces then sendRForbidden e
  else sendRBadRequest e

def openGet (e : Config) : Srv Int := do
  match ← openPath e with
  | .error err =>
    openFailed e err
    return 0
  | .ok (fd, f) =>
    if e.build.accessControl && (← getReq).access e = .deny then
      sendRForbidden e
      return 0
    else if f.kind = .dir then initGetDir e f
    else initGetFile e fd f

def initGet (e : Config) : Srv Int := do
  mark .initGet
  openGet e

/-- `process_get`. -/
def processGet (e : Config) : Srv Int := do
  let r ← getReq
  if r.method = .head then completeResponse e
  else
    let n := min (u32 (u64 (r.range.stop + 2^64 - r.range.start + 1))) e.systemBufsize
    mark (.fileAccess r.range.start n)
    if ← sigbus then
      setStatus .dead
      return 0
    else
      match ← sockWrite (((r.dataMem.getD []).drop r.range.start).take n) with
      | .error .again => return -1
      | .error _ =>
        setStatus .dead
        return 0
      | .ok n =>
        modReq fun r => (r.counted n).moveStart n
        let r ← getReq
        if u64 (r.range.stop + 1 + 2^64 - r.range.start) = 0 then completeResponse e
        else return 1

end Crotalus
