import Crotalus.Server.Cgi
import Crotalus.Server.Access

namespace Crotalus

/-! `mime_def.c`, `mime_interp.c` and the handler of `mime_zlib.c`. -/

/-- The table of MIME definitions; a definition without its handlers is marked inline. -/
def mimeDefinition (b : Build) : List Mime :=
  [⟨str "application/x-httpd-cgi", str "cgi", if b.cgi then some .cgi else none,
      if b.cgi then some .cgi else none, false, !b.cgi⟩,
    ⟨str "application/x-sh", str "sh", if b.cgi then some .cgi else none,
      if b.cgi then some .cgi else none, false, !b.cgi⟩,
    ⟨str "application/x-gzip", str "gz", if b.gunzip then some .gzip else none,
      if b.gunzip then some .gzip else none, b.gunzip, !b.gunzip⟩,
    ⟨str "application/x-httpd-php", str "php", if b.phpRuntime then some .php else none,
      if b.phpRuntime then some .php else none, false, !b.phpRuntime⟩]

def mimeInterpExtension (e : Config) (stat : Text → Option FileKind) (pathname : Text) :
    Option Mime :=
  let mimeStr := getMimeType e pathname
  if mimeStr ≠ e.defaultType then
    (mimeDefinition e.build).find? fun m => !m.isInline && !m.isEncode && strcaseEq mimeStr m.type
  else
    (mimeDefinition e.build).find? fun m =>
      !m.isInline && m.isEncode && (stat (pathname ++ [46] ++ m.ext)).isSome

/-- The first filter the client names and the rules allow for the type of the URI. -/
def mimeInterpFilter (e : Config) (r : Request) : Option FilterKind :=
  [FilterKind.deflate, .gzip].find? fun f =>
    (strstr f.type r.encoding).isSome && accessFilterAllow e f (getMimeType e r.requestUri)

def mimeGetCgi (e : Config) : Srv Int := do
  let ok ← allocOk
  modReq fun r => { r with
    scriptName := if ok then some r.requestUri else none
    cgiType := .exec }
  initCgi e

def mimeGetPhp (e : Config) : Srv Int := do
  let ok ← allocOk
  modReq fun r => { r with
    scriptName := if ok then some r.requestUri else none
    cgiType := .php }
  initCgi e

/-- One turn of the decompression loop: the block goes behind the buffered bytes, and the
flush may or may not take it. -/
def copyBlock (e : Config) (block : List Byte) : Srv Unit := do
  modReq fun r => r.append block
  let _ ← reqFlush e

def gzipBlock (e : Config) (block : List Byte) : Srv Unit := do
  mark .serveFile
  copyBlock e block

def gzipBlocks (e : Config) : List (List Byte) → Srv Unit
  | [] => pure ()
  | b :: bs => do
    if b = [] then pure ()
    else
      gzipBlock e (b.take 2048)
      gzipBlocks e bs

def mimeGetGzip (e : Config) : Srv Int := do
  mark .gzip
  match (← get).sys.gzopen with
  | none =>
    sendRBadGateway e
    return -1
  | some blocks =>
    sendRRequestOk e
    gzipBlocks e blocks
    return 1

def mimeGet (e : Config) : MimeHandler → Srv Int
  | .cgi => mimeGetCgi e
  | .php => mimeGetPhp e
  | .gzip => mimeGetGzip e

/-- The handler that answers the request, if its type has one for the method. -/
def Request.handler (e : Config) (r : Request) : Option MimeHandler :=
  match r.mime with
  | none => none
  | some m =>
    if strcaseEq m.type e.defaultType then none
    else if r.method = .head ∨ r.method = .get then m.get
    else none

def mimeInterpRequest (e : Config) : Srv Int := do
  match (← getReq).handler e with
  | some h => mimeGet e h
  | none => return 0

end Crotalus
