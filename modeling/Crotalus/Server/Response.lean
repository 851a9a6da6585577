import Crotalus.Server.Buffer
import Crotalus.Server.Uri

namespace Crotalus

/-! `response.c`. A response is a list of pieces for the three buffer writers. -/

inductive Piece where
  | raw (msg : Text)
  | http (msg : Text)
  | html (msg : Text)
  | rawAt (off : Nat)
  | httpAt (off : Nat)
  | htmlAt (off : Nat)
  deriving DecidableEq, Repr

def put : Piece → Srv Unit
  | .raw msg => do let _ ← reqWrite msg
  | .http msg => do let _ ← reqWriteEscapeHttp msg
  | .html msg => do let _ ← reqWriteEscapeHtml msg
  | .rawAt off => do let _ ← reqWriteAt off
  | .httpAt off => do let _ ← reqWriteEscapeAt escapeHttp 3 off
  | .htmlAt off => do let _ ← reqWriteEscapeAt escapeHtml 6 off

def puts : List Piece → Srv Unit
  | [] => pure ()
  | p :: ps => do
    put p
    puts ps

def lit (s : String) : Piece := .raw (str s)

def nl : Piece := .raw crlf

def html : Text := str "text/html; charset=ISO-8859-1"

def serverVersion : Text := str "Crotalus/4.1"

def httpVerString : Version → Text
  | .http09 => str "HTTP/0.9"
  | .http11 => str "HTTP/1.1"
  | _ => str "HTTP/1.0"

def httpMethodString : Method → Text
  | .get => str "GET"
  | .head => str "HEAD"
  | .put => str "PUT"
  | .post => str "POST"
  | .unset => str "MISC"

def FilterKind.type : FilterKind → Text
  | .deflate => str "deflate"
  | .gzip => str "gzip"

def rRequestOk : Nat := 200
def rNoContent : Nat := 204
def rPartialContent : Nat := 206
def rMovedPerm : Nat := 301
def rMovedTemp : Nat := 302
def rNotModified : Nat := 304
def rBadRequest : Nat := 400
def rForbidden : Nat := 403
def rNotFound : Nat := 404
def rInvalidRange : Nat := 416
def rError : Nat := 500
def rNotImp : Nat := 501
def rBadGateway : Nat := 502
def rServiceUnav : Nat := 503

/-! Header fields. -/

section Fields

variable (e : Config)

/-- `rfc822_time_buf` takes 0 for the current time. -/
def rfc822 (t s : Nat) : Text := rfc822TimeBuf (e.gmtime (if s = 0 then t else s))

def printContentType (r : Request) : List Piece :=
  let mimeType := getMimeType e r.requestUri
  [lit "Content-Type: ", .raw mimeType] ++
    (match e.defaultCharset with
      | some cs => if strncaseEq mimeType (str "text") then [lit "; charset=", .raw cs] else []
      | none => []) ++ [nl]

def printContentLength (r : Request) : List Piece :=
  [lit "Content-Length: ", .raw (simpleItoa r.filesize), nl]

def printLastModified (t : Nat) (r : Request) : List Piece :=
  [.raw (str "Last-Modified: " ++ rfc822 e t r.lastModified ++ crlf)]

def printKaPhrase (r : Request) : List Piece :=
  if r.kacount > 0 ∧ r.keepalive = .active ∧ r.responseStatus < 500 then
    [.raw (str "Connection: Keep-Alive" ++ crlf ++ str "Keep-Alive: timeout="),
      .raw (simpleItoa e.kaTimeout), lit ", max=", .raw (simpleItoa r.kacount), nl]
  else [.raw (str "Connection: close" ++ crlf)]

def printHttpHeaders (t : Nat) (r : Request) : List Piece :=
  [.raw (str "Date: " ++ rfc822 e t 0 ++ crlf)] ++
    (if e.concealServerIdentity then [] else [.raw (str "Server: " ++ serverVersion ++ crlf)]) ++
    [.raw (str "Accept-Ranges: bytes" ++ crlf)] ++ printKaPhrase e r ++
    (match r.filter with
      | some f => [.raw (str "Content-Encoding: " ++ f.type ++ crlf ++
          str "Transfer-Encoding: chunked" ++ crlf)]
      | none => [])

def Request.range (r : Request) : Range := r.ranges.headD ⟨0, 0⟩

/-- `n` bytes of the current range have been dealt with. -/
def Request.moveStart (r : Request) (n : Nat) : Request :=
  { r with ranges := { r.range with start := r.range.start + n } :: r.ranges.tail }

/-- They have been counted as sent. -/
def Request.counted (r : Request) (n : Nat) : Request :=
  { r with bytesWritten := r.bytesWritten + n }

def printContentRange (r : Request) : List Piece :=
  [lit "Content-Range: bytes ", .raw (simpleItoa r.range.start), lit "-",
    .raw (simpleItoa r.range.stop), lit "/", .raw (simpleItoa r.filesize), nl]

def separator : Text := crlf ++ str "--THIS_STRING_SEPARATES" ++ crlf

def closing : Text := crlf ++ str "--THIS_STRING_SEPARATES--" ++ crlf

def printPartialContentContinue (r : Request) : List Piece :=
  (if r.numranges > 1 then [.raw separator] else []) ++ printContentType e r ++
    printContentRange r

def printPartialContentDone : List Piece := [.raw closing]

/-- Version, reason and the fields every response starts with. -/
def statusLine (t : Nat) (reason : String) (r : Request) : List Piece :=
  [.raw (httpVerString r.httpVersion), .raw (str reason ++ crlf)] ++ printHttpHeaders e t r

def contentTypeHtml : List Piece := [.raw (str "Content-Type: " ++ html ++ crlf)]

/-- The same with the blank line in one write. -/
def contentTypeHtmlEnd : List Piece := [.raw (str "Content-Type: " ++ html ++ crlf ++ crlf)]

end Fields

/-! Responses. -/

section Responses

variable (e : Config)

/-- The current range is finished. -/
def completeResponse : Srv Int := do
  mark .completeResponse
  modReq fun r => { r with ranges := r.ranges.tail }
  let r ← getReq
  if r.responseStatus = rPartialContent ∧ r.numranges > 1 then
    if r.ranges ≠ [] then puts (printPartialContentContinue e r ++ [nl])
    else
      puts printPartialContentDone
      setStatus .done
      let _ ← reqFlush e
    return 1
  else
    setStatus .done
    return 0

def now : Srv Nat := do return (← get).sys.now

/-- `mime_head_cgi` and `mime_head_php` leave the rest of the header to the script. -/
def mimeHead : MimeHandler → Srv Unit
  | .cgi | .php => do
    let t ← now
    let r ← getReq
    puts (statusLine e t " 200 OK" r)
  | .gzip => do
    let t ← now
    let r ← getReq
    puts (statusLine e t " 200 OK-GUNZIP" r ++ printContentType e r ++
      printLastModified e t r ++ [nl])
    let _ ← reqFlush e

def mimeInterpHead (mime : Mime) : Srv Unit := do
  modReq fun r => { r with responseStatus := rRequestOk }
  let r ← getReq
  if r.httpVersion = .http09 then pure ()
  else
    match mime.head with
    | some h => mimeHead e h
    | none =>
      let t ← now
      puts (statusLine e t " 200 OK" r ++ printContentLength r ++ printLastModified e t r ++
        printContentType e r ++ [nl])
      let _ ← reqFlush e

/-- The fields of a 200 response that only a static file gets. -/
def staticFields (t : Nat) (r : Request) : List Piece :=
  printLastModified e t r ++ printContentType e r ++
    (if r.filter = none then printContentLength r else []) ++ [nl]

def sendRRequestOk : Srv Unit := do
  match (← getReq).mime with
  | some m => mimeInterpHead e m
  | none =>
    modReq fun r => { r with responseStatus := rRequestOk }
    let t ← now
    let r ← getReq
    if r.httpVersion = .http09 then pure ()
    else
      puts (statusLine e t " 200 OK" r)
      if r.cgiType = .unset then
        puts (staticFields e t r)
        onlyIf (r.filter ≠ none) (do let _ ← reqFlushRaw)
      else pure ()

def sendRNoContent : Srv Unit := do
  modReq fun r => { r with responseStatus := rNoContent }
  let t ← now
  let r ← getReq
  if r.httpVersion = .http09 then pure ()
  else
    puts (statusLine e t " 204 NO CONTENT" r)
    onlyIf (r.cgiType = .unset) (puts [nl])

/-- The header of a partial response up to the part header of its first range. -/
def partialHeader (t : Nat) (r : Request) : List Piece :=
  statusLine e t " 206 Partial Content" r ++ printLastModified e t r ++
    (if r.numranges > 1 then
      [.raw (str "Content-Type: multipart/byteranges; boundary=THIS_STRING_SEPARATES" ++ crlf), nl]
    else [lit "Content-Length: ", .raw (simpleItoa (u64 (r.range.stop + 2^64 - r.range.start + 1))), nl]) ++
    printPartialContentContinue e r ++ [nl]

def sendRPartialContent : Srv Unit := do
  modReq fun r => { r with responseStatus := rPartialContent }
  let t ← now
  let r ← getReq
  puts (partialHeader e t r)

/-- The shape of most error and redirect responses: keep-alive ends, the header is left out
for HTTP/0.9, the body for HEAD, and the buffer is flushed. -/
def reply (code : Nat) (reason : String) (fields body : Request → List Piece) : Srv Unit := do
  squashKa
  modReq fun r => { r with responseStatus := code }
  let t ← now
  let r ← getReq
  onlyIf (r.httpVersion ≠ .http09) (puts (statusLine e t reason r ++ fields r))
  onlyIf (r.method ≠ .head) (puts (body r))
  let _ ← reqFlush e

/-- `HTML` title, heading and text of an error page. -/
def page (title : String) (rest : List Piece) : List Piece :=
  .raw (str ("<HTML><HEAD><TITLE>" ++ title ++ "</TITLE></HEAD>\n")) :: rest

def sendRMovedPerm (url : Text) : Srv Unit :=
  reply e rMovedPerm " 301 Moved Permanently"
    (fun _ => contentTypeHtml ++ [lit "Location: ", .http url, .raw (crlf ++ crlf)])
    (fun _ => [lit ("<HTML><HEAD><TITLE>301 Moved Permanently</TITLE></HEAD>\n" ++
        "<BODY>\n<H1>301 Moved</H1>The document has moved\n<A HREF=\""),
      .html url, lit "\">here</A>.\n</BODY></HTML>\n"])

/-- The URL comes twice, for the header and for the page, as pieces of the caller. -/
def sendRMovedTemp (httpUrl htmlUrl moreHdr : Piece) : Srv Unit :=
  reply e rMovedTemp " 302 Moved Temporarily"
    (fun _ => contentTypeHtml ++ [lit "Location: ", httpUrl, nl, moreHdr, .raw (crlf ++ crlf)])
    (fun _ => [lit ("<HTML><HEAD><TITLE>302 Moved Temporarily</TITLE></HEAD>\n" ++
        "<BODY>\n<H1>302 Moved</H1>The document has moved\n<A HREF=\""),
      htmlUrl, lit "\">here</A>.\n</BODY></HTML>\n"])

def sendRNotModified : Srv Unit := do
  squashKa
  modReq fun r => { r with responseStatus := rNotModified }
  let t ← now
  let r ← getReq
  puts (statusLine e t " 304 Not Modified" r ++ printContentType e r ++ [nl])
  let _ ← reqFlushRaw

def sendRBadRequest : Srv Unit :=
  reply e rBadRequest " 400 Bad Request" (fun _ => contentTypeHtmlEnd)
    (fun _ => [lit ("<HTML><HEAD><TITLE>400 Bad Request</TITLE></HEAD>\n" ++
      "<BODY><H1>400 Bad Request</H1>\nYour client has issued " ++
      "a malformed or illegal request.\n</BODY></HTML>\n")])

def sendRForbidden : Srv Unit :=
  reply e rForbidden " 403 Forbidden" (fun _ => contentTypeHtmlEnd)
    (fun r => [lit ("<HTML><HEAD><TITLE>403 Forbidden</TITLE></HEAD>\n" ++
        "<BODY><H1>403 Forbidden</H1>\nYour client does not have permission to get URL "),
      .html r.requestUri, lit " from this server.\n</BODY></HTML>\n"])

def sendRNotFound : Srv Unit :=
  reply e rNotFound " 404 Not Found" (fun _ => contentTypeHtmlEnd)
    (fun r => [lit ("<HTML><HEAD><TITLE>404 Not Found</TITLE></HEAD>\n" ++
        "<BODY><H1>404 Not Found</H1>\nThe requested URL "),
      .html r.requestUri, lit " was not found on this server.\n</BODY></HTML>\n"])

def invalidRangeBody : Text := str ("<HTML><HEAD><TITLE>416 Invalid Range</TITLE></HEAD>\n" ++
  "<BODY><H1>416 Invalid Range</H1>\n</BODY></HTML>\n")

def sendRInvalidRange : Srv Unit :=
  reply e rInvalidRange " 416 Invalid Range"
    (fun _ => [lit "Content-Length: ", .raw (simpleItoa invalidRangeBody.length),
      .raw (crlf ++ str "Content-Type: " ++ html ++ crlf ++ crlf)])
    (fun _ => [.raw invalidRangeBody])

def sendRError : Srv Unit :=
  reply e rError " 500 Server Error" (fun _ => contentTypeHtmlEnd)
    (fun _ => [lit ("<HTML><HEAD><TITLE>500 Server Error</TITLE></HEAD>\n" ++
      "<BODY><H1>500 Server Error</H1>\nThe server encountered " ++
      "an internal error and could not complete your request.\n</BODY></HTML>\n")])

/-- The body goes out for HEAD too: the method is not known. -/
def sendRNotImplemented : Srv Unit := do
  squashKa
  modReq fun r => { r with responseStatus := rNotImp }
  let t ← now
  let r ← getReq
  onlyIf (r.httpVersion ≠ .http09)
    (puts (statusLine e t " 501 Not Implemented" r ++ contentTypeHtmlEnd))
  puts [lit ("<HTML><HEAD><TITLE>501 Not Implemented</TITLE></HEAD>\n" ++
    "<BODY><H1>501 Not Implemented</H1>\nPOST to non-script " ++
    "is not supported in Boa.\n</BODY></HTML>\n")]
  let _ ← reqFlush e

def sendRBadGateway : Srv Unit :=
  reply e rBadGateway " 502 Bad Gateway" (fun _ => contentTypeHtmlEnd)
    (fun _ => [lit ("<HTML><HEAD><TITLE>502 Bad Gateway</TITLE></HEAD>\n" ++
      "<BODY><H1>502 Bad Gateway</H1>\nThe CGI was not CGI/1.1 compliant.\n</BODY></HTML>\n")])

def serviceUnavailableBody : Text :=
  str ("<HTML><HEAD><TITLE>503 Service Unavailable</TITLE></HEAD>\n" ++
    "<BODY><H1>503 Service Unavailable</H1>\nThere are too many connections in use right now.\n" ++
    "Please try again later.\n</BODY></HTML>\n")

def sendRServiceUnavailable : Srv Unit :=
  reply e rServiceUnav " 503 Service Unavailable"
    (fun _ => [lit "Content-Length: ", .raw (simpleItoa serviceUnavailableBody.length), nl] ++
      contentTypeHtmlEnd)
    (fun _ => [.raw serviceUnavailableBody])

/-- `crotalus_perror` answers with a server error. -/
def crotalusPerror : Srv Unit := sendRError e

end Responses

end Crotalus
