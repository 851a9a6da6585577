import Crotalus.Framework.Fields
import Crotalus.Properties.Announced
import Crotalus.Properties.Redirect

namespace Crotalus

open Stateful

/-! The frame of a reply: whatever the request, the lines of its header are those of the server. -/

/-- The replies that the server makes by itself. -/
inductive Reply where
  | ok | noContent | partialContent | notModified
  | movedPerm (url : Text) | movedTemp (url : Text)
  | badRequest | forbidden | notFound | invalidRange | error | notImplemented | badGateway
  | serviceUnavailable
  deriving DecidableEq

def Reply.send (e : Config) : Reply → Srv Unit
  | .ok => sendRRequestOk e
  | .noContent => sendRNoContent e
  | .partialContent => sendRPartialContent e
  | .notModified => sendRNotModified e
  | .movedPerm url => sendRMovedPerm e url
  | .movedTemp url => sendRMovedTemp e (.http url) (.html url) (.raw [])
  | .badRequest => sendRBadRequest e
  | .forbidden => sendRForbidden e
  | .notFound => sendRNotFound e
  | .invalidRange => sendRInvalidRange e
  | .error => sendRError e
  | .notImplemented => sendRNotImplemented e
  | .badGateway => sendRBadGateway e
  | .serviceUnavailable => sendRServiceUnavailable e

/-! Text of one line. -/

/-- Characters that stand in a line and do not end it. -/
def Graphic (s : Text) : Prop := ∀ b∈s,32 ≤ b.toNat ∧ b.toNat < 127

instance (s : Text) : Decidable (Graphic s) :=
  List.decidableBAll (fun b : Byte => 32 ≤ b.toNat ∧ b.toNat < 127) s

section Graphic

variable {s t : Text}

theorem graphic_append : Graphic (s++t) ↔ Graphic s ∧ Graphic t := List.forall_mem_append

theorem Graphic.noCr (h : Graphic s) : 13∉s := fun hmem => absurd (h 13 hmem).1 (by decide)

theorem Graphic.of_digits (h : Digits s) : Graphic s := by
  intro b hb
  have hdigit := digit_bounds (h b hb)
  omega

theorem graphic_decimal (k n : Nat) : Graphic (digitsRev k n).reverse :=
  fun b hb => Graphic.of_digits (digitsRev_digits k n) b (List.mem_reverse.mp hb)

theorem simpleItoa_graphic (n : Nat) : Graphic (simpleItoa n) := graphic_decimal 21 _

/-- An escaped byte is a character that needs no escape, or a percent sign and two digits. -/
theorem escapeHttp_graphic (b : Byte) : Graphic (escapeHttp b) := by
  have hall : ∀ n < 256,Graphic (escapeHttp (UInt8.ofNat n)) := by decide +kernel
  have hb := hall b.toNat b.toNat_lt
  rwa [UInt8.ofNat_toNat] at hb

theorem escaped_graphic (url : Text) : Graphic (url.flatMap escapeHttp) := by
  intro b hb
  obtain ⟨a,-,ha⟩ := List.mem_flatMap.mp hb
  exact escapeHttp_graphic a b ha

theorem rfc822TimeBuf_graphic {n : Nat} {tm : Tm} (h : IsUtc n tm) :
    Graphic (rfc822TimeBuf tm) := by
  apply rfc822TimeBuf_all (p := fun b => 32 ≤ b.toNat ∧ b.toNat < 127) h
  · exact fun b hb => Graphic.of_digits (s := [b]) (by simpa [Digits] using hb) b
      (List.mem_singleton_self b)
  · decide +kernel
  · decide +kernel
  · decide
  · decide
  · decide +kernel

end Graphic

/-! The lines of a header. -/

/-- Each line ends in CRLF. -/
def lineBytesOf (ls : List Text) : Text := ls.flatMap (· ++crlf)

section Lines

variable (e : Config) (t : Nat) (r : Request)

def typeLine : Text := str "Content-Type: "++getMimeType e r.requestUri++
  match e.defaultCharset with
  | some cs => if strncaseEq (getMimeType e r.requestUri) (str "text") then str "; charset="++cs else []
  | none => []

def lengthLine (n : Nat) : Text := str "Content-Length: "++simpleItoa n

def modifiedLine : Text := str "Last-Modified: "++rfc822 e t r.lastModified

def rangeLine : Text := str "Content-Range: bytes "++simpleItoa r.range.start++str "-"++
  simpleItoa r.range.stop++str "/"++simpleItoa r.filesize

def kaLines : List Text :=
  if r.kacount > 0 ∧ r.keepalive=.active ∧ r.responseStatus < 500 then
    [str "Connection: Keep-Alive",str "Keep-Alive: timeout="++simpleItoa e.kaTimeout++
      str ", max="++simpleItoa r.kacount]
  else [str "Connection: close"]

def filterLines : List Text :=
  match r.filter with
  | some f => [str "Content-Encoding: "++f.type,str "Transfer-Encoding: chunked"]
  | none => []

def statusLines (reason : String) : List Text :=
  [httpVerString r.httpVersion++str reason,str "Date: "++rfc822 e t 0]++
    (if e.concealServerIdentity then [] else [str "Server: "++serverVersion])++
    [str "Accept-Ranges: bytes"]++kaLines e r++filterLines r

def htmlLine : Text := str "Content-Type: "++html

theorem lineBytesOf_append (ls ls' : List Text) :
    lineBytesOf (ls++ls')=lineBytesOf ls++lineBytesOf ls' := List.flatMap_append

theorem printContentType_lines : pieceBytes (printContentType e r)=lineBytesOf [typeLine e r] := by
  rw [printContentType,typeLine]
  cases e.defaultCharset with
  | none => simp [pieceBytes,lineBytesOf,Piece.bytes,lit,nl]
  | some cs =>
    by_cases htext : strncaseEq (getMimeType e r.requestUri) (str "text")=true
    · simp [pieceBytes,lineBytesOf,Piece.bytes,lit,nl,htext]
    · simp [pieceBytes,lineBytesOf,Piece.bytes,lit,nl,htext]

theorem printContentRange_lines : pieceBytes (printContentRange r)=lineBytesOf [rangeLine r] := by
  simp [pieceBytes,lineBytesOf,Piece.bytes,lit,nl,printContentRange,rangeLine]

theorem statusLine_lines (reason : String) :
    pieceBytes (statusLine e t reason r)=lineBytesOf (statusLines e t r reason) := by
  have hka : pieceBytes (printKaPhrase e r)=lineBytesOf (kaLines e r) := by
    unfold printKaPhrase kaLines
    split
    · simp [pieceBytes,lineBytesOf,Piece.bytes,lit,nl]
    · simp [pieceBytes,lineBytesOf,Piece.bytes]
  rw [statusLine,printHttpHeaders,statusLines]
  simp only [pieceBytes_append,lineBytesOf_append,hka]
  cases hf : r.filter with
  | none => cases e.concealServerIdentity <;> simp [pieceBytes,lineBytesOf,Piece.bytes,filterLines,hf]
  | some f => cases e.concealServerIdentity <;> simp [pieceBytes,lineBytesOf,Piece.bytes,filterLines,hf]

end Lines

section Reply

/-- A reply that keeps the connection's keep-alive as it is. -/
def Reply.keeps : Reply → Bool
  | .ok | .noContent | .partialContent => true
  | _ => false

def Reply.code : Reply → Nat
  | .ok => rRequestOk
  | .noContent => rNoContent
  | .partialContent => rPartialContent
  | .notModified => rNotModified
  | .movedPerm _ => rMovedPerm
  | .movedTemp _ => rMovedTemp
  | .badRequest => rBadRequest
  | .forbidden => rForbidden
  | .notFound => rNotFound
  | .invalidRange => rInvalidRange
  | .error => rError
  | .notImplemented => rNotImp
  | .badGateway => rBadGateway
  | .serviceUnavailable => rServiceUnav

def Reply.reason : Reply → String
  | .ok => " 200 OK"
  | .noContent => " 204 NO CONTENT"
  | .partialContent => " 206 Partial Content"
  | .notModified => " 304 Not Modified"
  | .movedPerm _ => " 301 Moved Permanently"
  | .movedTemp _ => " 302 Moved Temporarily"
  | .badRequest => " 400 Bad Request"
  | .forbidden => " 403 Forbidden"
  | .notFound => " 404 Not Found"
  | .invalidRange => " 416 Invalid Range"
  | .error => " 500 Server Error"
  | .notImplemented => " 501 Not Implemented"
  | .badGateway => " 502 Bad Gateway"
  | .serviceUnavailable => " 503 Service Unavailable"

/-- The request while the reply is written. -/
def Reply.begins (k : Reply) (r : Request) : Request :=
  if k.keeps then { r with responseStatus := k.code } else r.answering k.code

def Reply.start (k : Reply) (c : Conn) : Conn := { c with req := k.begins c.req }

/-- The lines behind those of every reply. -/
def Reply.fields (e : Config) (t : Nat) (r : Request) : Reply → List Text
  | .ok => [modifiedLine e t r,typeLine e r]++if r.filter=none then [lengthLine r.filesize] else []
  | .noContent => []
  | .partialContent => modifiedLine e t r::
      if r.numranges > 1 then
        [str "Content-Type: multipart/byteranges; boundary=THIS_STRING_SEPARATES"]
      else [lengthLine (u64 (r.range.stop+2^64-r.range.start+1)),typeLine e r,rangeLine r]
  | .notModified => [typeLine e r]
  | .movedPerm url | .movedTemp url => [htmlLine,str "Location: "++url.flatMap escapeHttp]
  | .invalidRange => [lengthLine invalidRangeBody.length,htmlLine]
  | .serviceUnavailable => [lengthLine serviceUnavailableBody.length,htmlLine]
  | _ => [htmlLine]

def Reply.lines (e : Config) (t : Nat) (r : Request) (k : Reply) : List Text :=
  statusLines e t r k.reason++k.fields e t r

/-- The pieces of the header behind those of every reply, up to the blank line. -/
def Reply.header (e : Config) (t : Nat) (r : Request) : Reply → List Piece
  | .ok => staticFields e t r
  | .noContent => [nl]
  | .partialContent => printLastModified e t r++
      (if r.numranges > 1 then
        [.raw (str "Content-Type: multipart/byteranges; boundary=THIS_STRING_SEPARATES"++crlf),nl]
      else [lit "Content-Length: ",.raw (simpleItoa (u64 (r.range.stop+2^64-r.range.start+1))),nl])++
      printPartialContentContinue e r++[nl]
  | .notModified => printContentType e r++[nl]
  | .movedPerm url => contentTypeHtml++[lit "Location: ",.http url,.raw (crlf++crlf)]
  | .movedTemp url => contentTypeHtml++[lit "Location: ",.http url,nl,.raw [],.raw (crlf++crlf)]
  | .invalidRange => [lit "Content-Length: ",.raw (simpleItoa invalidRangeBody.length),
      .raw (crlf++str "Content-Type: "++html++crlf++crlf)]
  | .serviceUnavailable => [lit "Content-Length: ",.raw (simpleItoa serviceUnavailableBody.length),nl]++
      contentTypeHtmlEnd
  | _ => contentTypeHtmlEnd

/-- What the header's pieces have behind the blank line. -/
def Reply.behind (e : Config) (r : Request) : Reply → Text
  | .partialContent => if r.numranges > 1 then pieceBytes (printPartialContentContinue e r++[nl]) else []
  | .movedTemp _ => crlf
  | _ => []

/-- Bytes of the header's pieces: the lines, the blank line, and what is behind. -/
theorem Reply.header_lines (e : Config) (t : Nat) (r : Request) (k : Reply) :
    pieceBytes (k.header e t r)=lineBytesOf (k.fields e t r)++crlf++k.behind e r := by
  have hmodified : pieceBytes (printLastModified e t r)=lineBytesOf [modifiedLine e t r] := by
    simp [pieceBytes,lineBytesOf,Piece.bytes,printLastModified,modifiedLine]
  have hlength : pieceBytes (printContentLength r)=lineBytesOf [lengthLine r.filesize] := by
    simp [pieceBytes,lineBytesOf,Piece.bytes,lit,nl,printContentLength,lengthLine]
  have hblank : pieceBytes [nl]=crlf := List.append_nil _
  have htype := printContentType_lines e r
  have hcons : ∀ (l : Text) (ls : List Text),lineBytesOf (l::ls)=lineBytesOf [l]++lineBytesOf ls :=
    fun l ls => lineBytesOf_append [l] ls
  cases k with
  | ok =>
    by_cases hf : r.filter=none
    · simp only [Reply.header,Reply.fields,Reply.behind,staticFields,pieceBytes_append,
        lineBytesOf_append,hmodified,htype,hlength,hblank,if_pos hf,hcons _ [_],List.append_assoc,
        List.append_nil]
    · simp only [Reply.header,Reply.fields,Reply.behind,staticFields,pieceBytes_append,hmodified,
        htype,hblank,if_neg hf,hcons _ [_],List.append_assoc,List.append_nil]
  | noContent => rfl
  | partialContent =>
    by_cases hn : r.numranges > 1
    · simp only [Reply.header,Reply.fields,Reply.behind,pieceBytes_append,hmodified,if_pos hn,
        hcons _ [_],List.append_assoc]
      simp [pieceBytes,lineBytesOf,Piece.bytes,nl]
    · simp only [Reply.header,Reply.fields,Reply.behind,pieceBytes_append,hmodified,if_neg hn,
        printPartialContentContinue,htype,printContentRange_lines,hblank,hcons _ (_::_)]
      simp [pieceBytes,lineBytesOf,Piece.bytes,lit,nl,lengthLine]
  | notModified =>
    simp only [Reply.header,Reply.fields,Reply.behind,pieceBytes_append,htype,hblank,List.append_nil]
  | movedPerm url =>
    simp [Reply.header,Reply.fields,Reply.behind,contentTypeHtml,pieceBytes,lineBytesOf,Piece.bytes,
      lit,htmlLine]
  | movedTemp url =>
    simp [Reply.header,Reply.fields,Reply.behind,contentTypeHtml,pieceBytes,lineBytesOf,Piece.bytes,
      lit,nl,htmlLine]
  | invalidRange =>
    simp [Reply.header,Reply.fields,Reply.behind,pieceBytes,lineBytesOf,Piece.bytes,lit,htmlLine,
      lengthLine]
  | serviceUnavailable =>
    simp [Reply.header,Reply.fields,Reply.behind,contentTypeHtmlEnd,pieceBytes,lineBytesOf,
      Piece.bytes,lit,nl,htmlLine,lengthLine]
  | badRequest | forbidden | notFound | error | notImplemented | badGateway =>
    simp [Reply.header,Reply.fields,Reply.behind,contentTypeHtmlEnd,pieceBytes,lineBytesOf,
      Piece.bytes,htmlLine]

/-- The page of a reply. -/
def Reply.page (r : Request) : Reply → List Piece
  | .movedPerm url => [lit ("<HTML><HEAD><TITLE>301 Moved Permanently</TITLE></HEAD>\n" ++
        "<BODY>\n<H1>301 Moved</H1>The document has moved\n<A HREF=\""),
      .html url,lit "\">here</A>.\n</BODY></HTML>\n"]
  | .movedTemp url => [lit ("<HTML><HEAD><TITLE>302 Moved Temporarily</TITLE></HEAD>\n" ++
        "<BODY>\n<H1>302 Moved</H1>The document has moved\n<A HREF=\""),
      .html url,lit "\">here</A>.\n</BODY></HTML>\n"]
  | .badRequest => [lit ("<HTML><HEAD><TITLE>400 Bad Request</TITLE></HEAD>\n" ++
      "<BODY><H1>400 Bad Request</H1>\nYour client has issued " ++
      "a malformed or illegal request.\n</BODY></HTML>\n")]
  | .forbidden => [lit ("<HTML><HEAD><TITLE>403 Forbidden</TITLE></HEAD>\n" ++
        "<BODY><H1>403 Forbidden</H1>\nYour client does not have permission to get URL "),
      .html r.requestUri,lit " from this server.\n</BODY></HTML>\n"]
  | .notFound => [lit ("<HTML><HEAD><TITLE>404 Not Found</TITLE></HEAD>\n" ++
        "<BODY><H1>404 Not Found</H1>\nThe requested URL "),
      .html r.requestUri,lit " was not found on this server.\n</BODY></HTML>\n"]
  | .invalidRange => [.raw invalidRangeBody]
  | .error => [lit ("<HTML><HEAD><TITLE>500 Server Error</TITLE></HEAD>\n" ++
      "<BODY><H1>500 Server Error</H1>\nThe server encountered " ++
      "an internal error and could not complete your request.\n</BODY></HTML>\n")]
  | .notImplemented => [lit ("<HTML><HEAD><TITLE>501 Not Implemented</TITLE></HEAD>\n" ++
      "<BODY><H1>501 Not Implemented</H1>\nPOST to non-script " ++
      "is not supported in Boa.\n</BODY></HTML>\n")]
  | .badGateway => [lit ("<HTML><HEAD><TITLE>502 Bad Gateway</TITLE></HEAD>\n" ++
      "<BODY><H1>502 Bad Gateway</H1>\nThe CGI was not CGI/1.1 compliant.\n</BODY></HTML>\n")]
  | .serviceUnavailable => [.raw serviceUnavailableBody]
  | _ => []

/-- The answer to HEAD has no page, but for the one that does not know the method. -/
def Reply.body (r : Request) (k : Reply) : List Piece :=
  if r.method≠.head ∨ k=.notImplemented then k.page r else []

def Reply.pieces (e : Config) (t : Nat) (r : Request) (k : Reply) : List Piece :=
  statusLine e t k.reason r++k.header e t r++k.body r

/-- The replies for which the server writes the whole header: a 200 or 204 of a file. -/
def Reply.Own (r : Request) : Reply → Prop
  | .ok => r.mime=none ∧ r.cgiType=.unset
  | .noContent => r.cgiType=.unset
  | _ => True

theorem pieces_of_reply {e : Config} {t : Nat} {r : Request} {k : Reply}
    {fields body : Request → List Piece} (hfields : fields r=k.header e t r) (hbody : body r=k.page r)
    (hk : k≠.notImplemented) (hv : r.httpVersion≠.http09) :
    replyPieces e k.reason fields body t r=k.pieces e t r := by
  rw [replyPieces,if_pos hv,Reply.pieces,Reply.body,hfields,hbody]
  by_cases hm : r.method≠.head
  · rw [if_pos hm,if_pos (.inl hm)]
  · rw [if_neg hm,if_neg fun h => h.elim hm hk]

/-- A filter sends the header of a file on its way. -/
theorem ok_prints {e : Config} {c : Conn} (hown : Reply.ok.Own c.req)
    (hv : c.req.httpVersion≠.http09) : exec (Reply.ok.send e) c=
      exec (if c.req.filter=none then pure () else (do let _ ← reqFlushRaw))
        (exec (puts (Reply.ok.pieces e c.sys.now (Reply.ok.begins c.req))) (Reply.ok.start c)) := by
  obtain ⟨hmime,hkind⟩ := hown
  have hset : exec (modReq fun r => { r with responseStatus := rRequestOk }) c=Reply.ok.start c := rfl
  have hver : (Reply.ok.start c).req.httpVersion≠.http09 := hv
  have htype : (Reply.ok.start c).req.cgiType=.unset := hkind
  have hfilter : (Reply.ok.start c).req.filter=c.req.filter := rfl
  have hpieces : Reply.ok.pieces e c.sys.now (Reply.ok.begins c.req)=
      statusLine e c.sys.now " 200 OK" (Reply.ok.start c).req++
        staticFields e c.sys.now (Reply.ok.start c).req := by
    rw [Reply.pieces,Reply.body]
    split <;> exact List.append_nil _
  simp only [Reply.send,sendRRequestOk,exec_bind,value_getReq,exec_getReq,hmime,hset,exec_now,
    value_now,if_neg hver,if_pos htype,hpieces,puts_append,hfilter]
  by_cases hf : c.req.filter=none
  · rw [if_pos hf,hf]
    rfl
  · rw [if_neg hf,decide_eq_true hf]
    rfl

theorem partialContent_prints (e : Config) (c : Conn) : exec (Reply.partialContent.send e) c=
    exec (puts (Reply.partialContent.pieces e c.sys.now (Reply.partialContent.begins c.req)))
      (Reply.partialContent.start c) := by
  have hpieces : Reply.partialContent.pieces e c.sys.now (Reply.partialContent.begins c.req)=
      partialHeader e c.sys.now (Reply.partialContent.begins c.req) := by
    rw [Reply.pieces,Reply.body,partialHeader,Reply.header]
    simp only [List.append_assoc]
    split <;> simp [Reply.page,Reply.reason]
  rw [hpieces]
  rfl

/-- Each reply is its pieces, and then a flush or nothing. -/
theorem Reply.prints (e : Config) (c : Conn) (k : Reply) (hown : k.Own c.req)
    (hv : c.req.httpVersion≠.http09) : ∃ flush,FlushOnly e flush ∧
      exec (k.send e) c=exec flush (exec (puts (k.pieces e c.sys.now (k.begins c.req))) (k.start c)) := by
  have hv' : ∀ code,(c.req.answering code).httpVersion≠.http09 := fun _ => hv
  have hreply : ∀ (fields body : Request → List Piece),k.keeps=false → k≠.notImplemented →
      k.send e=reply e k.code k.reason fields body →
      (∀ r,fields r=k.header e c.sys.now r) → (∀ r,body r=k.page r) → ∃ flush,FlushOnly e flush ∧
        exec (k.send e) c=
          exec flush (exec (puts (k.pieces e c.sys.now (k.begins c.req))) (k.start c)) := by
    intro fields body hkeeps hk hsend hfields hbody
    have hbegins : k.begins c.req=c.req.answering k.code := by
      rw [Reply.begins,hkeeps]
      rfl
    refine ⟨_,.inr (.inl rfl),?_⟩
    rw [hsend,exec_reply,Reply.start,hbegins,
      pieces_of_reply (hfields _) (hbody _) hk (hv' k.code)]
    rfl
  cases k with
  | ok =>
    by_cases hf : c.req.filter=none
    · exact ⟨pure (),.inl rfl,(ok_prints hown hv).trans (by rw [if_pos hf])⟩
    · exact ⟨_,.inr (.inr rfl),(ok_prints hown hv).trans (by rw [if_neg hf])⟩
  | noContent =>
    have hset : exec (modReq fun r => { r with responseStatus := rNoContent }) c=
        Reply.noContent.start c := rfl
    have hver : (Reply.noContent.start c).req.httpVersion≠.http09 := hv
    have htype : (Reply.noContent.start c).req.cgiType=.unset := hown
    have hpieces : Reply.noContent.pieces e c.sys.now (Reply.noContent.begins c.req)=
        statusLine e c.sys.now " 204 NO CONTENT" (Reply.noContent.start c).req++[nl] := by
      rw [Reply.pieces,Reply.body]
      split <;> exact List.append_nil _
    refine ⟨pure (),.inl rfl,?_⟩
    simp only [Reply.send,sendRNoContent,exec_bind,value_getReq,exec_getReq,hset,exec_now,value_now,
      if_neg hver,htype,hpieces,puts_append]
    rfl
  | partialContent => exact ⟨pure (),.inl rfl,partialContent_prints e c⟩
  | notModified =>
    have hpieces : Reply.notModified.pieces e c.sys.now (Reply.notModified.begins c.req)=
        statusLine e c.sys.now " 304 Not Modified" (c.req.answering rNotModified)++
          printContentType e (c.req.answering rNotModified)++[nl] := by
      rw [Reply.pieces,Reply.body]
      split <;> simp [Reply.page,Reply.reason,Reply.header,Reply.begins,Reply.keeps,Reply.code]
    rw [hpieces]
    exact ⟨_,.inr (.inr rfl),rfl⟩
  | movedPerm url => exact hreply _ _ rfl (fun h => by cases h) rfl (fun _ => rfl) fun _ => rfl
  | movedTemp url => exact hreply _ _ rfl (fun h => by cases h) rfl (fun _ => rfl) fun _ => rfl
  | badRequest => exact hreply _ _ rfl (by decide) rfl (fun _ => rfl) fun _ => rfl
  | forbidden => exact hreply _ _ rfl (by decide) rfl (fun _ => rfl) fun _ => rfl
  | notFound => exact hreply _ _ rfl (by decide) rfl (fun _ => rfl) fun _ => rfl
  | invalidRange => exact hreply _ _ rfl (by decide) rfl (fun _ => rfl) fun _ => rfl
  | error => exact hreply _ _ rfl (by decide) rfl (fun _ => rfl) fun _ => rfl
  | notImplemented =>
    have hset : exec (modReq fun r => { r with responseStatus := rNotImp }) (exec squashKa c)=
        Reply.notImplemented.start c := rfl
    have hver : (Reply.notImplemented.start c).req.httpVersion≠.http09 := hv
    have hpieces : Reply.notImplemented.pieces e c.sys.now (Reply.notImplemented.begins c.req)=
        (statusLine e c.sys.now " 501 Not Implemented" (Reply.notImplemented.start c).req++
          contentTypeHtmlEnd)++Reply.notImplemented.page (Reply.notImplemented.start c).req := by
      rw [Reply.pieces,Reply.body,if_pos (.inr rfl)]
      rfl
    refine ⟨_,.inr (.inl rfl),?_⟩
    simp only [Reply.send,sendRNotImplemented,exec_bind,value_getReq,exec_getReq,hset,exec_now,
      value_now,hpieces,puts_append]
    rw [decide_eq_true hver]
    simp only [onlyIf,if_true,puts_append]
    rfl
  | badGateway => exact hreply _ _ rfl (by decide) rfl (fun _ => rfl) fun _ => rfl
  | serviceUnavailable => exact hreply _ _ rfl (by decide) rfl (fun _ => rfl) fun _ => rfl

end Reply

/-! No line comes from the request but as a line's text. -/

/-- A line that is not the blank one and that nothing in it ends. -/
def HeaderLine (l : Text) : Prop := l≠[] ∧ Graphic l

instance (l : Text) : Decidable (HeaderLine l) := inferInstanceAs (Decidable (_ ∧ _))

theorem HeaderLine.append {s t : Text} (hs : HeaderLine s) (ht : Graphic t) : HeaderLine (s++t) :=
  ⟨fun h => hs.1 (List.append_eq_nil_iff.mp h).1,graphic_append.mpr ⟨hs.2,ht⟩⟩

/-- The server's own texts in its header lines. -/
def phrases : List Text :=
  [str "Content-Type: ",str "; charset=",str "Content-Length: ",str "Last-Modified: ",
    str "Content-Range: bytes ",str "-",str "/",str "Connection: Keep-Alive",
    str "Keep-Alive: timeout=",str ", max=",str "Connection: close",
    str "Content-Encoding: "++FilterKind.deflate.type,str "Content-Encoding: "++FilterKind.gzip.type,
    str "Transfer-Encoding: chunked",httpVerString .http09,httpVerString .http10,
    httpVerString .http11,httpVerString .unset,str "Date: ",str "Server: "++serverVersion,
    str "Accept-Ranges: bytes",htmlLine,str "Location: ",
    str "Content-Type: multipart/byteranges; boundary=THIS_STRING_SEPARATES",
    str " 200 OK",str " 204 NO CONTENT",str " 206 Partial Content",str " 304 Not Modified",
    str " 301 Moved Permanently",str " 302 Moved Temporarily",str " 400 Bad Request",
    str " 403 Forbidden",str " 404 Not Found",str " 416 Invalid Range",str " 500 Server Error",
    str " 501 Not Implemented",str " 502 Bad Gateway",str " 503 Service Unavailable"]

theorem phrases_headerLine : ∀ s∈phrases,HeaderLine s := by decide +kernel

/-- The types and the character set of the configuration are text of one line. -/
structure CleanTypes (e : Config) : Prop where
  default : Graphic e.defaultType
  table : ∀ kv∈e.mimeHashtable,Graphic kv.2
  charset : ∀ cs,e.defaultCharset=some cs → Graphic cs

section Framed

variable {e : Config} {t : Nat} {r : Request} {c : Conn}

theorem CleanTypes.mimeType (h : CleanTypes e) (name : Text) : Graphic (getMimeType e name) := by
  unfold getMimeType
  cases strrchr 46 name with
  | none => exact h.default
  | some i =>
    by_cases hext : name.drop (i+1)=[]
    · simp only [hext,if_true]
      exact h.default
    · simp only [if_neg hext]
      cases hfind : e.mimeHashtable.find? fun kv => kv.1=name.drop (i+1) with
      | none => exact h.default
      | some kv => exact h.table kv (List.mem_of_find?_eq_some hfind)

theorem typeLine_headerLine (h : CleanTypes e) (r : Request) : HeaderLine (typeLine e r) := by
  have hname : HeaderLine (str "Content-Type: ") := phrases_headerLine _ (by simp [phrases])
  apply (hname.append (h.mimeType r.requestUri)).append
  have hnone : Graphic [] := fun b hb => (by cases hb)
  cases hcs : e.defaultCharset with
  | none => exact hnone
  | some cs =>
    show Graphic (if strncaseEq (getMimeType e r.requestUri) (str "text") then
      str "; charset="++cs else [])
    split
    · exact graphic_append.mpr ⟨(phrases_headerLine _ (by simp [phrases])).2,h.charset cs hcs⟩
    · exact hnone

theorem lengthLine_headerLine (n : Nat) : HeaderLine (lengthLine n) :=
  HeaderLine.append (phrases_headerLine _ (by simp [phrases])) (simpleItoa_graphic n)

theorem modifiedLine_headerLine (hutc : IsUtc t (e.gmtime t))
    (hlm : IsUtc r.lastModified (e.gmtime r.lastModified)) : HeaderLine (modifiedLine e t r) := by
  apply HeaderLine.append (phrases_headerLine _ (by simp [phrases]))
  unfold rfc822
  split
  · exact rfc822TimeBuf_graphic hutc
  · exact rfc822TimeBuf_graphic hlm

theorem rangeLine_headerLine (r : Request) : HeaderLine (rangeLine r) := by
  have hname : HeaderLine (str "Content-Range: bytes ") :=
    phrases_headerLine _ (by simp [phrases])
  have hdash : Graphic (str "-") := (phrases_headerLine _ (by simp [phrases])).2
  have hslash : Graphic (str "/") := (phrases_headerLine _ (by simp [phrases])).2
  have hnumber := simpleItoa_graphic
  exact ((((hname.append (hnumber _)).append hdash).append (hnumber _)).append hslash).append (hnumber _)

theorem kaLines_headerLine (r : Request) : ∀ l∈kaLines e r,HeaderLine l := by
  have hname : HeaderLine (str "Keep-Alive: timeout=") :=
    phrases_headerLine _ (by simp [phrases])
  have hmax : Graphic (str ", max=") := (phrases_headerLine _ (by simp [phrases])).2
  have hnumber := simpleItoa_graphic
  intro l hl
  unfold kaLines at hl
  split at hl
  · rcases List.mem_cons.mp hl with rfl|hl
    · exact phrases_headerLine _ (by simp [phrases])
    · rw [List.mem_singleton.mp hl]
      exact ((hname.append (hnumber _)).append hmax).append (hnumber _)
  · rw [List.mem_singleton.mp hl]
    exact phrases_headerLine _ (by simp [phrases])

theorem filterLines_headerLine (r : Request) : ∀ l∈filterLines r,HeaderLine l := by
  intro l hl
  unfold filterLines at hl
  cases hf : r.filter with
  | none =>
    rw [hf] at hl
    cases hl
  | some f =>
    rw [hf] at hl
    rcases List.mem_cons.mp hl with rfl|hl
    · cases f <;> exact phrases_headerLine _ (by simp [phrases])
    · rw [List.mem_singleton.mp hl]
      exact phrases_headerLine _ (by simp [phrases])

theorem statusLines_headerLine (hutc : IsUtc t (e.gmtime t)) {reason : String}
    (hreason : Graphic (str reason)) (r : Request) :
    ∀ l∈statusLines e t r reason,HeaderLine l := by
  have hver : HeaderLine (httpVerString r.httpVersion) := by
    cases r.httpVersion <;> exact phrases_headerLine _ (by simp [phrases])
  have hdate : HeaderLine (str "Date: "++rfc822 e t 0) :=
    HeaderLine.append (phrases_headerLine _ (by simp [phrases])) (rfc822TimeBuf_graphic hutc)
  intro l hl
  simp only [statusLines,List.mem_append,List.mem_cons,List.not_mem_nil,or_false] at hl
  rcases hl with ((((rfl|rfl)|hl)|rfl)|hl)|hl
  · exact hver.append hreason
  · exact hdate
  · split at hl
    · cases hl
    · rw [List.mem_singleton.mp hl]
      exact phrases_headerLine _ (by simp [phrases])
  · exact phrases_headerLine _ (by simp [phrases])
  · exact kaLines_headerLine r l hl
  · exact filterLines_headerLine r l hl

theorem htmlLine_headerLine : HeaderLine htmlLine := phrases_headerLine _ (by simp [phrases])

theorem Reply.fields_headerLine (h : CleanTypes e) (hutc : IsUtc t (e.gmtime t))
    (hlm : IsUtc r.lastModified (e.gmtime r.lastModified)) (k : Reply) :
    ∀ l∈k.fields e t r,HeaderLine l := by
  have hmodified := modifiedLine_headerLine hutc hlm
  have htype := typeLine_headerLine h r
  have hlocation : ∀ url : Text,HeaderLine (str "Location: "++url.flatMap escapeHttp) :=
    fun url => (phrases_headerLine _ (by simp [phrases])).append (escaped_graphic url)
  have hbyteranges : HeaderLine
      (str "Content-Type: multipart/byteranges; boundary=THIS_STRING_SEPARATES") :=
    phrases_headerLine _ (by simp [phrases])
  intro l hl
  cases k with
  | ok =>
    simp only [Reply.fields,List.mem_append,List.mem_cons,List.not_mem_nil,or_false] at hl
    rcases hl with (rfl|rfl)|hl
    · exact hmodified
    · exact htype
    · split at hl
      · rw [List.mem_singleton.mp hl]
        exact lengthLine_headerLine _
      · cases hl
  | noContent => cases hl
  | partialContent =>
    rcases List.mem_cons.mp hl with rfl|hl
    · exact hmodified
    · split at hl
      · rw [List.mem_singleton.mp hl]
        exact hbyteranges
      · simp only [List.mem_cons,List.not_mem_nil,or_false] at hl
        rcases hl with rfl|rfl|rfl
        · exact lengthLine_headerLine _
        · exact htype
        · exact rangeLine_headerLine r
  | notModified =>
    rw [List.mem_singleton.mp hl]
    exact htype
  | movedPerm url | movedTemp url =>
    simp only [Reply.fields,List.mem_cons,List.not_mem_nil,or_false] at hl
    rcases hl with rfl|rfl
    · exact htmlLine_headerLine
    · exact hlocation url
  | invalidRange | serviceUnavailable =>
    simp only [Reply.fields,List.mem_cons,List.not_mem_nil,or_false] at hl
    rcases hl with rfl|rfl
    · exact lengthLine_headerLine _
    · exact htmlLine_headerLine
  | badRequest | forbidden | notFound | error | notImplemented | badGateway =>
    rw [List.mem_singleton.mp hl]
    exact htmlLine_headerLine

theorem Reply.lines_headerLine (h : CleanTypes e) (hutc : IsUtc t (e.gmtime t))
    (hlm : IsUtc r.lastModified (e.gmtime r.lastModified)) (k : Reply) :
    ∀ l∈k.lines e t r,HeaderLine l := by
  have hreason : Graphic (str k.reason) := by
    apply (phrases_headerLine _ _).2
    cases k <;> simp [phrases,Reply.reason]
  intro l hl
  rcases List.mem_append.mp hl with hl|hl
  · exact statusLines_headerLine hutc hreason r l hl
  · exact k.fields_headerLine h hutc hlm l hl

theorem Reply.pieces_frame (k : Reply) : pieceBytes (k.pieces e t r)=
    Fields.frame 13 10 (k.lines e t r) (k.behind e r++pieceBytes (k.body r)) := by
  rw [Reply.pieces,pieceBytes_append,pieceBytes_append,statusLine_lines,k.header_lines,Fields.frame,
    Reply.lines]
  simp [lineBytesOf,crlf]

theorem Reply.header_cushioned (k : Reply) : Cushioned (k.header e t r) := by
  have hraw : ∀ ps : List Piece,ps.all Piece.isRaw=true → Cushioned ps := fun ps h => cushioned_raw h
  have htype : (printContentType e r).all Piece.isRaw=true := by
    unfold printContentType
    cases e.defaultCharset with
    | none => rfl
    | some cs =>
      simp only [List.all_append,Bool.and_eq_true]
      refine ⟨⟨rfl,?_⟩,rfl⟩
      split <;> rfl
  cases k with
  | movedPerm url => exact ⟨by decide,trivial⟩
  | movedTemp url => exact ⟨by decide,trivial⟩
  | ok =>
    apply hraw
    simp only [Reply.header,staticFields,List.all_append,htype,Bool.and_true]
    split <;> rfl
  | partialContent =>
    apply hraw
    simp only [Reply.header,printPartialContentContinue,List.all_append,htype,Bool.and_true]
    split <;> rfl
  | notModified =>
    apply hraw
    simp only [Reply.header,List.all_append,htype,Bool.true_and]
    rfl
  | noContent | badRequest | forbidden | notFound | invalidRange | error | notImplemented
    | badGateway | serviceUnavailable => exact hraw _ rfl

theorem Reply.page_cushioned (k : Reply) : Cushioned (k.page r) := by
  cases k with
  | movedPerm url | movedTemp url | forbidden | notFound => exact ⟨by decide +kernel,trivial⟩
  | _ => trivial

theorem Reply.pieces_cushioned (k : Reply) : Cushioned (k.pieces e t r) := by
  have hbody : Cushioned (k.body r) := by
    unfold Reply.body
    split
    · exact k.page_cushioned
    · trivial
  exact ((cushioned_raw (statusLine_raw e t _ r)).append k.header_cushioned).append hbody

/-- What a reply writes reads back as the lines the server meant, and a page; none of the lines
has a character that could end it, whatever the URL, the host or the name of the file. -/
theorem reply_framed (hclean : CleanTypes e) (k : Reply) (hown : k.Own c.req)
    (hv : c.req.httpVersion≠.http09) (halive : c.req.status.over=false)
    (hempty : c.req.bufferEnd=0) (hutc : IsUtc c.sys.now (e.gmtime c.sys.now))
    (hlm : IsUtc c.req.lastModified (e.gmtime c.req.lastModified))
    (hfit : (pieceBytes (k.pieces e c.sys.now (k.begins c.req))).length ≤ bufferSize) :
    ∃ flush text,FlushOnly e flush ∧ exec (k.send e) c=exec flush ((k.start c).buffers text) ∧
      Fields.unframe 13 10 text=some (k.lines e c.sys.now (k.begins c.req),
        k.behind e (k.begins c.req)++pieceBytes (k.body (k.begins c.req))) ∧
      ∀ l∈k.lines e c.sys.now (k.begins c.req),Graphic l := by
  have hbegins : (k.begins c.req).lastModified=c.req.lastModified ∧
      (k.start c).req.status=c.req.status ∧ (k.start c).req.bufferEnd=c.req.bufferEnd := by
    unfold Reply.start Reply.begins
    split <;> exact ⟨rfl,rfl,rfl⟩
  have hlines := Reply.lines_headerLine (r := k.begins c.req) hclean hutc
    (by rw [hbegins.1]; exact hlm) k
  obtain ⟨flush,hflush,hrun⟩ := k.prints e c hown hv
  obtain ⟨hiff,hwritten⟩ := puts_fits _ (Reply.pieces_cushioned (e := e) (t := c.sys.now)
    (r := k.begins c.req) k) (k.start c) (by rw [hbegins.2.1]; exact halive)
    (by rw [hbegins.2.2,hempty]; exact Nat.zero_le _)
  have hput := hwritten (hiff.mpr (by rw [hbegins.2.2,hempty,Nat.zero_add]; exact hfit))
  refine ⟨flush,_,hflush,by rw [hrun,hput],?_,fun l hl => (hlines l hl).2⟩
  rw [k.pieces_frame]
  exact Fields.unframe_frame (fun l hl => ⟨(hlines l hl).1,(hlines l hl).2.noCr⟩) _

end Framed

theorem defaultTypes_clean : CleanTypes {} :=
  ⟨by decide +kernel,fun kv hkv => (by cases hkv),fun cs hcs => (by cases hcs)⟩

/-- A redirect to a URL with a line end in it. -/
theorem reply_framed_split : ∃ flush text,FlushOnly {} flush ∧
    exec ((Reply.movedPerm (str "http://h/a\r\nSet-Cookie: b")).send {}) {}=
      exec flush (((Reply.movedPerm (str "http://h/a\r\nSet-Cookie: b")).start {}).buffers text) ∧
    (Fields.unframe 13 10 text).map (·.1.getLast?)=
      some (some (str "Location: http://h/a%0d%0aSet-Cookie:%20b")) := by
  obtain ⟨flush,text,hflush,hrun,htext,-⟩ := reply_framed (c := {}) defaultTypes_clean
    (.movedPerm (str "http://h/a\r\nSet-Cookie: b")) trivial (by decide) rfl rfl epoch_utc epoch_utc
    (by decide +kernel)
  refine ⟨flush,text,hflush,hrun,?_⟩
  rw [htext]
  decide +kernel

end Crotalus
