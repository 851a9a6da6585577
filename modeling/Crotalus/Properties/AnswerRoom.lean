import Crotalus.Server.Header
import Crotalus.Spec.Pieces

namespace Crotalus

open Stateful

/-! The room that an error page or a redirect takes in the output buffer. -/

inductive Notice where
  | notFound
  | forbidden
  | movedPerm (url : Text)
  | movedTemp (url moreHdr : Text)

def Notice.send (e : Config) : Notice → Srv Unit
  | .notFound => sendRNotFound e
  | .forbidden => sendRForbidden e
  | .movedPerm url => sendRMovedPerm e url
  | .movedTemp url more => sendRMovedTemp e (.http url) (.html url) (.raw more)

def Notice.code : Notice → Nat
  | .notFound => rNotFound
  | .forbidden => rForbidden
  | .movedPerm _ => rMovedPerm
  | .movedTemp _ _ => rMovedTemp

def Notice.reason : Notice → String
  | .notFound => " 404 Not Found"
  | .forbidden => " 403 Forbidden"
  | .movedPerm _ => " 301 Moved Permanently"
  | .movedTemp _ _ => " 302 Moved Temporarily"

/-- The fields that are not those of every response. -/
def Notice.fields : Notice → List Piece
  | .notFound | .forbidden => contentTypeHtmlEnd
  | .movedPerm url => contentTypeHtml++[lit "Location: ",.http url,.raw (crlf++crlf)]
  | .movedTemp url more =>
    contentTypeHtml++[lit "Location: ",.http url,nl,.raw more,.raw (crlf++crlf)]

/-- The page in front of the URL, and behind it. -/
def Notice.page : Notice → String × String
  | .notFound => ("<HTML><HEAD><TITLE>404 Not Found</TITLE></HEAD>\n" ++
      "<BODY><H1>404 Not Found</H1>\nThe requested URL ",
      " was not found on this server.\n</BODY></HTML>\n")
  | .forbidden => ("<HTML><HEAD><TITLE>403 Forbidden</TITLE></HEAD>\n" ++
      "<BODY><H1>403 Forbidden</H1>\nYour client does not have permission to get URL ",
      " from this server.\n</BODY></HTML>\n")
  | .movedPerm _ => ("<HTML><HEAD><TITLE>301 Moved Permanently</TITLE></HEAD>\n" ++
      "<BODY>\n<H1>301 Moved</H1>The document has moved\n<A HREF=\"",
      "\">here</A>.\n</BODY></HTML>\n")
  | .movedTemp _ _ => ("<HTML><HEAD><TITLE>302 Moved Temporarily</TITLE></HEAD>\n" ++
      "<BODY>\n<H1>302 Moved</H1>The document has moved\n<A HREF=\"",
      "\">here</A>.\n</BODY></HTML>\n")

/-- The URL that the page names. -/
def Notice.target (uri : Text) : Notice → Text
  | .notFound | .forbidden => uri
  | .movedPerm url | .movedTemp url _ => url

def Notice.body (uri : Text) (a : Notice) : List Piece :=
  [lit a.page.1,.html (a.target uri),lit a.page.2]

def Notice.pieces (e : Config) (a : Notice) (t : Nat) (r : Request) : List Piece :=
  replyPieces e a.reason (fun _ => a.fields) (fun r => a.body r.requestUri) t r

/-- The connection when all of the answer has been given to the writers. -/
def Notice.written (e : Config) (a : Notice) (c : Conn) : Conn :=
  exec (puts (a.pieces e c.sys.now (c.req.answering a.code))) (c.answering a.code)

theorem Notice.exec_send (e : Config) (a : Notice) (c : Conn) :
    exec (a.send e) c=exec (reqFlush e) (a.written e c) := by
  cases a with
  | notFound => exact exec_reply e _ _ _ _ c
  | forbidden => exact exec_reply e _ _ _ _ c
  | movedPerm url => exact exec_reply e _ _ _ _ c
  | movedTemp url more => exact exec_reply e _ _ _ _ c

/-! The room in bytes. -/

def Notice.fieldsRoom : Notice → Nat
  | .notFound | .forbidden => 47
  | .movedPerm url => 59+(url.flatMap escapeHttp).length
  | .movedTemp url more => 61+(url.flatMap escapeHttp).length+more.length

def Notice.pageRoom : Notice → Nat
  | .notFound => 141
  | .forbidden => 159
  | .movedPerm _ | .movedTemp _ _ => 140

/-- The bytes of the header and the page, each where the answer has it. -/
def Notice.room (e : Config) (a : Notice) (t : Nat) (r : Request) : Nat :=
  (if r.httpVersion≠.http09 then (pieceBytes (statusLine e t a.reason r)).length+a.fieldsRoom
    else 0)+
  if r.method≠.head then a.pageRoom+((a.target r.requestUri).flatMap escapeHtml).length else 0

theorem Notice.fields_length (a : Notice) : (pieceBytes a.fields).length=a.fieldsRoom := by
  cases a with
  | notFound => rfl
  | forbidden => rfl
  | movedPerm url =>
    have h : (pieceBytes (Notice.movedPerm url).fields).length=
        45+(10+((url.flatMap escapeHttp).length+4)) := by
      simp only [Notice.fields,pieceBytes,List.flatMap_append,List.flatMap_cons,List.length_append,
        List.flatMap_nil,Piece.bytes]
      rfl
    rw [h,Notice.fieldsRoom]
    omega
  | movedTemp url more =>
    have h : (pieceBytes (Notice.movedTemp url more).fields).length=
        45+(10+((url.flatMap escapeHttp).length+(2+(more.length+4)))) := by
      simp only [Notice.fields,pieceBytes,List.flatMap_append,List.flatMap_cons,List.length_append,
        List.flatMap_nil,Piece.bytes]
      rfl
    rw [h,Notice.fieldsRoom]
    omega

theorem Notice.page_length (a : Notice) : (str a.page.1).length+(str a.page.2).length=a.pageRoom ∧
    5 ≤ (str a.page.2).length := by
  cases a with
  | notFound => decide +kernel
  | forbidden => decide +kernel
  | movedPerm url =>
    change (str (Notice.movedPerm []).page.1).length+(str (Notice.movedPerm []).page.2).length=
      (Notice.movedPerm []).pageRoom ∧ 5 ≤ (str (Notice.movedPerm []).page.2).length
    decide +kernel
  | movedTemp url more =>
    change (str (Notice.movedTemp [] []).page.1).length+
      (str (Notice.movedTemp [] []).page.2).length=(Notice.movedTemp [] []).pageRoom ∧
      5 ≤ (str (Notice.movedTemp [] []).page.2).length
    decide +kernel

theorem Notice.body_length (a : Notice) (uri : Text) : (pieceBytes (a.body uri)).length=
    a.pageRoom+((a.target uri).flatMap escapeHtml).length := by
  have hpage := a.page_length.1
  simp only [Notice.body,pieceBytes,List.flatMap_cons,List.flatMap_nil,List.length_append,
    List.length_nil,Piece.bytes,lit,Nat.add_zero]
  omega

theorem Notice.pieces_length (e : Config) (a : Notice) (t : Nat) (r : Request) :
    (pieceBytes (a.pieces e t r)).length=a.room e t r := by
  rw [Notice.pieces,replyPieces,pieceBytes_append,List.length_append,Notice.room]
  refine congrArg₂ (· + ·) ?_ ?_
  · split
    · rw [pieceBytes_append,List.length_append,a.fields_length]
    · rfl
  · split
    · exact a.body_length r.requestUri
    · rfl

theorem Notice.pieces_cushioned (e : Config) (a : Notice) (t : Nat) (r : Request) :
    Cushioned (a.pieces e t r) := by
  have hline : Cushioned (statusLine e t a.reason r) := cushioned_raw (statusLine_raw e t _ r)
  have hfields : Cushioned a.fields := by
    cases a with
    | notFound => trivial
    | forbidden => trivial
    | movedPerm url => exact ⟨by decide,trivial⟩
    | movedTemp url more => exact ⟨Nat.le_refl 2,trivial⟩
  have hbody : Cushioned (a.body r.requestUri) := ⟨a.page_length.2,trivial⟩
  refine .append ?_ ?_
  · split
    · exact hline.append hfields
    · trivial
  · split
    · exact hbody
    · trivial

/-- The answer gets to its flush with every writer successful, in the room of the buffer. -/
structure Notice.Fits (e : Config) (a : Notice) (c : Conn) : Prop where
  sends : exec (a.send e) c=exec (reqFlush e) (a.written e c)
  none_fails : NoneFails (a.pieces e c.sys.now (c.req.answering a.code)) (c.answering a.code)
  room : (a.written e c).req.bufferEnd ≤ bufferSize
  alive : (a.written e c).req.status≠.dead

/-- From an empty buffer the answer fits exactly when its bytes do. -/
theorem answer_fits (e : Config) (a : Notice) (c : Conn) (hs : c.req.status.over=false)
    (hempty : c.req.bufferEnd=0) :
    a.Fits e c ↔ a.room e c.sys.now (c.req.answering a.code) ≤ bufferSize := by
  obtain ⟨hiff,hwritten⟩ := puts_fits (a.pieces e c.sys.now (c.req.answering a.code))
    (a.pieces_cushioned e _ _) (c.answering a.code) hs (by
      change c.req.bufferEnd ≤ bufferSize
      omega)
  have hend : (c.answering a.code).req.bufferEnd=0 := hempty
  rw [hend,Nat.zero_add,a.pieces_length] at hiff
  constructor
  · exact fun h => hiff.mp h.none_fails
  · intro hroom
    have hnone := hiff.mpr hroom
    have hw : a.written e c=(c.answering a.code).buffers _ := hwritten hnone
    refine ⟨a.exec_send e c,hnone,?_,?_⟩
    · rw [hw]
      change (c.answering a.code).req.bufferEnd+_ ≤ bufferSize
      rw [hend,Nat.zero_add,a.pieces_length]
      exact hroom
    · rw [hw]
      change c.req.status≠.dead
      intro hdead
      rw [hdead] at hs
      cases hs

theorem answer_fits_short : Notice.Fits {} (.movedPerm (str "http://h/a/")) {} ↔
    Notice.room {} (.movedPerm (str "http://h/a/")) 0 (({} : Request).answering rMovedPerm) ≤
      bufferSize :=
  answer_fits {} (.movedPerm (str "http://h/a/")) {} rfl rfl

/-! A request line that asks for quotes. -/

def quotesLine : Text := str "GET /"++List.replicate 700 34++str " HTTP/1.0"

def quotesAsked : Conn := exec (processLogline {} quotesLine) {}

def quotesDecoded : Conn := exec (decodeUri {}) quotesAsked

theorem quotes_length (n : Nat) : ((List.replicate n (34 : Byte)).flatMap escapeHtml).length=6*n := by
  induction n with
  | zero => rfl
  | succ n ih =>
    rw [List.replicate_succ,List.flatMap_cons,List.length_append,ih]
    change 6+6*n=6*(n+1)
    omega

/-- The page with 700 escaped quotes has 4200 bytes and more. -/
theorem quotes_overflow {c : Conn} (huri : c.req.requestUri=47::List.replicate 700 34)
    (hempty : c.req.bufferEnd=0) (hs : c.req.status.over=false) (hm : c.req.method≠.head) :
    ¬Notice.Fits {} .notFound c := by
  intro h
  have hroom := (puts_fits _ (Notice.notFound.pieces_cushioned {} _ _)
    (c.answering rNotFound) hs (by
      change c.req.bufferEnd ≤ bufferSize
      rw [hempty]
      exact Nat.zero_le _)).1.mp h.none_fails
  have hm' : (c.req.answering rNotFound).method≠.head := hm
  have hesc : ((Notice.notFound.target
      (c.req.answering rNotFound).requestUri).flatMap escapeHtml).length=4201 := by
    change (c.req.requestUri.flatMap escapeHtml).length=4201
    rw [huri,List.flatMap_cons,List.length_append,quotes_length]
    rfl
  change _+(pieceBytes (Notice.notFound.pieces {} c.sys.now
    (c.req.answering rNotFound))).length ≤ bufferSize at hroom
  rw [Notice.pieces_length,Notice.room,if_pos hm',hesc,bufferSize] at hroom
  omega

theorem notFound_overflows : value (processLogline {} quotesLine) {}=true ∧
    value (decodeUri {}) quotesAsked=true ∧ quotesDecoded.req.bufferEnd=0 ∧
    ¬Notice.Fits {} .notFound quotesDecoded := by
  have hrun : (value (processLogline {} quotesLine) {}=true ∧ value (decodeUri {}) quotesAsked=true) ∧
      quotesDecoded.req.requestUri=47::List.replicate 700 34 ∧ quotesDecoded.req.bufferEnd=0 ∧
      quotesDecoded.req.status.over=false ∧ quotesDecoded.req.method≠.head := by
    decide +kernel
  obtain ⟨⟨hline,huri⟩,hquotes,hempty,hs,hm⟩ := hrun
  exact ⟨hline,huri,hempty,quotes_overflow hquotes hempty hs hm⟩

end Crotalus
