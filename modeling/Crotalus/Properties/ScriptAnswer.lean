import Crotalus.Properties.HeaderSplit
import Crotalus.Properties.PipeRelay
import Crotalus.Properties.Redirect

namespace Crotalus

open Stateful ByteMem

/-! The answer of a script on a pipe, from `fork` to the end of its body. -/

/-- The request behind the `fork` of a CGI program: nothing of its output has been read, and the
window is in the upper half of the buffer. -/
structure Forked (r : Request) : Prop where
  status : r.status=.pipeRead
  unparsed : r.cgiStatus=.parse
  kind : r.cgiType=.exec
  line : r.headerLine=bufferSize/2
  stop : r.headerEnd=bufferSize/2
  drained : r.bufferStart=0 ∧ r.bufferEnd=0
  method : r.method≠.head
  version : r.httpVersion≠.http09
  plain : r.filter=none
  mime : ∀ m,r.mime=some m → m.head=some .cgi ∨ m.head=some .php
  closing : r.keepalive=.stopped

theorem cgiParent_forked {c : Conn} (hkind : c.req.cgiType=.exec)
    (hdrained : c.req.bufferStart=0 ∧ c.req.bufferEnd=0) (hm : c.req.method≠.head)
    (hv : c.req.httpVersion≠.http09) (hf : c.req.filter=none)
    (hmime : ∀ m,c.req.mime=some m → m.head=some .cgi ∨ m.head=some .php)
    (hka : c.req.keepalive=.stopped) (pipe : Nat) : Forked (exec (cgiParent pipe) c).req := by
  have hrun : (exec (cgiParent pipe) c).req={ c.req with
      postDataFd := if c.req.method=.post then 0 else c.req.postDataFd
      dataFd := pipe
      status := .pipeRead
      cgiStatus := .parse
      headerArea := .buffer
      headerLine := bufferSize/2
      headerEnd := bufferSize/2
      filepos := 0 } := by
    by_cases hpost : c.req.method=.post
    · simp [cgiParent,setStatus,Request.usePipes,hkind,hpost]
    · simp [cgiParent,setStatus,Request.usePipes,hkind,hpost]
  rw [hrun]
  exact ⟨rfl,rfl,hkind,rfl,rfl,hdrained,hm,hv,hf,hmime,hka⟩

/-! What the server adds. -/

/-- The server's own header for a script's answer. -/
def scriptHead (e : Config) (t : Nat) (r : Request) : Text := pieceBytes (statusLine e t " 200 OK" r)

def badGatewayPage : List Piece :=
  [lit ("<HTML><HEAD><TITLE>502 Bad Gateway</TITLE></HEAD>\n" ++
    "<BODY><H1>502 Bad Gateway</H1>\nThe CGI was not CGI/1.1 compliant.\n</BODY></HTML>\n")]

/-- The answer to a script that closes its pipe, or fills the buffer, without a blank line. -/
def badGateway (e : Config) (t : Nat) (r : Request) : List Piece :=
  statusLine e t " 502 Bad Gateway" r++(contentTypeHtmlEnd++badGatewayPage)

/-- A script's output up to its first NUL. -/
def scriptText (out : Text) : Text := out.takeWhile (· ≠ 0)

/-- The answer made of a script's output: the server's header in front, or the version in the
place of `Status: `. -/
def scriptAnswer (head out : Text) : Text :=
  if strncaseEq (scriptText out) (str "Status: ") then str "HTTP/1.0 "++out.drop 8 else head++out

def movesOn (out : Text) : Bool := strncaseEq (scriptText out) (str "Location: ")

section Head

variable {e : Config} {t : Nat} {r r' : Request}

theorem statusLine_closing (reason : String) (hv : r'.httpVersion=r.httpVersion)
    (hf : r'.filter=r.filter) (hka : r.keepalive=.stopped) (hka' : r'.keepalive=.stopped) :
    statusLine e t reason r'=statusLine e t reason r := by
  have hclose : ∀ q : Request,q.keepalive=.stopped →
      printKaPhrase e q=[.raw (str "Connection: close"++crlf)] := by
    intro q hq
    exact if_neg (by rw [hq]; exact fun h => (by cases h.2.1))
  rw [statusLine,statusLine,printHttpHeaders,printHttpHeaders,hclose r hka,hclose r' hka',hv,hf]

theorem rfc822_short (hutc : IsUtc t (e.gmtime t)) : (rfc822 e t 0).length ≤ 60 := by
  obtain ⟨x,wday,hx,-,hwday,htm⟩ := hutc
  have hyear : (digitsRev 21 x.year).reverse.length ≤ 21 := by
    rw [List.length_reverse]
    have hall : ∀ k n,(digitsRev k n).length ≤ k := by
      intro k
      induction k with
      | zero => exact fun n => Nat.le_refl 0
      | succ k ih =>
        intro n
        rw [digitsRev]
        split
        · exact Nat.succ_le_succ (Nat.zero_le k)
        · exact Nat.succ_le_succ (ih _)
    exact hall 21 x.year
  have hday : (dayTab.getD wday []).length ≤ 4 := by
    have hdays : ∀ w < 7,(dayTab.getD w []).length ≤ 4 := by decide +kernel
    exact hdays wday hwday
  have hmonth : (monthTab.getD x.month []).length ≤ 5 := by
    have hmonths : ∀ w < 12,(monthTab.getD w []).length ≤ 5 := by decide +kernel
    exact hmonths x.month hx.month
  have htwo : ∀ n,(twoDigits n).length=2 := fun n => rfl
  have hgmt : (str " GMT").length=4 := by decide
  rw [rfc822,if_pos rfl,htm,rfc822TimeBuf_eq]
  simp only [List.length_append,List.length_cons,htwo,hgmt]
  omega

/-- It takes less than half of the buffer. -/
theorem statusLine_short (reason : String) (hr : (str reason).length ≤ 20)
    (hutc : IsUtc t (e.gmtime t)) (hka : r.keepalive=.stopped) (hf : r.filter=none) :
    (pieceBytes (statusLine e t reason r)).length ≤ 200 := by
  have hclose : printKaPhrase e r=[.raw (str "Connection: close"++crlf)] :=
    if_neg (by rw [hka]; exact fun h => (by cases h.2.1))
  have hdate := rfc822_short hutc
  have hver : (httpVerString r.httpVersion).length=8 := by cases r.httpVersion <;> rfl
  have hserver : (pieceBytes (if e.concealServerIdentity then []
      else [.raw (str "Server: "++serverVersion++crlf)])).length ≤ 22 := by
    split
    · exact Nat.zero_le _
    · decide
  have hcrlf : crlf.length=2 := rfl
  have hd : (str "Date: ").length=6 := by decide
  have ha : (str "Accept-Ranges: bytes").length=20 := by decide
  have hc : (str "Connection: close").length=17 := by decide
  rw [statusLine,printHttpHeaders,hclose,hf]
  simp only [pieceBytes_append,List.length_append]
  simp only [pieceBytes,List.flatMap_cons,List.flatMap_nil,Piece.bytes,List.length_append,
    List.length_nil,List.append_nil] at hserver ⊢
  omega

end Head

/-! The server's writes. -/

/-- The socket takes a whole buffer at once, or nothing for the moment. -/
structure Whole (w : World) : Prop where
  done : ∀ n, .done n∈w.sock → bufferSize ≤ n
  fail : ∀ err, .fail err∈w.sock → err=.again

/-- The connection when all that was pending is on the wire. -/
def Conn.flushedAll (c : Conn) (w : World) : Conn :=
  { c with req := c.req.emptied,wire := c.wire++c.req.pending,sys := w }

def Conn.held (c : Conn) (w : World) : Conn := { c with waits := some (c.req.fd,.write),sys := w }

section Flush

variable (e : Config) {c : Conn}

theorem reqFlush_whole (hs : c.req.status.over=false) (hf : c.req.filter=none)
    (h0 : c.req.bufferStart=0) (hpos : 0 < c.req.bufferEnd) (hle : c.req.bufferEnd ≤ bufferSize)
    (hw : Whole c.sys) :
    (∃ rest, value (reqFlush e) c=0 ∧
        exec (reqFlush e) c=c.flushedAll { c.sys with sock := rest } ∧
        ∀ res∈rest,res∈c.sys.sock) ∨
      ∃ rest, value (reqFlush e) c= -1 ∧ exec (reqFlush e) c=c.held { c.sys with sock := rest } := by
  have hlt : c.req.bufferStart < c.req.bufferEnd := by omega
  have hlen : c.req.pending.length=c.req.bufferEnd := by rw [Request.length_pending,h0,Nat.sub_zero]
  cases hk : c.sys.sock with
  | nil =>
    obtain ⟨hv,he⟩ := reqFlush_blocked e hs hf hlt (by rw [hk]; rfl)
    exact .inr ⟨_,hv,he⟩
  | cons res rest =>
    cases res with
    | fail err =>
      have herr : err=.again := hw.fail err (by rw [hk]; exact List.mem_cons_self)
      obtain ⟨hv,he⟩ := reqFlush_blocked e hs hf hlt (by rw [hk,herr]; rfl)
      exact .inr ⟨_,hv,he⟩
    | done n =>
      have hall := hw.done n (by rw [hk]; exact List.mem_cons_self)
      obtain ⟨hv,he⟩ := reqFlush_done e hs hf hlt hk
      have hmin : min n c.req.pending.length=c.req.bufferEnd := by omega
      have htake : c.req.pending.take n=c.req.pending := List.take_of_length_le (by omega)
      have htaken : c.req.taken c.req.bufferEnd=c.req.emptied := if_pos (by omega)
      rw [hmin,htaken] at hv he
      rw [htake] at he
      exact .inl ⟨rest,hv,he,fun res hres => List.mem_cons_of_mem _ hres⟩

/-- Either way the flush loses and repeats nothing. -/
theorem reqFlush_keepsAll (hs : c.req.status.over=false) (hf : c.req.filter=none)
    (h0 : c.req.bufferStart=0) (hpos : 0 < c.req.bufferEnd) (hle : c.req.bufferEnd ≤ bufferSize)
    (hw : Whole c.sys) :
    (exec (reqFlush e) c).wire++(exec (reqFlush e) c).req.pending=c.wire++c.req.pending := by
  rcases reqFlush_whole e hs hf h0 hpos hle hw with ⟨rest,-,he,-⟩|⟨rest,-,he⟩
  · rw [he]
    show (c.wire++c.req.pending)++[]=_
    rw [List.append_nil]
  · rw [he]
    rfl

theorem topFlush_whole (hs : c.req.status.over=false) (hf : c.req.filter=none)
    (h0 : c.req.bufferStart=0) (hpos : 0 < c.req.bufferEnd) (hle : c.req.bufferEnd ≤ bufferSize)
    (hw : Whole c.sys) :
    (∃ rest, value (topFlush e) c=1 ∧
        exec (topFlush e) c=c.flushedAll { c.sys with sock := rest } ∧
        ∀ res∈rest,res∈c.sys.sock) ∨
      ∃ rest, value (topFlush e) c= -1 ∧ exec (topFlush e) c=c.held { c.sys with sock := rest } := by
  have hc : c.req.bufferEnd≠0 ∧ (!c.req.status.over)=true := ⟨by omega,by rw [hs]; rfl⟩
  rcases reqFlush_whole e hs hf h0 hpos hle hw with ⟨rest,hv,he,hrest⟩|⟨rest,hv,he⟩
  · refine .inl ⟨rest,?_,?_,hrest⟩
    · simp only [topFlush,value_bind,exec_getReq,value_getReq,if_pos hc,hv]
      rfl
    · simp only [topFlush,exec_bind,exec_getReq,value_getReq,if_pos hc,hv]
      exact he
  · refine .inr ⟨rest,?_,?_⟩
    · simp only [topFlush,value_bind,exec_getReq,value_getReq,if_pos hc,hv]
      rfl
    · simp only [topFlush,exec_bind,exec_getReq,value_getReq,if_pos hc,hv]
      exact he

/-- Raw pieces that fit an empty buffer are what is pending then. -/
theorem puts_pending {ps : List Piece} (hraw : ps.all Piece.isRaw=true) (hs : c.req.status.over=false)
    (hempty : c.req.bufferEnd=0) (hfit : (pieceBytes ps).length ≤ bufferSize) :
    exec (puts ps) c=c.buffers (pieceBytes ps) ∧
      (c.buffers (pieceBytes ps)).req.bufferEnd=(pieceBytes ps).length ∧
      (c.req.bufferStart=0 → (c.buffers (pieceBytes ps)).req.pending=pieceBytes ps) := by
  obtain ⟨hiff,hwritten⟩ := puts_fits ps (cushioned_raw hraw) c hs (by rw [hempty]; exact Nat.zero_le _)
  have hend : (c.buffers (pieceBytes ps)).req.bufferEnd=(pieceBytes ps).length := by
    show c.req.bufferEnd+_=_
    rw [hempty,Nat.zero_add]
  refine ⟨hwritten (hiff.mpr (by omega)),hend,fun h0 => ?_⟩
  rw [Request.pending,hend]
  show slice (store c.req.buffer c.req.bufferEnd (pieceBytes ps)) c.req.bufferStart
    ((pieceBytes ps).length-c.req.bufferStart)=_
  rw [hempty,h0,Nat.sub_zero,slice_store]

theorem badGateway_raw (t : Nat) (r : Request) : (badGateway e t r).all Piece.isRaw=true := by
  rw [badGateway,List.all_append,statusLine_raw]
  rfl

theorem badGateway_length {t : Nat} {r : Request} (hutc : IsUtc t (e.gmtime t))
    (hka : r.keepalive=.stopped) (hf : r.filter=none) :
    (pieceBytes (badGateway e t r)).length ≤ 1000 ∧ 0 < (pieceBytes (badGateway e t r)).length := by
  have hline := statusLine_short (r := r) " 502 Bad Gateway" (by decide) hutc hka hf
  have hpage : (pieceBytes (contentTypeHtmlEnd++badGatewayPage)).length ≤ 800 ∧
      0 < (pieceBytes (contentTypeHtmlEnd++badGatewayPage)).length := by decide +kernel
  rw [badGateway,pieceBytes_append,List.length_append]
  omega

/-- The error page of a request with an empty buffer. -/
theorem badGateway_sent (hs : c.req.status.over=false) (hf : c.req.filter=none)
    (hempty : c.req.bufferStart=0 ∧ c.req.bufferEnd=0) (hutc : IsUtc c.sys.now (e.gmtime c.sys.now))
    (hm : c.req.method≠.head) (hv : c.req.httpVersion≠.http09) (hw : Whole c.sys) :
    (exec (sendRBadGateway e) c).wire++(exec (sendRBadGateway e) c).req.pending=
      c.wire++pieceBytes (badGateway e c.sys.now (c.req.answering rBadGateway)) := by
  have hpieces : replyPieces e " 502 Bad Gateway" (fun _ => contentTypeHtmlEnd)
      (fun _ => badGatewayPage) c.sys.now (c.req.answering rBadGateway)=
        badGateway e c.sys.now (c.req.answering rBadGateway) := by
    have hv' : (c.req.answering rBadGateway).httpVersion≠.http09 := hv
    have hm' : (c.req.answering rBadGateway).method≠.head := hm
    rw [replyPieces,if_pos hv',if_pos hm',badGateway,List.append_assoc]
  have hrun : exec (sendRBadGateway e) c=exec (reqFlush e) (exec (puts
      (badGateway e c.sys.now (c.req.answering rBadGateway))) (c.answering rBadGateway)) := by
    rw [← hpieces]
    exact exec_reply e _ _ _ _ c
  have hlen := badGateway_length e (r := c.req.answering rBadGateway) hutc rfl hf
  obtain ⟨hput,hend,hpending⟩ := puts_pending (c := c.answering rBadGateway)
    (badGateway_raw e c.sys.now (c.req.answering rBadGateway)) hs hempty.2
    (Nat.le_trans hlen.1 (by decide))
  rw [hrun,hput,reqFlush_keepsAll e (c := (c.answering rBadGateway).buffers _) hs hf hempty.1
    (by rw [hend]; exact hlen.2) (by rw [hend]; exact Nat.le_trans hlen.1 (by decide)) hw,
    hpending hempty.1]
  rfl

end Flush

/-! The server's header in front of the script's. -/

section Merge

variable (e : Config) {c : Conn}

/-- The response status of an answer that goes well. -/
def Conn.granted (c : Conn) : Conn := { c with req := { c.req with responseStatus := rRequestOk } }

theorem sendRRequestOk_script (hkind : c.req.cgiType≠.unset) (hv : c.req.httpVersion≠.http09)
    (hmime : ∀ m,c.req.mime=some m → m.head=some .cgi ∨ m.head=some .php) :
    exec (sendRRequestOk e) c=
      exec (puts (statusLine e c.sys.now " 200 OK" c.granted.req)) c.granted := by
  have hset : exec (modReq fun r => { r with responseStatus := rRequestOk }) c=c.granted := rfl
  have hv' : c.granted.req.httpVersion≠.http09 := hv
  have hkind' : c.granted.req.cgiType≠.unset := hkind
  have hnow : ∀ d : Conn,exec now d=d ∧ value now d=d.sys.now := fun d => ⟨rfl,rfl⟩
  cases hm : c.req.mime with
  | none =>
    simp only [sendRRequestOk,exec_bind,value_getReq,exec_getReq,hm,hset,hnow,if_neg hv',
      if_neg hkind']
    rfl
  | some m =>
    simp only [sendRRequestOk,mimeInterpHead,exec_bind,value_getReq,exec_getReq,hm,hset,if_neg hv']
    rcases hmime m hm with hh|hh
    · rw [hh]
      simp only [mimeHead,exec_bind,value_getReq,exec_getReq,hnow]
      rfl
    · rw [hh]
      simp only [mimeHead,exec_bind,value_getReq,exec_getReq,hnow]
      rfl

/-- A script's output in the window of a request that can take the server's header. -/
structure Ready (e : Config) (c : Conn) : Prop where
  read : OutputRead c.req
  line : c.req.headerLine=bufferSize/2
  handled : c.req.cgiStatus=.done
  status : c.req.status=.pipeRead
  kind : c.req.cgiType≠.unset
  drained : c.req.bufferStart=0 ∧ c.req.bufferEnd=0
  method : c.req.method≠.head
  version : c.req.httpVersion≠.http09
  plain : c.req.filter=none
  mime : ∀ m,c.req.mime=some m → m.head=some .cgi ∨ m.head=some .php
  closing : c.req.keepalive=.stopped
  utc : IsUtc c.sys.now (e.gmtime c.sys.now)

theorem Ready.alive (h : Ready e c) : c.req.status.over=false := by
  rw [h.status]
  rfl

/-- The server's header and the script's output in the buffer, and an empty window behind them. -/
structure InBuffer (text : Text) (d : Conn) : Prop where
  status : d.req.status=.pipeRead
  handled : d.req.cgiStatus=.done
  plain : d.req.filter=none
  start : d.req.bufferStart=0
  stop : d.req.bufferEnd=text.length
  line : d.req.headerLine=text.length
  ends : d.req.headerEnd=text.length
  pending : d.req.pending=text
  room : text.length ≤ bufferSize
  some : 0 < text.length

/-- The request with its buffer filled from the start. -/
def Request.headed (r : Request) (text : Text) : Request :=
  { r with
    cgiStatus := .done
    responseStatus := rRequestOk
    buffer := store r.buffer 0 text
    bufferEnd := text.length }

/-- And with an empty window behind. -/
def Request.topped (r : Request) (text : Text) : Request :=
  { r.headed text with headerLine := text.length,headerEnd := text.length }

theorem scriptHead_length (h : Ready e c) :
    (scriptHead e c.sys.now c.req).length ≤ 200 ∧ 0 < (scriptHead e c.sys.now c.req).length := by
  refine ⟨statusLine_short " 200 OK" (by decide) h.utc h.closing h.plain,?_⟩
  rw [scriptHead,statusLine,pieceBytes_append,List.length_append]
  have hver : (httpVerString c.req.httpVersion).length=8 := by cases c.req.httpVersion <;> rfl
  have hfirst : (pieceBytes [.raw (httpVerString c.req.httpVersion),
      .raw (str " 200 OK"++crlf)]).length=8+9 := by
    rw [pieceBytes,List.flatMap_cons,List.length_append]
    show (httpVerString c.req.httpVersion).length+9=_
    rw [hver]
  omega

/-- The header goes below the window. -/
theorem cgiMerge_merges (h : Ready e c) (i : Nat) :
    ∃ d,InBuffer (scriptHead e c.sys.now c.req++c.req.unsent) d ∧ d.wire=c.wire ∧ d.sys=c.sys ∧
      exec (cgiMerge e i) c.cgiHandled=exec (reqFlush e) d ∧ value (cgiMerge e i) c.cgiHandled=1 := by
  have hlen := scriptHead_length e h
  have hhead : statusLine e c.sys.now " 200 OK" c.cgiHandled.granted.req=
      statusLine e c.sys.now " 200 OK" c.req := statusLine_closing _ rfl rfl h.closing h.closing
  obtain ⟨hput,hend,hpending⟩ := puts_pending (c := c.cgiHandled.granted)
    (statusLine_raw e c.sys.now " 200 OK" c.req) h.alive h.drained.2
    (Nat.le_trans hlen.1 (by decide))
  have hok : exec (sendRRequestOk e) c.cgiHandled=
      c.cgiHandled.granted.buffers (scriptHead e c.sys.now c.req) := by
    rw [sendRRequestOk_script e (c := c.cgiHandled) h.kind h.version h.mime]
    show exec (puts (statusLine e c.sys.now " 200 OK" c.cgiHandled.granted.req)) _=_
    rw [hhead]
    exact hput
  generalize hw : scriptHead e c.sys.now c.req=head at hlen hput hend hpending hok ⊢
  obtain ⟨o,ho⟩ : ∃ o : Conn,o=c.cgiHandled.granted.buffers head := ⟨_,rfl⟩
  have hreq : o.req=c.req.headed head := by
    rw [ho]
    show { c.cgiHandled.granted.req with
      buffer := store c.req.buffer c.req.bufferEnd head
      bufferEnd := c.req.bufferEnd+head.length }=_
    rw [h.drained.2,Nat.zero_add]
    show ({ c.req.headed head with
      cgiStatus := if c.req.cgiStatus≠.done then .buffer else .done } : Request)=_
    rw [if_neg (not_not.mpr h.handled)]
    rfl
  have hwhole : exec (modReq (·.headOnly i)) o=o := by
    have hm : o.req.method≠.head := by
      rw [hreq]
      exact h.method
    rw [exec_modReq,Request.headOnly,if_neg hm]
  have hroom : head.length+(c.req.headerEnd-c.req.headerLine) ≤ bufferSize := by
    have hstop := h.read.room
    have hline := h.line
    have hsize : bufferSize=4096 := rfl
    omega
  have hunsent : slice o.req.buffer o.req.headerLine (o.req.headerEnd-o.req.headerLine)=c.req.unsent := by
    rw [hreq]
    apply slice_congr
    intro j hj _
    show store c.req.buffer 0 head j=c.req.buffer j
    apply store_above
    have hline := h.line
    have hsize : bufferSize=4096 := rfl
    have hj' : c.req.headerLine ≤ j := hj
    omega
  have hbe : o.req.bufferEnd=head.length := by
    rw [hreq]
    rfl
  have hwin : o.req.headerEnd-o.req.headerLine=c.req.unsent.length := by
    rw [length_unsent,hreq]
    rfl
  have hmerged : o.req.merged=c.req.topped (head++c.req.unsent) := by
    have hstore : store (store c.req.buffer 0 head) head.length c.req.unsent=
        store c.req.buffer 0 (head++c.req.unsent) := by
      have happ := store_store_append c.req.buffer 0 head c.req.unsent
      rwa [Nat.zero_add] at happ
    rw [Request.merged,hunsent,hwin,Request.append,hbe,Request.topped,Request.headed,
      List.length_append,← hstore,hreq]
    rfl
  refine ⟨{ o with req := o.req.merged },?_,by rw [ho]; rfl,by rw [ho]; rfl,?_⟩
  · rw [hmerged]
    apply InBuffer.mk
    · exact h.status
    · rfl
    · exact h.plain
    · exact h.drained.1
    · rfl
    · rfl
    · rfl
    · show slice (store c.req.buffer 0 (head++c.req.unsent)) c.req.bufferStart
        ((head++c.req.unsent).length-c.req.bufferStart)=_
      rw [h.drained.1,Nat.sub_zero,slice_store]
    · rw [List.length_append,length_unsent]
      exact hroom
    · rw [List.length_append]
      omega
  · obtain ⟨he,hv⟩ := cgiMerge_run e i c.cgiHandled
    rw [he,hv,hok,← ho,hwhole]
    have hfit : ¬o.req.bufferEnd+(o.req.headerEnd-o.req.headerLine)>bufferSize := by
      rw [hbe,hwin,length_unsent]
      omega
    have hm : o.req.method≠.head := by
      rw [hreq]
      exact h.method
    simp only [mergeTail,exec_bind,value_bind,exec_getReq,value_getReq,if_neg hfit,if_neg hm]
    exact ⟨rfl,rfl⟩

end Merge

/-! How an answer grows with the script's output. -/

section Grows

variable {out more : Text}

theorem scriptText_append (out more : Text) : scriptText out<+:scriptText (out++more) := by
  unfold scriptText
  induction out with
  | nil => exact List.nil_prefix
  | cons b out ih =>
    rw [List.cons_append,List.takeWhile_cons,List.takeWhile_cons]
    split
    · exact (List.cons_prefix_cons).mpr ⟨rfl,ih⟩
    · exact List.prefix_refl []

theorem blankAt_append {s t : Text} {i b : Nat} (h : BlankAt s i b) (hst : s<+:t) : BlankAt t i b := by
  have hkeep : ∀ pat : Text,pat≠[] → startsWith (s.drop i) pat=true → startsWith (t.drop i) pat=true := by
    intro pat hpat hs
    obtain ⟨u,rfl⟩ := hst
    have htake : (s.drop i).take pat.length=pat := of_decide_eq_true hs
    have hlen := length_le_of_startsWith hs
    have hi : i ≤ s.length := by
      rw [List.length_drop] at hlen
      have hpos := List.length_pos_of_ne_nil hpat
      omega
    apply decide_eq_true
    rw [List.drop_append_of_le_length hi,List.take_append_of_le_length hlen,htake]
  cases h with
  | lf hs hb => exact .lf (hkeep [10,10] (by decide) hs) hb
  | crlf hs hb => exact .crlf (hkeep [10,13,10] (by decide) hs) hb

/-- A blank line stays one. -/
theorem blankLine_stays (h : blankLine (scriptText out)≠none) (more : Text) :
    blankLine (scriptText (out++more))≠none := by
  obtain ⟨i,hi⟩ := Option.ne_none_iff_exists'.mp h
  have hgrown := scriptText_append out more
  rcases blankLine_blank hi with ⟨hb,-⟩|⟨hb,-⟩
  · obtain ⟨j,hj⟩ := blankLine_of_blank (blankAt_append hb hgrown)
    rw [hj]
    exact Option.some_ne_none j
  · obtain ⟨j,hj⟩ := blankLine_of_blank (blankAt_append hb hgrown)
    rw [hj]
    exact Option.some_ne_none j

theorem strncaseEq_stays {pat : Text} (h : strncaseEq (scriptText out) pat=true) (more : Text) :
    strncaseEq (scriptText (out++more)) pat=true := by
  obtain ⟨u,hu⟩ := scriptText_append out more
  have hlen := length_le_of_strncaseEq h
  rw [← hu]
  unfold strncaseEq at h ⊢
  rwa [List.take_append_of_le_length hlen]

/-- What the first line names is settled once there is a blank line. -/
theorem strncaseEq_settled {pat : Text} (hpat : lowerByte 10∉pat.map lowerByte)
    (h : blankLine (scriptText out)≠none) (more : Text) :
    strncaseEq (scriptText (out++more)) pat=strncaseEq (scriptText out) pat := by
  obtain ⟨i,hi⟩ := Option.ne_none_iff_exists'.mp h
  obtain ⟨u,hu⟩ := scriptText_append out more
  have hle := blankLine_le hi
  cases hlong : strncaseEq (scriptText (out++more)) pat with
  | false =>
    cases hshort : strncaseEq (scriptText out) pat with
    | false => rfl
    | true => rw [← hlong,strncaseEq_stays hshort more]
  | true =>
    by_cases hlen : pat.length ≤ (scriptText out).length
    · rw [← hu] at hlong
      unfold strncaseEq at hlong ⊢
      rw [List.take_append_of_le_length hlen] at hlong
      exact hlong.symm
    · -- the pattern would have the line end in it
      have hlf : (scriptText (out++more))[i]?=some 10 := by
        rw [← hu,List.getElem?_append_left (by omega)]
        exact blankLine_lf hi
      exact absurd (mem_of_strncaseEq hlong (by omega) hlf) hpat

theorem scriptAnswer_append (h : blankLine (scriptText out)≠none) (head more : Text) :
    scriptAnswer head (out++more)=scriptAnswer head out++more := by
  unfold scriptAnswer
  rw [strncaseEq_settled (by decide) h more]
  split
  · rename_i hs
    have hlen := length_le_of_strncaseEq hs
    have hstr : (str "Status: ").length=8 := by decide
    have hle : (scriptText out).length ≤ out.length := (List.takeWhile_prefix _).length_le
    rw [List.drop_append_of_le_length (by omega),List.append_assoc]
  · rw [List.append_assoc]

end Grows

/-! The turns. -/

/-- A turn of a request that may have something to flush first. It reads when it gets that far. -/
def Relayed.scripted (e : Config) (s : Relayed) : Relayed :=
  { conn := exec (serveTurn e) s.conn
    got := s.got++if value (topFlush e) s.conn=1 then (exec (topFlush e) s.conn).pipeGot.getD []
      else []
    eof := s.eof || (value (topFlush e) s.conn=1 && (exec (topFlush e) s.conn).pipeGot=some [])
    ended := value (serveTurn e) s.conn=0 }

section Scripted

variable (e : Config) {s : Relayed}

theorem scripted_drained (h : s.conn.req.bufferEnd=0) : s.scripted e=s.served e := by
  obtain ⟨hv,he⟩ := topFlush_skip e (c := s.conn) (.inl h)
  simp only [Relayed.scripted,Relayed.served,hv,he,if_true,decide_true,Bool.true_and]

theorem scripted_flushed {d : Conn} (hv : value (topFlush e) s.conn=1)
    (he : exec (topFlush e) s.conn=d) (hd : d.req.bufferEnd=0) :
    s.scripted e=Relayed.served e { s with conn := d } := by
  have hserve : exec (serveTurn e) s.conn=exec (serveTurn e) d ∧
      value (serveTurn e) s.conn=value (serveTurn e) d := by
    obtain ⟨he',hv'⟩ := serveTurn_drained e hd
    rw [he',hv']
    simp only [serveTurn,exec_bind,value_bind,hv,he,if_true,and_self]
  simp only [Relayed.scripted,Relayed.served,hserve.1,hserve.2,hv,he,if_true,decide_true,
    Bool.true_and]

theorem scripted_held {d : Conn} (hv : value (topFlush e) s.conn= -1)
    (he : exec (topFlush e) s.conn=d) : s.scripted e={ s with conn := d,ended := false } := by
  have hserve : exec (serveTurn e) s.conn=d ∧ value (serveTurn e) s.conn= -1 := by
    simp only [serveTurn,exec_bind,value_bind,hv,he]
    exact ⟨rfl,rfl⟩
  have hne : ¬(-1 : Int)=1 := by decide
  have hend : ¬(-1 : Int)=0 := by decide
  simp only [Relayed.scripted,hserve.1,hserve.2,hv,if_neg hne,decide_eq_false hne,
    decide_eq_false hend,List.append_nil,Bool.false_and,Bool.or_false]

end Scripted

/-- The request with `n` bytes of output in its window. -/
def Request.collecting (r : Request) (m : Nat → Byte) (n : Nat) : Request :=
  { r with buffer := m,headerEnd := bufferSize/2+n }

/-- The script's output is on its way to the header: all of it is in the window. -/
structure Reading (c0 : Conn) (s : Relayed) : Prop where
  req : s.conn.req=c0.req.collecting s.conn.req.buffer s.got.length
  unsent : s.conn.req.unsent=s.got
  wire : s.conn.wire=c0.wire
  room : s.conn.req.headerEnd ≤ bufferSize+1
  blank : blankLine (scriptText s.got)=none
  goes : s.ended=false

/-- There is no header, and the client has been told so. -/
structure Refused (e : Config) (c0 : Conn) (s : Relayed) : Prop where
  ended : s.ended=true
  blank : blankLine (scriptText s.got)=none
  told : ∃ t,s.conn.wire++s.conn.req.pending=c0.wire++pieceBytes (badGateway e t c0.req)

/-- The answer so far waits for its flush. -/
structure Held (e : Config) (c0 : Conn) (t : Nat) (s : Relayed) : Prop where
  holding : InBuffer (scriptAnswer (scriptHead e t c0.req) s.got) s.conn
  wire : s.conn.wire=c0.wire
  blank : blankLine (scriptText s.got)≠none
  goes : s.ended=false

/-- The answer is on the wire but for what the relay has in its window. -/
structure Following (e : Config) (c0 : Conn) (t : Nat) (s : Relayed) : Prop where
  relaying : ∃ wire got,Relaying wire { s with got := got } ∧
    wire++got=c0.wire++scriptAnswer (scriptHead e t c0.req) s.got
  blank : blankLine (scriptText s.got)≠none

inductive ScriptPhase (e : Config) (c0 : Conn) (s : Relayed) : Prop
  | reading (h : Reading c0 s)
  | refused (h : Refused e c0 s)
  | moved (h : movesOn s.got=true)
  | held (t : Nat) (h : Held e c0 t s)
  | following (t : Nat) (h : Following e c0 t s)

section Turns

variable (e : Config) {c0 : Conn} {s : Relayed} {text : Text} {d : Conn}

theorem InBuffer.flushed (h : InBuffer text d) (w : World) (eof : Bool) :
    Relaying (d.wire++text) ⟨d.flushedAll w,[],eof,false⟩ := by
  have hline : (d.flushedAll w).req.headerLine=(d.flushedAll w).req.headerEnd := h.line.trans h.ends.symm
  have hnone : (d.flushedAll w).req.unsent=[] := by
    rw [← List.length_eq_zero_iff,length_unsent,hline,Nat.sub_self]
  have hroom : (d.flushedAll w).req.headerEnd ≤ bufferSize := by
    show d.req.headerEnd ≤ bufferSize
    rw [h.ends]
    exact h.room
  have hwire : (d.flushedAll w).wire=d.wire++text := by
    show d.wire++d.req.pending=_
    rw [h.pending]
  apply Relaying.mk
  · exact hwire ▸ List.prefix_refl _
  · rw [hwire,hnone]
  · intro hp
    have := h.handled.symm.trans hp
    cases this
  · rfl
  · exact Nat.le_of_eq hline
  · exact Nat.le_succ_of_le hroom
  · exact fun _ => hroom
  · exact .inl h.status
  · intro hw
    have := h.status.symm.trans hw
    cases this
  · intro hended
    cases hended

/-- A relay that goes on takes its bytes from the pipe. -/
theorem Following.served {t : Nat} (h : Following e c0 t s) (hg : Gentle s.conn.sys) :
    Following e c0 t (s.served e) := by
  obtain ⟨wire,got,hrel,hsum⟩ := h.relaying
  refine ⟨⟨wire,got++s.conn.pipeGot.getD [],served_relaying e hrel hg,?_⟩,?_⟩
  · show wire++(got++s.conn.pipeGot.getD [])=
      c0.wire++scriptAnswer _ (s.got++s.conn.pipeGot.getD [])
    rw [scriptAnswer_append h.blank,← List.append_assoc,hsum,List.append_assoc]
  · exact blankLine_stays h.blank _

theorem Following.turn {t : Nat} (h : Following e c0 t s) (hg : Gentle s.conn.sys) :
    Following e c0 t (s.scripted e) := by
  obtain ⟨wire,got,hrel,-⟩ := h.relaying
  have hempty : s.conn.req.bufferEnd=0 := hrel.drained
  rw [scripted_drained e hempty]
  exact h.served e hg

/-- Once flushed, the answer goes on with the relay. -/
theorem InBuffer.follows {t : Nat} (h : InBuffer (scriptAnswer (scriptHead e t c0.req) s.got) d)
    (hwire : d.wire=c0.wire) (hblank : blankLine (scriptText s.got)≠none) (hgoes : s.ended=false)
    (w : World) : Following e c0 t { s with conn := d.flushedAll w } := by
  refine ⟨⟨c0.wire++scriptAnswer (scriptHead e t c0.req) s.got,[],?_,List.append_nil _⟩,hblank⟩
  have hrel := h.flushed w s.eof
  rw [hwire,← hgoes] at hrel
  exact hrel

theorem Held.turn {t : Nat} (h : Held e c0 t s) (hg : Gentle s.conn.sys) (hw : Whole s.conn.sys) :
    ScriptPhase e c0 (s.scripted e) := by
  have hhold := h.holding
  have halive : s.conn.req.status.over=false := by
    rw [hhold.status]
    rfl
  rcases topFlush_whole e halive hhold.plain hhold.start (by rw [hhold.stop]; exact hhold.some)
    (by rw [hhold.stop]; exact hhold.room) hw with ⟨rest,hv,he,hrest⟩|⟨rest,hv,he⟩
  · rw [scripted_flushed e hv he rfl]
    have hfollow := hhold.follows e h.wire h.blank h.goes { s.conn.sys with sock := rest }
    exact .following t (hfollow.served e ⟨hg.pipe,fun err herr => hg.sock err (hrest _ herr)⟩)
  · rw [scripted_held e hv he]
    have hkeep : InBuffer (scriptAnswer (scriptHead e t c0.req) s.got)
        (s.conn.held { s.conn.sys with sock := rest }) :=
      ⟨hhold.status,hhold.handled,hhold.plain,hhold.start,hhold.stop,hhold.line,hhold.ends,
        hhold.pending,hhold.room,hhold.some⟩
    exact .held t ⟨hkeep,h.wire,h.blank,rfl⟩

/-! Reads in front of the header. -/

section Reads

variable {c : Conn}

/-- What `process_cgi_header` gets of a script that is done, or that has filled the buffer. -/
def Conn.outOf (c : Conn) (st : Status) (cgi : CgiStatus) : Conn :=
  { c with req := { c.req.stored [] with status := st,cgiStatus := cgi } }

theorem readFull_header (hp : c.req.cgiStatus=.parse) (st : Status) :
    exec (readFull e st) c=exec (processCgiHeader e) (c.outOf c.req.status .buffer) ∧
      value (readFull e st) c=value (processCgiHeader e) (c.outOf c.req.status .buffer) := by
  simp only [readFull,exec_bind,value_bind,exec_getReq,value_getReq,if_pos hp]
  exact ⟨rfl,rfl⟩

theorem readDone_header (hp : c.req.cgiStatus=.parse) :
    exec (readDone e .pipeWrite .pipeRead []) c=
        exec (processCgiHeader e) (c.outOf .pipeWrite .done) ∧
      value (readDone e .pipeWrite .pipeRead []) c=
        value (processCgiHeader e) (c.outOf .pipeWrite .done) := by
  simp only [readDone,exec_bind,value_bind,exec_getReq,value_getReq,if_true,if_pos hp]
  exact ⟨rfl,rfl⟩

theorem readDone_more (hp : c.req.cgiStatus=.parse) {bs : List Byte} (hbs : bs≠[])
    (hnone : blankLine (c.req.stored bs).output=none) :
    exec (readDone e .pipeWrite .pipeRead bs) c={ c with req := c.req.stored bs } ∧
      value (readDone e .pipeWrite .pipeRead bs) c=1 := by
  have hparse : ¬c.req.cgiStatus≠.parse := not_not.mpr hp
  have hopen : (blankLine ((c.req.stored bs).strAt (c.req.stored bs).headerLine)).isNone=true := by
    rw [Option.isNone_iff_eq_none]
    exact hnone
  simp only [readDone,exec_bind,value_bind,exec_getReq,value_getReq,if_neg hbs,if_neg hparse,poke,
    exec_modReq]
  constructor
  · exact congrArg (fun m => exec m _) (if_pos hopen)
  · exact congrArg (fun m => value m _) (if_pos hopen)

theorem readDone_found (hp : c.req.cgiStatus=.parse) {bs : List Byte} (hbs : bs≠[])
    (hsome : blankLine (c.req.stored bs).output≠none) :
    exec (readDone e .pipeWrite .pipeRead bs) c=exec (processCgiHeader e) (c.gotOutput bs) ∧
      value (readDone e .pipeWrite .pipeRead bs) c=value (processCgiHeader e) (c.gotOutput bs) := by
  have hparse : ¬c.req.cgiStatus≠.parse := not_not.mpr hp
  have hopen : ¬(blankLine ((c.req.stored bs).strAt (c.req.stored bs).headerLine)).isNone=true := by
    rw [Option.isNone_iff_eq_none]
    exact hsome
  simp only [readDone,exec_bind,value_bind,exec_getReq,value_getReq,if_neg hbs,if_neg hparse,poke,
    exec_modReq]
  constructor
  · exact congrArg (fun m => exec m _) (if_neg hopen)
  · exact congrArg (fun m => value m _) (if_neg hopen)

theorem processCgiHeader_refuses (hnone : blankLine c.req.output=none)
    (hs : c.req.status.over=false) (hf : c.req.filter=none)
    (hempty : c.req.bufferStart=0 ∧ c.req.bufferEnd=0) (hutc : IsUtc c.sys.now (e.gmtime c.sys.now))
    (hm : c.req.method≠.head) (hv : c.req.httpVersion≠.http09) (hw : Whole c.sys) :
    value (processCgiHeader e) c=0 ∧
      (exec (processCgiHeader e) c).wire++(exec (processCgiHeader e) c).req.pending=
        c.wire++pieceBytes (badGateway e c.sys.now (c.req.answering rBadGateway)) := by
  obtain ⟨he,hval⟩ := processCgiHeader_none e hnone
  refine ⟨hval,?_⟩
  rw [he]
  have hsame : badGateway e c.sys.now (c.cgiHandled.req.answering rBadGateway)=
      badGateway e c.sys.now (c.req.answering rBadGateway) := by
    have hline : ∀ reason,statusLine e c.sys.now reason (c.cgiHandled.req.answering rBadGateway)=
        statusLine e c.sys.now reason (c.req.answering rBadGateway) :=
      fun reason => statusLine_closing reason rfl rfl rfl rfl
    rw [badGateway,badGateway,hline]
  have hsent := badGateway_sent e (c := c.cgiHandled) hs hf hempty hutc hm hv hw
  exact hsent.trans (congrArg (fun ps => c.wire++pieceBytes ps) hsame)

end Reads

/-! A turn in front of the header. -/

/-- Nothing comes of the turn. -/
theorem Reading.stays (h : Reading c0 s) {d : Conn} (hreq : d.req=s.conn.req) (hwire : d.wire=s.conn.wire) (eof : Bool) :
    Reading c0 ⟨d,s.got,eof,false⟩ := by
  refine ⟨?_,?_,hwire.trans h.wire,?_,h.blank,rfl⟩
  · show d.req=c0.req.collecting d.req.buffer s.got.length
    rw [hreq]
    exact h.req
  · show d.req.unsent=s.got
    rw [hreq]
    exact h.unsent
  · show d.req.headerEnd ≤ _
    rw [hreq]
    exact h.room

section Reading

variable (h : Reading c0 s) (hf : Forked c0.req)
include h hf

theorem Reading.fields : s.conn.req.status=.pipeRead ∧ s.conn.req.cgiStatus=.parse ∧
    s.conn.req.headerLine=bufferSize/2 ∧ s.conn.req.headerEnd=bufferSize/2+s.got.length ∧
    (s.conn.req.bufferStart=0 ∧ s.conn.req.bufferEnd=0) ∧ s.conn.req.filter=none ∧
    s.conn.req.method≠.head ∧ s.conn.req.httpVersion≠.http09 := by
  rw [h.req]
  exact ⟨hf.status,hf.unparsed,hf.line,rfl,hf.drained,hf.plain,hf.method,hf.version⟩

theorem Reading.read {bs : List Byte} (hroom : s.conn.req.headerEnd+bs.length ≤ bufferSize+1) :
    OutputRead (s.conn.req.stored bs) ∧
      (s.conn.req.stored bs).unsent=s.got++bs ∧
      (s.conn.req.stored bs).output=scriptText (s.got++bs) := by
  obtain ⟨-,-,hline,hend,-⟩ := h.fields hf
  have hsize : bufferSize=4096 := rfl
  have horder : s.conn.req.headerLine ≤ s.conn.req.headerEnd := by omega
  have hread : OutputRead (s.conn.req.stored bs) := by
    refine ⟨?_,?_,hroom,store_last _ _ _ _⟩
    · show 0 < s.conn.req.headerLine
      omega
    · show s.conn.req.headerLine ≤ s.conn.req.headerEnd+bs.length
      omega
  have hunsent : (s.conn.req.stored bs).unsent=s.got++bs := by
    rw [unsent_stored horder,h.unsent]
  refine ⟨hread,hunsent,?_⟩
  rw [hread.string,hunsent]
  rfl

/-- The output is at its end, or at that of the buffer. -/
theorem Reading.refuses {d : Conn} {st : Status} {cgi : CgiStatus} (hst : st.over=false)
    (hreq : d.req=s.conn.req) (hwire : d.wire=s.conn.wire) (hw : Whole d.sys)
    (hutc : IsUtc d.sys.now (e.gmtime d.sys.now)) (eof : Bool) :
    Refused e c0 ⟨exec (processCgiHeader e) (d.outOf st cgi),s.got,eof,
      value (processCgiHeader e) (d.outOf st cgi)=0⟩ := by
  obtain ⟨-,-,-,-,hempty,hplain,hm,hv⟩ := h.fields hf
  have hroom : s.conn.req.headerEnd+([] : List Byte).length ≤ bufferSize+1 := h.room
  obtain ⟨-,-,hout⟩ := h.read hf hroom
  have hnone : blankLine (d.outOf st cgi).req.output=none := by
    have hsame : (d.outOf st cgi).req.output=(s.conn.req.stored []).output := by rw [← hreq]; rfl
    rw [hsame,hout,List.append_nil]
    exact h.blank
  have hsame : badGateway e d.sys.now ((d.outOf st cgi).req.answering rBadGateway)=
      badGateway e d.sys.now c0.req := by
    have hver : ((d.outOf st cgi).req.answering rBadGateway).httpVersion=c0.req.httpVersion := by
      show d.req.httpVersion=_
      rw [hreq,h.req]
      rfl
    have hfilter : ((d.outOf st cgi).req.answering rBadGateway).filter=c0.req.filter := by
      show d.req.filter=_
      rw [hreq,h.req]
      rfl
    rw [badGateway,badGateway,statusLine_closing _ hver hfilter hf.closing rfl]
  have hrun := processCgiHeader_refuses e (c := d.outOf st cgi) hnone hst
    (by show d.req.filter=none; rw [hreq]; exact hplain)
    (by show d.req.bufferStart=0 ∧ d.req.bufferEnd=0; rw [hreq]; exact hempty) hutc
    (by show d.req.method≠.head; rw [hreq]; exact hm)
    (by show d.req.httpVersion≠.http09; rw [hreq]; exact hv) hw
  obtain ⟨hval,htold⟩ := hrun
  refine ⟨decide_eq_true hval,h.blank,d.sys.now,?_⟩
  refine htold.trans ?_
  show d.wire++pieceBytes (badGateway e d.sys.now _)=_
  rw [hsame,hwire,h.wire]

/-- The header is there. -/
theorem Reading.ready {d : Conn} (hreq : d.req=s.conn.req) {bs : List Byte}
    (hroom : s.conn.req.headerEnd+bs.length ≤ bufferSize+1)
    (hutc : IsUtc d.sys.now (e.gmtime d.sys.now)) : Ready e (d.gotOutput bs) := by
  obtain ⟨hread,-,-⟩ := h.read hf hroom
  have hsame : (d.gotOutput bs).req={ s.conn.req.stored bs with cgiStatus := .done } := by
    rw [← hreq]
    rfl
  have hall := h.req
  have hfield : ∀ {α : Type} (f : Request → α),(∀ m n,f (c0.req.collecting m n)=f c0.req) →
      f s.conn.req=f c0.req := by
    intro α f hsame
    rw [hall]
    exact hsame _ _
  apply Ready.mk
  · rw [hsame]
    exact ⟨hread.line,hread.order,hread.room,hread.ended⟩
  · rw [hsame]
    exact (hfield Request.headerLine fun _ _ => rfl).trans hf.line
  · rw [hsame]
  · rw [hsame]
    exact (hfield Request.status fun _ _ => rfl).trans hf.status
  · rw [hsame]
    show s.conn.req.cgiType≠_
    rw [hfield Request.cgiType fun _ _ => rfl,hf.kind]
    decide
  · rw [hsame]
    show s.conn.req.bufferStart=0 ∧ s.conn.req.bufferEnd=0
    rw [hfield Request.bufferStart fun _ _ => rfl,hfield Request.bufferEnd fun _ _ => rfl]
    exact hf.drained
  · rw [hsame]
    show s.conn.req.method≠_
    rw [hfield Request.method fun _ _ => rfl]
    exact hf.method
  · rw [hsame]
    show s.conn.req.httpVersion≠_
    rw [hfield Request.httpVersion fun _ _ => rfl]
    exact hf.version
  · rw [hsame]
    exact (hfield Request.filter fun _ _ => rfl).trans hf.plain
  · rw [hsame]
    show ∀ m,s.conn.req.mime=some m → _
    rw [hfield Request.mime fun _ _ => rfl]
    exact hf.mime
  · rw [hsame]
    exact (hfield Request.keepalive fun _ _ => rfl).trans hf.closing
  · exact hutc

omit h hf in
/-- The version in the place of `Status: `, and the rest is in the window as it came. -/
theorem Ready.versioned {g : Conn} (hready : Ready e g) {i : Nat} (hi : blankLine g.req.output=some i)
    (hs : g.req.namesStatus=true) (eof : Bool) :
    value (processCgiHeader e) g=1 ∧ Relaying g.wire
      ⟨exec (processCgiHeader e) g,str "HTTP/1.0 "++g.req.unsent.drop 8,eof,false⟩ := by
  obtain ⟨he,hv⟩ := processCgiHeader_some e hi
  have hstatus : strncaseEq g.req.output (str "Status: ")=true := hs
  rw [if_neg hready.version,if_pos hstatus] at he hv
  have hrelay := status_relays e hready.read hi hready.version hs
  have hrelays : g.relays e=(exec (processCgiHeader e) g).req.unsent := by
    simp only [Conn.relays,hi,hs,or_true,if_true]
  rw [Request.relayable,if_pos hs,hrelays] at hrelay
  have hlen := Nat.le_trans (length_le_of_strncaseEq hs) hready.read.starts.length_le
  have hstr : (str "Status: ").length=8 := by decide
  rw [hstr,length_unsent] at hlen
  have hline := hready.read.line
  have hlt : (exec (processCgiHeader e) g).req.headerLine <
      (exec (processCgiHeader e) g).req.headerEnd := by
    rw [he]
    show g.req.headerLine-1 < g.req.headerEnd
    omega
  refine ⟨hv,?_⟩
  apply Relaying.mk
  · rw [he]
    exact List.prefix_refl _
  · rw [hrelay,he]
    rfl
  · rw [he]
    exact cgiHandled_parsed g.req
  · rw [he]
    exact hready.drained.2
  · exact Nat.le_of_lt hlt
  · rw [he]
    exact hready.read.room
  · exact fun heq => absurd heq (Nat.ne_of_lt hlt)
  · rw [he]
    exact .inl hready.status
  · exact fun _ heq => absurd heq (Nat.ne_of_lt hlt)
  · intro hended
    cases hended

theorem Reading.answers {d : Conn} (hreq : d.req=s.conn.req) (hwire : d.wire=s.conn.wire)
    {bs : List Byte} (hroom : s.conn.req.headerEnd+bs.length ≤ bufferSize+1)
    (hsome : blankLine (scriptText (s.got++bs))≠none) (hw : Whole d.sys)
    (hutc : IsUtc d.sys.now (e.gmtime d.sys.now)) (eof : Bool) :
    ScriptPhase e c0 ⟨exec (processCgiHeader e) (d.gotOutput bs),s.got++bs,eof,
      value (processCgiHeader e) (d.gotOutput bs)=0⟩ := by
  have hready := h.ready e hf hreq hroom hutc
  obtain ⟨-,hunsent,hout⟩ := h.read hf hroom
  have hunsent' : (d.gotOutput bs).req.unsent=s.got++bs := by
    rw [← hunsent,← hreq]
    rfl
  have hout' : (d.gotOutput bs).req.output=scriptText (s.got++bs) := by
    rw [← hout,← hreq]
    rfl
  have hsysnow : (d.gotOutput bs).sys=d.sys := rfl
  have hwire' : (d.gotOutput bs).wire=c0.wire := hwire.trans h.wire
  have hsame : statusLine e d.sys.now " 200 OK" (d.gotOutput bs).req=
      statusLine e d.sys.now " 200 OK" c0.req := by
    apply statusLine_closing _ _ _ hf.closing hready.closing
    · show d.req.httpVersion=_
      rw [hreq,h.req]
      rfl
    · show d.req.filter=_
      rw [hreq,h.req]
      rfl
  generalize d.gotOutput bs=g at hready hunsent' hout' hsysnow hwire' hsame ⊢
  obtain ⟨i,hi⟩ := Option.ne_none_iff_exists'.mp hsome
  rw [← hout'] at hi
  obtain ⟨he,hv⟩ := processCgiHeader_some e hi
  rw [if_neg hready.version] at he hv
  by_cases hstatus : strncaseEq g.req.output (str "Status: ")=true
  · obtain ⟨hval,hrel⟩ := hready.versioned e hi hstatus eof
    refine .following d.sys.now ⟨⟨g.wire,str "HTTP/1.0 "++g.req.unsent.drop 8,?_,?_⟩,hsome⟩
    · rw [hval]
      exact hrel
    · rw [hunsent']
      rw [hout'] at hstatus
      rw [hwire',scriptAnswer,if_pos hstatus]
  · rw [if_neg hstatus] at he hv
    by_cases hloc : strncaseEq g.req.output (str "Location: ")=true
    · apply ScriptPhase.moved
      rw [movesOn,← hout']
      exact hloc
    · rw [if_neg hloc] at he hv
      obtain ⟨d',hhold,hwired,hsysd,hrun,hval⟩ := cgiMerge_merges e hready (g.req.headerLine+i)
      have hhead : scriptHead e g.sys.now g.req=scriptHead e d.sys.now c0.req := by
        rw [scriptHead,scriptHead,hsysnow,hsame]
      have htext : scriptHead e g.sys.now g.req++g.req.unsent=
          scriptAnswer (scriptHead e d.sys.now c0.req) (s.got++bs) := by
        rw [hout'] at hstatus
        rw [scriptAnswer,if_neg hstatus,hhead,hunsent']
      rw [htext] at hhold
      rw [he,hv,hrun,hval]
      have halive : d'.req.status.over=false := by
        rw [hhold.status]
        rfl
      rcases reqFlush_whole e halive hhold.plain hhold.start (by rw [hhold.stop]; exact hhold.some)
        (by rw [hhold.stop]; exact hhold.room) (by rw [hsysd,hsysnow]; exact hw) with
        ⟨rest,-,hflush,-⟩|⟨rest,-,hflush⟩
      · rw [hflush]
        apply ScriptPhase.following d.sys.now
        exact hhold.follows e (s := ⟨d',s.got++bs,eof,false⟩) (hwired.trans hwire') hsome rfl _
      · rw [hflush]
        apply ScriptPhase.held d.sys.now
        refine ⟨⟨hhold.status,hhold.handled,hhold.plain,hhold.start,hhold.stop,hhold.line,hhold.ends,
          hhold.pending,hhold.room,hhold.some⟩,hwired.trans hwire',hsome,rfl⟩

theorem Reading.turn (hg : Gentle s.conn.sys) (hw : Whole s.conn.sys)
    (hutc : IsUtc s.conn.sys.now (e.gmtime s.conn.sys.now)) : ScriptPhase e c0 (s.scripted e) := by
  obtain ⟨hst,hparse,-,-,hempty,-⟩ := h.fields hf
  have hover : (Status.pipeRead).over=false := rfl
  rw [scripted_drained e hempty.2]
  obtain ⟨hserve,hval⟩ := serveTurn_drained e hempty.2
  have hprocess : exec (serveTurn e) s.conn=exec (readFromPipe e) s.conn ∧
      value (serveTurn e) s.conn=value (readFromPipe e) s.conn := by
    rw [hserve,hval,processStatus]
    simp only [exec_bind,value_bind,exec_getReq,value_getReq,hst,and_self]
  rw [Relayed.served,hprocess.1,hprocess.2]
  by_cases h0 : s.conn.req.bytesToRead=0
  · -- the output has filled the buffer
    have hgot : s.conn.pipeGot=none := if_neg fun hc => hc.2 h0
    have hfull : exec (readFromPipe e) s.conn=exec (readFull e .pipeWrite) s.conn ∧
        value (readFromPipe e) s.conn=value (readFull e .pipeWrite) s.conn := by
      simp only [readFromPipe,exec_bind,value_bind,exec_getReq,value_getReq,if_pos h0,and_self]
    obtain ⟨he,hv⟩ := readFull_header e hparse .pipeWrite
    rw [hgot,hfull.1,hfull.2,he,hv,Option.getD_none,List.append_nil]
    apply ScriptPhase.refused
    exact h.refuses e hf (by rw [hst]; exact hover) rfl rfl hw hutc _
  · have hgot : s.conn.pipeGot=(takeRecv s.conn.req.bytesToRead s.conn.sys.pipe).1.toOption :=
      if_pos ⟨hst,h0⟩
    obtain ⟨hreq,hwire,hsock⟩ := afterRead_same s.conn
    have hnow : s.conn.afterRead.sys.now=s.conn.sys.now := by
      rw [Conn.afterRead,exec_pipeRead]
    have hw' : Whole s.conn.afterRead.sys :=
      ⟨fun n hn => hw.done n (hsock ▸ hn),fun err herr => hw.fail err (hsock ▸ herr)⟩
    have hutc' : IsUtc s.conn.afterRead.sys.now (e.gmtime s.conn.afterRead.sys.now) := by
      rw [hnow]
      exact hutc
    have hparse' : s.conn.afterRead.req.cgiStatus=.parse := by
      rw [hreq]
      exact hparse
    cases hres : (takeRecv s.conn.req.bytesToRead s.conn.sys.pipe).1 with
    | error err =>
      obtain ⟨he,hv⟩ := readFromPipe_fails e h0 hres (takeRecv_gentle hg.pipe hres)
      rw [he,hgot,hres,Except.toOption,Option.getD_none,List.append_nil,decide_eq_false hv]
      exact .reading (h.stays hreq hwire _)
    | ok bs =>
      obtain ⟨he,hv⟩ := readFromPipe_reads e h0 hres
      rw [he,hv,hgot,hres,Except.toOption,Option.getD_some]
      by_cases hbs : bs=[]
      · -- the script has closed its end
        subst hbs
        obtain ⟨he,hv⟩ := readDone_header e hparse'
        rw [he,hv,List.append_nil]
        apply ScriptPhase.refused
        exact h.refuses e hf (by decide) hreq hwire hw' hutc' _
      · have hroom : s.conn.req.headerEnd+bs.length ≤ bufferSize+1 := by
          have hle := takeRecv_le hres
          have hbytes := bytesToRead_eq h.room
          have := h.room
          omega
        obtain ⟨-,hunsent,hout⟩ := h.read hf hroom
        by_cases hblank : blankLine (scriptText (s.got++bs))=none
        · obtain ⟨he,hv⟩ := readDone_more e hparse' hbs (by rw [hreq,hout]; exact hblank)
          rw [he,hv]
          apply ScriptPhase.reading
          refine ⟨?_,?_,hwire.trans h.wire,?_,hblank,rfl⟩
          · show s.conn.afterRead.req.stored bs=
              c0.req.collecting (s.conn.afterRead.req.stored bs).buffer (s.got++bs).length
            have hstored : s.conn.req.stored bs=c0.req.collecting (s.conn.req.stored bs).buffer
                (s.got++bs).length := by
              have hlen : bufferSize/2+(s.got++bs).length=bufferSize/2+s.got.length+bs.length := by
                rw [List.length_append,Nat.add_assoc]
              rw [Request.collecting,hlen]
              have hall := h.req
              generalize s.conn.req=r at hall ⊢
              rw [hall]
              rfl
            rw [hreq]
            exact hstored
          · show (s.conn.afterRead.req.stored bs).unsent=_
            rw [hreq]
            exact hunsent
          · show s.conn.afterRead.req.headerEnd+bs.length ≤ _
            rw [hreq]
            exact hroom
        · obtain ⟨he,hv⟩ := readDone_found e hparse' hbs (by rw [hreq,hout]; exact hblank)
          rw [he,hv]
          exact h.answers e hf hreq hwire hroom hblank hw' hutc' _

end Reading

theorem Reading.inWorld (h : Reading c0 s) (w : World) : Reading c0 (s.inWorld w) :=
  ⟨h.req,h.unsent,h.wire,h.room,h.blank,h.goes⟩

/-- Where the answer begins. -/
theorem Forked.reading (hf : Forked c0.req) : Reading c0 (c0.relayed0 false) := by
  have hnone : c0.req.unsent=[] := by
    rw [← List.length_eq_zero_iff,length_unsent,hf.line,hf.stop,Nat.sub_self]
  refine ⟨?_,hnone,rfl,?_,rfl,rfl⟩
  · show c0.req={ c0.req with headerEnd := bufferSize/2+0 }
    rw [Nat.add_zero,← hf.stop]
  · show c0.req.headerEnd ≤ _
    rw [hf.stop]
    decide

end Turns

/-- A request whose script has just been started. -/
def started : Conn where
  req := {
    status := .pipeRead, httpVersion := .http10, method := .get, cgiType := .exec
    cgiStatus := .parse, headerLine := 2048, headerEnd := 2048, keepalive := .stopped }

end Crotalus
