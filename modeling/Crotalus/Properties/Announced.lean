import Crotalus.Spec.Decimal
import Crotalus.Spec.Range
import Crotalus.Properties.FileBounds

namespace Crotalus

open Stateful

/-! The header as a list of fields. -/

inductive HeaderField where
  | contentLength (d : Text)
  | contentRange (first last size : Text)
  | plain (ps : List Piece)

def HeaderField.pieces : HeaderField → List Piece
  | .contentLength d => [lit "Content-Length: ", .raw d, nl]
  | .contentRange a b n => [lit "Content-Range: bytes ", .raw a, lit "-", .raw b, lit "/", .raw n, nl]
  | .plain ps => ps

/-- The numbers are those of a body of `len` bytes, of the range, and of the file. -/
def HeaderField.Exact (len : Nat) (r : Range) (size : Nat) : HeaderField → Prop
  | .contentLength d => IsDecimal d len
  | .contentRange a b n => IsDecimal a r.start ∧ IsDecimal b r.stop ∧ IsDecimal n size
  | .plain _ => True

def piecesOf (fs : List HeaderField) : List Piece := fs.flatMap HeaderField.pieces

section Fields

variable (e : Config) (t : Nat) (r : Request)

/-- What `send_r_request_ok` prints. -/
def okFields : List HeaderField :=
  if r.httpVersion = .http09 then []
  else
    match r.mime with
    | some m =>
      match m.head with
      | some .gzip =>
        [.plain (statusLine e t " 200 OK-GUNZIP" r ++ printContentType e r ++
          printLastModified e t r ++ [nl])]
      | some _ => [.plain (statusLine e t " 200 OK" r)]
      | none =>
        [.plain (statusLine e t " 200 OK" r), .contentLength (simpleItoa r.filesize),
          .plain (printLastModified e t r ++ printContentType e r ++ [nl])]
    | none =>
      .plain (statusLine e t " 200 OK" r) ::
        if r.cgiType = .unset then
          [.plain (printLastModified e t r ++ printContentType e r)] ++
            (if r.filter = none then [.contentLength (simpleItoa r.filesize)] else []) ++ [.plain [nl]]
        else []

/-- What `print_partial_content_continue` prints. -/
def partFields : List HeaderField :=
  [.plain ((if r.numranges > 1 then [.raw separator] else []) ++ printContentType e r),
    .contentRange (simpleItoa r.range.start) (simpleItoa r.range.stop) (simpleItoa r.filesize)]

/-- What `send_r_partial_content` prints. -/
def partialFields : List HeaderField :=
  .plain (statusLine e t " 206 Partial Content" r ++ printLastModified e t r) ::
    (if r.numranges > 1 then
      [.plain [.raw (str "Content-Type: multipart/byteranges; boundary=THIS_STRING_SEPARATES" ++
        crlf), nl]]
    else [.contentLength (simpleItoa (u64 (r.range.stop + 2^64 - r.range.start + 1)))]) ++
    partFields e r ++ [.plain [nl]]

end Fields

/-! The responses print these fields. -/

section Prints

variable (e : Config) (c : Conn)

theorem piecesOf_part (r : Request) :
    piecesOf (partFields e r)=printPartialContentContinue e r := by
  simp [piecesOf,partFields,HeaderField.pieces,printPartialContentContinue,printContentRange]

/-- What may follow the fields: nothing, or a flush of the buffer. -/
def FlushOnly (k : Srv Unit) : Prop :=
  k=pure () ∨ k=(do let _ ← reqFlush e) ∨ k=(do let _ ← reqFlushRaw)

/-- The response with its status. -/
def Conn.replied (code : Nat) (c : Conn) : Conn :=
  { c with req := { c.req with responseStatus := code } }

/-- The program sets the response status and prints the pieces, and no others. -/
def Prints (code : Nat) (m : Srv Unit) (ps : List Piece) : Prop :=
  ∃ k, FlushOnly e k ∧ exec m c=exec k (exec (puts ps) (c.replied code))

theorem piecesOf_ok_mime {r : Request} {m : Mime} (hv : r.httpVersion≠.http09)
    (hm : r.mime=some m) (t : Nat) : piecesOf (okFields e t r)=
      match m.head with
      | some .gzip => statusLine e t " 200 OK-GUNZIP" r ++ printContentType e r ++
          printLastModified e t r ++ [nl]
      | some _ => statusLine e t " 200 OK" r
      | none => statusLine e t " 200 OK" r ++ printContentLength r ++ printLastModified e t r ++
          printContentType e r ++ [nl] := by
  simp only [okFields,if_neg hv,hm]
  cases m.head with
  | none => simp [piecesOf,HeaderField.pieces,printContentLength]
  | some h => cases h <;> simp [piecesOf,HeaderField.pieces]

theorem exec_now (d : Conn) : exec now d=d := rfl

theorem value_now (d : Conn) : value now d=d.sys.now := rfl

theorem piecesOf_ok_static {r : Request} (hv : r.httpVersion≠.http09) (hm : r.mime=none)
    (t : Nat) : piecesOf (okFields e t r)=
      statusLine e t " 200 OK" r ++ if r.cgiType=.unset then staticFields e t r else [] := by
  simp only [okFields,if_neg hv,hm]
  by_cases hc : r.cgiType=.unset
  · by_cases hf : r.filter=none
    · simp [hc,hf,piecesOf,HeaderField.pieces,staticFields,printContentLength]
    · simp [hc,hf,piecesOf,HeaderField.pieces,staticFields]
  · simp [hc,piecesOf,HeaderField.pieces]

theorem mimeInterpHead_prints {m : Mime} (hm : c.req.mime=some m) :
    Prints e c rRequestOk (mimeInterpHead e m)
      (piecesOf (okFields e c.sys.now (c.replied rRequestOk).req)) := by
  have hm' : (c.replied rRequestOk).req.mime=some m := hm
  have hset : exec (modReq fun r => { r with responseStatus := rRequestOk }) c=
      c.replied rRequestOk := rfl
  by_cases hv : c.req.httpVersion=.http09
  · refine ⟨pure (),Or.inl rfl,?_⟩
    have hv' : (c.replied rRequestOk).req.httpVersion=.http09 := hv
    simp only [mimeInterpHead,exec_bind,hset,value_getReq,exec_getReq,if_pos hv',
      okFields]
    rfl
  · have hv' : (c.replied rRequestOk).req.httpVersion≠.http09 := hv
    rw [piecesOf_ok_mime e hv' hm']
    simp only [Prints,mimeInterpHead,exec_bind,hset,value_getReq,exec_getReq,if_neg hv']
    cases hh : m.head with
    | none => exact ⟨_,Or.inr (Or.inl rfl),rfl⟩
    | some h =>
      cases h with
      | gzip => exact ⟨_,Or.inr (Or.inl rfl),rfl⟩
      | cgi => exact ⟨_,Or.inl rfl,rfl⟩
      | php => exact ⟨_,Or.inl rfl,rfl⟩

/-- `send_r_request_ok` prints its fields. -/
theorem sendRRequestOk_prints :
    Prints e c rRequestOk (sendRRequestOk e)
      (piecesOf (okFields e c.sys.now (c.replied rRequestOk).req)) := by
  have hset : exec (modReq fun r => { r with responseStatus := rRequestOk }) c=
      c.replied rRequestOk := rfl
  cases hm : c.req.mime with
  | some m =>
    obtain ⟨k,hk,heq⟩ := mimeInterpHead_prints e c hm
    refine ⟨k,hk,?_⟩
    rw [← heq]
    simp only [sendRRequestOk,exec_bind,value_getReq,exec_getReq,hm]
  | none =>
    have hm' : (c.replied rRequestOk).req.mime=none := hm
    simp only [Prints,sendRRequestOk,exec_bind,value_getReq,exec_getReq,hm,hset,exec_ite,exec_now,
      value_now]
    by_cases hv : (c.replied rRequestOk).req.httpVersion=.http09
    · refine ⟨pure (),Or.inl rfl,?_⟩
      rw [if_pos hv,okFields,if_pos hv]
      rfl
    · rw [if_neg hv,piecesOf_ok_static e hv hm']
      by_cases hc : (c.replied rRequestOk).req.cgiType=.unset
      · simp only [if_pos hc,puts_append]
        by_cases hf : (c.replied rRequestOk).req.filter=none
        · exact ⟨pure (),Or.inl rfl,by rw [hf]; rfl⟩
        · exact ⟨_,Or.inr (Or.inr rfl),by rw [decide_eq_true hf]; rfl⟩
      · rw [if_neg hc,if_neg hc,List.append_nil]
        exact ⟨pure (),Or.inl rfl,rfl⟩

/-- `send_r_partial_content` prints its fields. -/
theorem sendRPartialContent_prints :
    Prints e c rPartialContent (sendRPartialContent e)
      (piecesOf (partialFields e c.sys.now (c.replied rPartialContent).req)) := by
  refine ⟨pure (),Or.inl rfl,?_⟩
  have hpieces : ∀ r t, piecesOf (partialFields e t r)=partialHeader e t r := by
    intro r t
    by_cases hn : r.numranges>1
    · simp [partialFields,partialHeader,hn,piecesOf,HeaderField.pieces,partFields,
        printPartialContentContinue,printContentRange]
    · simp [partialFields,partialHeader,hn,piecesOf,HeaderField.pieces,partFields,
        printPartialContentContinue,printContentRange]
  rw [hpieces]
  rfl

end Prints

/-! The numbers in them. -/

/-- The request whose answer is the whole file. -/
def Request.whole (r : Request) : Request :=
  { r with ranges := [⟨0, r.filesize - 1⟩], responseStatus := rRequestOk }

/-- The request that has come to its last ranges. -/
def Request.atParts (r : Request) (rest : List Range) : Request := { r with ranges := rest }

/-- The fields of the header that starts the response. -/
def startFields (e : Config) (t : Nat) (r : Request) : List HeaderField :=
  if r.ranges=[] then okFields e t r.whole
  else partialFields e t { r with responseStatus := rPartialContent }

/-- The length of the body: the file, or its current range. -/
def Request.bodyLength (r : Request) : Nat :=
  if r.ranges=[] then r.filesize else r.range.stop-r.range.start+1

/-- Every number that the header and the part headers announce is the one it stands for. -/
def SizesExact (e : Config) (t : Nat) (r : Request) : Prop :=
  (∀ fld∈startFields e t r, fld.Exact r.bodyLength r.range r.filesize) ∧
  ∀ rest, rest≠[] → rest <:+ r.ranges.tail →
    ∀ fld∈partFields e (r.atParts rest), fld.Exact 0 (r.atParts rest).range r.filesize

/-- A 200 without a size: HTTP/0.9 has no header, and scripts print their own. -/
def Request.Sizeless (r : Request) : Prop :=
  r.ranges=[] ∧ (r.httpVersion=.http09 ∨
    match r.mime with
    | some m => m.head≠none
    | none => r.cgiType≠.unset)

section Exact

variable (e : Config) {r : Request}

/-- `init_get` writes these fields for the request whose ranges are settled. -/
theorem serveHeader_prints (c : Conn) (hsize : 0 < c.req.filesize ∧ c.req.filesize<2^63) :
    ∃ k c', FlushOnly e k ∧ exec (serveHeader e) c=
      exec k (exec (puts (piecesOf (startFields e c.sys.now c.req))) c') := by
  unfold startFields
  by_cases hr : c.req.ranges=[]
  · rw [if_pos hr]
    have hwhole := rangesLeft_whole hsize
    have hset : exec (serveHeader e) c=exec (sendRRequestOk e)
        { c with req := { c.req with ranges := [⟨0, c.req.filesize - 1⟩] } } := by
      simp [serveHeader,hr,rangesFixup,hwhole]
    obtain ⟨k,hk,heq⟩ := sendRRequestOk_prints e
      { c with req := { c.req with ranges := [⟨0, c.req.filesize - 1⟩] } }
    exact ⟨k,_,hk,hset.trans heq⟩
  · rw [if_neg hr]
    have hset : exec (serveHeader e) c=exec (sendRPartialContent e) c := by
      simp [serveHeader,hr]
    obtain ⟨k,hk,heq⟩ := sendRPartialContent_prints e c
    exact ⟨k,_,hk,hset.trans heq⟩

theorem contentRange_exact {n size : Nat} {r0 : Range} (hle : r0.start ≤ r0.stop)
    (hlt : r0.stop < size) :
    (HeaderField.contentRange (simpleItoa r0.start) (simpleItoa r0.stop) (simpleItoa size)).Exact
      n r0 size ↔ size<2^32 := by
  simp only [HeaderField.Exact,simpleItoa_exact]
  constructor
  · exact fun h => h.2.2
  · exact fun h => ⟨by omega,by omega,h⟩

theorem partFields_exact {n : Nat} (hle : r.range.start ≤ r.range.stop)
    (hlt : r.range.stop < r.filesize) :
    (∀ fld∈partFields e r, fld.Exact n r.range r.filesize) ↔ r.filesize<2^32 := by
  rw [← contentRange_exact (n := n) hle hlt]
  constructor
  · intro h
    exact h _ (List.mem_cons_of_mem _ List.mem_cons_self)
  · intro h fld hfld
    rcases List.mem_cons.mp hfld with rfl|hfld
    · trivial
    · rw [List.mem_singleton.mp hfld]
      exact h

theorem partialFields_exact (t : Nat) (hr : r.range.Ok) (hlt : r.range.stop < r.filesize) :
    (∀ fld∈partialFields e t r, fld.Exact (r.range.stop-r.range.start+1) r.range r.filesize) ↔
      r.filesize<2^32 := by
  have hparts := partFields_exact e (n := r.range.stop-r.range.start+1) hr.1 hlt
  rw [← hparts]
  constructor
  · intro h fld hfld
    refine h fld (List.mem_cons_of_mem _ ?_)
    exact List.mem_append_left _ (List.mem_append_right _ hfld)
  · intro h fld hfld
    have hsmall := hparts.mp h
    rcases List.mem_cons.mp hfld with rfl|hfld
    · trivial
    rcases List.mem_append.mp hfld with hfld|hfld
    · rcases List.mem_append.mp hfld with hfld|hfld
      · split at hfld
        · rw [List.mem_singleton.mp hfld]
          trivial
        · rw [List.mem_singleton.mp hfld,u64_length hr]
          have hlen : r.range.stop+1-r.range.start=r.range.stop-r.range.start+1 := by
            have hle := hr.1
            omega
          rw [hlen]
          exact (simpleItoa_exact _).mpr (by omega)
      · exact h fld hfld
    · rw [List.mem_singleton.mp hfld]
      trivial

theorem okFields_exact (t len : Nat) (r0 : Range) (hfilter : r.filter=none) :
    (∀ fld∈okFields e t r, fld.Exact r.filesize r0 len) ↔
      r.filesize<2^32 ∨ r.httpVersion=.http09 ∨
        match r.mime with
        | some m => m.head≠none
        | none => r.cgiType≠.unset := by
  unfold okFields
  by_cases hv : r.httpVersion=.http09
  · simp [hv]
  cases hm : r.mime with
  | some m =>
    cases hh : m.head with
    | none => simp [hv,hh,HeaderField.Exact,simpleItoa_exact]
    | some h => cases h <;> simp [hv,hh,HeaderField.Exact]
  | none =>
    by_cases hc : r.cgiType=.unset
    · simp [hv,hc,hfilter,HeaderField.Exact,simpleItoa_exact]
    · simp [hv,hc,HeaderField.Exact]

/-- Announced sizes, for a file of any size and any list of ranges. -/
theorem announcedSizes_exact (t : Nat) (rs : List Range) (hsize : r.filesize<2^63)
    (hranges : r.ranges=rangesLeft r.filesize rs) (hfilter : r.filter=none) :
    SizesExact e t r ↔ r.filesize<2^32 ∨ r.Sizeless := by
  by_cases hr : r.ranges=[]
  · have hwhole := okFields_exact e (r := r.whole) t r.filesize r.range hfilter
    have hlen : r.bodyLength=r.filesize := if_pos hr
    have hsizeless : r.Sizeless ↔ (r.httpVersion=.http09 ∨
        match r.mime with
        | some m => m.head≠none
        | none => r.cgiType≠.unset) := and_iff_right hr
    rw [SizesExact,startFields,if_pos hr,hlen,hsizeless]
    refine (and_iff_left ?_).trans hwhole
    intro rest hne hsuffix
    rw [hr] at hsuffix
    exact absurd (List.suffix_nil.mp hsuffix) hne
  · have hsizeless : ¬r.Sizeless := fun h => hr h.1
    have hpos : 0 < r.filesize := by
      rcases Nat.eq_zero_or_pos r.filesize with h0|hpos
      · rw [rangesLeft,if_pos h0] at hranges
        exact absurd hranges hr
      · exact hpos
    have hok := rangesLeft_ok ⟨hpos,hsize⟩ rs
    rw [← hranges] at hok
    have hhead : ∀ rest, rest≠[] → rest <:+ r.ranges → (r.atParts rest).range∈r.ranges := by
      intro rest hne hsuffix
      obtain ⟨r0,rest',rfl⟩ := List.exists_cons_of_ne_nil hne
      exact hsuffix.subset List.mem_cons_self
    obtain ⟨hr0,hlt⟩ := hok r.range (hhead r.ranges hr (List.suffix_refl _))
    have hlen : r.bodyLength=r.range.stop-r.range.start+1 := if_neg hr
    have hstart := partialFields_exact e (r := { r with responseStatus := rPartialContent }) t hr0 hlt
    rw [SizesExact,startFields,if_neg hr,hlen,or_iff_left hsizeless]
    refine ⟨fun h => hstart.mp h.1,fun h => ⟨hstart.mpr h,fun rest hne hsuffix => ?_⟩⟩
    have hmem := hhead rest hne (hsuffix.trans (List.tail_suffix _))
    obtain ⟨hr1,hlt1⟩ := hok _ hmem
    exact (partFields_exact e (r := r.atParts rest) hr1.1 hlt1).mpr h

end Exact

/-- A file of 4 GiB and five bytes. -/
def hugeRequest : Request := { filesize := 2^32 + 5, httpVersion := .http11, method := .get }

/-- Its header announces five bytes. -/
theorem announcedSizes_huge : ¬SizesExact {} 0 hugeRequest := by
  rintro ⟨hstart,-⟩
  have hfive : simpleItoa (2^32+5)=[53] := by decide
  have hmem : HeaderField.contentLength [53]∈startFields {} 0 hugeRequest := by
    rw [← hfive]
    simp [startFields,hugeRequest,okFields,Request.whole]
  have hvalue := (hstart _ hmem).value
  exact absurd hvalue (by decide)

theorem announcedSizes_exact_twoParts :
    SizesExact {} 0 { filesize := 10, ranges := [⟨0, 3⟩, ⟨8, 9⟩], numranges := 2 } :=
  (announcedSizes_exact {} 0 [⟨0, 3⟩, ⟨minusOne, 2⟩] (by decide) (by decide) rfl).mpr
    (Or.inl (by decide))

end Crotalus
