import Mathlib.Data.List.DropRight
import Crotalus.Properties.HeaderSplit
import Crotalus.Properties.ModifiedSince
import Crotalus.Spec.Overlap

namespace Crotalus

open Stateful ByteMem

/-! The redirect that a script asks for with `Location:`, and the rest of its output. -/

/-! The lines of the output. -/

/-- The line of the URL, behind `Location: `. -/
def Request.urlLine (r : Request) : Text := (r.unsent.drop 10).takeWhile (· ≠ 10)

def Request.url (r : Request) : Text := r.urlLine.rdropWhile (· = 13)

/-- What stands behind that line. -/
def Request.afterUrl (r : Request) : Text := r.unsent.drop (10+r.urlLine.length+1)

/-- The further lines of a header of `b` bytes, with its blank line. -/
def Request.moreLines (r : Request) (b : Nat) : Text :=
  ((r.unsent.take b).drop (10+r.urlLine.length+1)).dropWhile isEol

/-- What stands behind the line ends that follow. -/
def Request.behindUrl (r : Request) : Text := r.afterUrl.dropWhile isEol

/-- The string that `send_r_moved_temp` gets. -/
def Request.handedOn (r : Request) : Text := r.behindUrl.takeWhile (· ≠ 0)

/-! Where they are in the buffer. -/

def Request.urlAt (r : Request) : Nat := r.headerLine+10

/-- The byte behind the URL. -/
def Request.urlEnd (r : Request) : Nat := r.urlAt+r.url.length

def Request.restAt (r : Request) : Nat := r.headerEnd-r.behindUrl.length

/-- An output with a header that starts with the redirect to a URL that is not a path, behind
what is pending, for a client that is sent headers. -/
structure Redirecting (r : Request) : Prop where
  read : OutputRead r
  version : r.httpVersion≠.http09
  redirects : r.redirects=true
  blank : ∃ i,blankLine r.output=some i
  notPath : r.buffer r.urlAt≠47
  front : r.bufferEnd ≤ r.headerLine
  live : r.status.over=false

section Lines

variable {r : Request} {b : Nat}

theorem Redirecting.ten (h : Redirecting r) {i : Nat} (hi : blankLine r.output=some i) :
    10 ≤ i ∧ i+2 ≤ r.output.length := by
  refine ⟨?_,blankLine_le hi⟩
  by_contra hlt
  have hmem := mem_of_strncaseEq h.redirects (Nat.lt_of_not_le hlt) (blankLine_lf hi)
  exact absurd hmem (by decide)

/-- In front of the URL stands no CR. -/
theorem Redirecting.space (h : Redirecting r) : r.buffer (r.headerLine+9)≠13 := by
  obtain ⟨i,hi⟩ := h.blank
  have hlen := h.ten hi
  have hat : r.output[9]?=some (r.buffer (r.headerLine+9)) :=
    getElem?_cstr (j := 9) (show 9 < r.output.length by omega)
  intro h13
  rw [h13] at hat
  exact absurd (mem_of_strncaseEq h.redirects (by decide) hat) (by decide)

/-- The text in front of a byte that is there, and behind it. -/
theorem takeWhile_found {x : Byte} {l : Text} {j : Nat} (h : l[j]?=some x) :
    (l.takeWhile (· ≠ x)).length ≤ j ∧
      l=l.takeWhile (· ≠ x)++x::l.drop ((l.takeWhile (· ≠ x)).length+1) := by
  induction l generalizing j with
  | nil => cases h
  | cons a l ih =>
    by_cases ha : a=x
    · subst ha
      rw [List.takeWhile_cons_of_neg (by simp)]
      exact ⟨Nat.zero_le j,rfl⟩
    · rw [List.takeWhile_cons_of_pos (by simpa using ha)]
      cases j with
      | zero => exact absurd (Option.some.inj h) ha
      | succ j =>
        obtain ⟨hle,hsplit⟩ := ih h
        exact ⟨Nat.succ_le_succ hle,congrArg (List.cons a) hsplit⟩

/-- Bytes of the string are bytes of the output. -/
theorem Redirecting.unsent_at (h : Redirecting r) {j : Nat} (hj : j < r.output.length) :
    r.unsent[j]?=r.output[j]? := by
  obtain ⟨t,ht⟩ := h.read.starts
  rw [← ht,List.getElem?_append_left hj]

/-- The line of the URL ends with the first LF, which stands within the string. -/
theorem Redirecting.split (h : Redirecting r) {i : Nat} (hi : blankLine r.output=some i) :
    10+r.urlLine.length ≤ i ∧ r.unsent.drop 10=r.urlLine++10::r.afterUrl := by
  have hlen := h.ten hi
  have hlf : (r.unsent.drop 10)[i-10]?=some 10 := by
    rw [List.getElem?_drop,Nat.add_sub_cancel' hlen.1,h.unsent_at (by omega)]
    exact blankLine_lf hi
  obtain ⟨hle,hsplit⟩ := takeWhile_found hlf
  refine ⟨?_,?_⟩
  · change 10+(List.takeWhile (· ≠ 10) (r.unsent.drop 10)).length ≤ i
    omega
  · rw [List.drop_drop] at hsplit
    exact hsplit

theorem Redirecting.urlLine_noNul (h : Redirecting r) : 0∉r.urlLine := by
  obtain ⟨i,hi⟩ := h.blank
  have hlen := h.ten hi
  obtain ⟨hle,hsplit⟩ := h.split hi
  intro h0
  obtain ⟨k,hk⟩ := List.mem_iff_getElem?.mp h0
  have hlt := (List.getElem?_eq_some_iff.mp hk).1
  have hat : (r.unsent.drop 10)[k]?=some 0 := by
    rw [hsplit,List.getElem?_append_left hlt]
    exact hk
  rw [List.getElem?_drop,h.unsent_at (by omega),h.read.string] at hat
  exact absurd (List.mem_takeWhile_imp (List.mem_of_getElem? hat)) (by decide)

/-- The line is the URL and CRs. -/
theorem urlLine_crs (r : Request) : ∃ crs : Text,r.urlLine=r.url++crs ∧ ∀ x∈crs,x=13 :=
  ⟨r.urlLine.rtakeWhile (· = 13),List.rdropWhile_append_rtakeWhile.symm,fun _ hx =>
    of_decide_eq_true (List.mem_rtakeWhile_imp (p := fun y : Byte => decide (y=13)) hx)⟩

end Lines

section Positions

variable {m : Nat → Byte} {a p stop k i : Nat}

theorem skipCrBack_slice (h : m a≠13) :
    skipCrBack m (a+p)=a+((slice m (a+1) p).rdropWhile (· = 13)).length := by
  induction p with
  | zero =>
    cases a with
    | zero => rfl
    | succ a => exact if_neg h
  | succ p ih =>
    have hlast : slice m (a+1) (p+1)=slice m (a+1) p++[m (a+p+1)] := by
      rw [slice_append,show a+1+p=a+p+1 by omega]
      rfl
    rw [← Nat.add_assoc,skipCrBack,hlast,List.rdropWhile_concat]
    split
    · rename_i hcr
      rw [if_pos (decide_eq_true hcr),ih]
    · rename_i hcr
      rw [if_neg (by simpa using hcr),List.length_append,length_slice]
      exact Nat.add_assoc a p 1

theorem skipEol_slice (hi : i ≤ stop) (hk : stop-i ≤ k) :
    skipEol m stop k i+((slice m i (stop-i)).dropWhile isEol).length=stop := by
  induction k generalizing i with
  | zero =>
    have hstop : stop-i=0 := Nat.le_zero.mp hk
    rw [hstop,skipEol]
    exact Nat.le_antisymm hi (Nat.sub_eq_zero_iff_le.mp hstop)
  | succ k ih =>
    rw [skipEol]
    split
    · rename_i heol
      obtain ⟨heol,hlt⟩ := heol
      rw [show stop-i=stop-(i+1)+1 by omega,slice,
        List.dropWhile_cons_of_pos (by simpa [isEol] using heol)]
      exact ih hlt (by omega)
    · rename_i hno
      rcases Nat.eq_or_lt_of_le hi with heq|hlt
      · rw [heq,Nat.sub_self]
        rfl
      · have hneol : ¬isEol (m i)=true := fun h => hno ⟨by simpa [isEol] using h,hlt⟩
        rw [show stop-i=stop-(i+1)+1 by omega,slice,List.dropWhile_cons_of_neg hneol,
          List.length_cons,length_slice]
        omega

end Positions

section Places

variable {r : Request}

/-- Where the line of the URL, and with it the URL, ends. -/
theorem Redirecting.bounds (h : Redirecting r) : r.url.length ≤ r.urlLine.length ∧
    r.urlAt+r.urlLine.length+1+r.afterUrl.length=r.headerEnd ∧ r.headerEnd ≤ bufferSize+1 ∧
    r.behindUrl.length ≤ r.afterUrl.length := by
  obtain ⟨i,hi⟩ := h.blank
  have hlen := congrArg List.length (h.split hi).2
  have hall := Nat.le_trans (h.ten hi).2 h.read.starts.length_le
  have hten := h.ten hi
  rw [length_unsent] at hall
  rw [List.length_drop,length_unsent,List.length_append,List.length_cons] at hlen
  refine ⟨(List.rdropWhile_prefix _ _).length_le,?_,h.read.room,?_⟩
  · unfold Request.urlAt
    omega
  · exact (List.dropWhile_suffix _).length_le

/-- The output from the URL on. -/
theorem Redirecting.slice_url (h : Redirecting r) :
    slice r.buffer r.urlAt (r.headerEnd-r.urlAt)=r.urlLine++10::r.afterUrl := by
  obtain ⟨i,hi⟩ := h.blank
  have hall := Nat.le_trans (h.ten hi).2 h.read.starts.length_le
  have hten := h.ten hi
  rw [length_unsent] at hall
  rw [← (h.split hi).2,Request.unsent,slice_drop _ _ _ _ (by omega),Nat.sub_sub]
  rfl

theorem Redirecting.slice_line (h : Redirecting r) :
    slice r.buffer r.urlAt r.urlLine.length=r.urlLine := by
  have hbounds := h.bounds
  rw [← slice_take _ _ (r.headerEnd-r.urlAt) _ (by omega),h.slice_url]
  exact List.take_left' rfl

/-- The NUL goes behind the URL. -/
theorem Redirecting.cutAt (h : Redirecting r) :
    skipCrBack r.buffer (r.urlAt+(strchr 10 (r.strAt r.urlAt)).getD 0-1)+1=r.urlEnd := by
  have hbounds := h.bounds
  have hstr : r.strAt r.urlAt=r.urlLine++(10::r.afterUrl).takeWhile (· ≠ 0) := by
    have hcstr := cstr_slice (m := r.buffer) (k := bufferSize+1-r.urlAt) (i := r.urlAt)
      (n := r.headerEnd-r.urlAt) (by omega) (.inr (by
        rw [Nat.add_sub_cancel' (by omega)]
        exact h.read.ended))
    rw [Request.strAt,hcstr,h.slice_url,List.takeWhile_append_of_pos]
    exact fun x hx => decide_eq_true fun h0 => h.urlLine_noNul (h0 ▸ hx)
  have hnone : r.urlLine.findIdx? (· = 10)=none := by
    rw [List.findIdx?_eq_none_iff]
    intro x hx
    simpa using List.mem_takeWhile_imp hx
  have hchr : strchr 10 (r.strAt r.urlAt)=some r.urlLine.length := by
    rw [hstr,strchr,List.findIdx?_append,hnone,List.takeWhile_cons_of_pos (by decide),
      List.findIdx?_cons,if_pos (by decide),Option.none_or,Option.map_some,Nat.zero_add]
  have hskip := skipCrBack_slice (p := r.urlLine.length) h.space
  have hline : slice r.buffer (r.headerLine+9+1) r.urlLine.length=r.urlLine := h.slice_line
  rw [hline] at hskip
  rw [hchr,Option.getD_some,show r.urlAt+r.urlLine.length-1=r.headerLine+9+r.urlLine.length by
    unfold Request.urlAt; omega,hskip]
  change r.headerLine+9+r.url.length+1=r.headerLine+10+r.url.length
  omega

/-- Behind the URL come only line ends up to what is passed on. -/
theorem Redirecting.restAt (h : Redirecting r) {m : Nat → Byte}
    (hm : ∀ j,r.urlEnd < j → m j=r.buffer j) :
    skipEol m r.headerEnd bufferSize (r.urlEnd+1)=r.restAt := by
  have hbounds := h.bounds
  obtain ⟨crs,hcrs,hcr⟩ := urlLine_crs r
  have hend : r.urlEnd=r.urlAt+r.url.length := rfl
  have hrest : (slice m (r.urlEnd+1) (r.headerEnd-(r.urlEnd+1))).dropWhile isEol=r.behindUrl := by
    have hslice : slice m (r.urlEnd+1) (r.headerEnd-(r.urlEnd+1))=
        (crs++10::r.afterUrl).drop 1 := by
      have hall := h.slice_url
      rw [hcrs,List.append_assoc] at hall
      have hdrop := slice_drop r.buffer r.urlAt (r.headerEnd-r.urlAt) (r.url.length+1) (by omega)
      rw [hall,← List.drop_drop,List.drop_left] at hdrop
      rw [slice_congr fun j hj _ => hm j hj,hdrop,hend,Nat.sub_sub]
      rfl
    rw [hslice]
    cases crs with
    | nil => rfl
    | cons x crs =>
      have hskip : ∀ y∈crs++[10],isEol y=true := by
        intro y hy
        rcases List.mem_append.mp hy with hy|hy
        · rw [hcr y (List.mem_cons_of_mem x hy)]
          decide
        · rw [List.mem_singleton.mp hy]
          decide
      have hsplit : (x::crs++10::r.afterUrl).drop 1=(crs++[10])++r.afterUrl := by
        rw [List.append_assoc]
        rfl
      rw [hsplit,List.dropWhile_append_of_pos hskip]
      rfl
  have hskip : skipEol m r.headerEnd bufferSize (r.urlEnd+1)+
      ((slice m (r.urlEnd+1) (r.headerEnd-(r.urlEnd+1))).dropWhile isEol).length=r.headerEnd :=
    skipEol_slice (by omega) (by omega)
  rw [hrest] at hskip
  unfold Request.restAt
  omega

end Places

/-! The run of `send_r_moved_temp`. -/

/-- The argument for the further header lines. -/
def Request.morePiece (r : Request) : Piece :=
  if r.behindUrl=[] then .raw [] else .rawAt r.restAt

def redirectFields (r : Request) : List Piece :=
  contentTypeHtml++[lit "Location: ",.httpAt r.urlAt,nl,r.morePiece,.raw (crlf++crlf)]

def redirectBody (r : Request) : List Piece :=
  [lit ("<HTML><HEAD><TITLE>302 Moved Temporarily</TITLE></HEAD>\n" ++
      "<BODY>\n<H1>302 Moved</H1>The document has moved\n<A HREF=\""),
    .htmlAt r.urlAt,lit "\">here</A>.\n</BODY></HTML>\n"]

/-- The connection when the URL is cut off. -/
def Conn.urlCut (c : Conn) : Conn :=
  exec (poke c.req.urlEnd [0]) (exec (mark .locationDone) c.cgiHandled)

/-- What the server says in every such answer. -/
def Conn.served (e : Config) (c : Conn) : Text :=
  pieceBytes (statusLine e c.sys.now " 302 Moved Temporarily" (c.req.answering rMovedTemp)++
    contentTypeHtml)

/-- The connection when the header part is written. -/
def Conn.redirectHead (e : Config) (c : Conn) : Conn :=
  exec (puts (statusLine e c.sys.now " 302 Moved Temporarily" (c.req.answering rMovedTemp)++
    redirectFields c.req)) (c.urlCut.answering rMovedTemp)

/-- The connection when the answer is written, in front of the flush. -/
def Conn.redirectPage (e : Config) (c : Conn) : Conn :=
  exec (puts (if c.req.method≠.head then redirectBody c.req else [])) (c.redirectHead e)

section Run

variable {e : Config} {c : Conn}

/-- An output does not start in both ways. -/
theorem redirects_status {r : Request} (h : r.redirects=true) :
    strncaseEq r.output (str "Status: ")=false := by
  refine Bool.eq_false_iff.mpr fun hs => ?_
  have hloc : (r.output.take 10).map lowerByte=(str "Location: ").map lowerByte :=
    of_decide_eq_true h
  have hstatus : (r.output.take 8).map lowerByte=(str "Status: ").map lowerByte :=
    of_decide_eq_true hs
  cases hout : r.output with
  | nil =>
    rw [hout] at hloc
    cases hloc
  | cons x out =>
    rw [hout] at hloc hstatus
    have hl := (List.cons.inj hloc).1
    have hst := (List.cons.inj hstatus).1
    rw [hl] at hst
    exact absurd hst (by decide)

theorem exec_redirect (h : Redirecting c.req) : exec (processCgiHeader e) c=
    exec (setStatus .done) (exec (reqFlush e) (c.redirectPage e)) := by
  obtain ⟨i,hi⟩ := h.blank
  have hbounds := h.bounds
  have hloc : strncaseEq c.req.output (str "Location: ")=true := h.redirects
  have hpath : ¬c.req.buffer (c.req.headerLine+10)=47 := h.notPath
  have hrest := h.restAt (m := c.urlCut.req.buffer) fun j hj => store_above _ _ _ _ (by
    rw [List.length_singleton]; omega)
  have hmore : (if c.req.restAt=c.req.headerEnd then Piece.raw [] else .rawAt c.req.restAt)=
      c.req.morePiece := by
    have hnil : c.req.restAt=c.req.headerEnd ↔ c.req.behindUrl=[] := by
      rw [← List.length_eq_zero_iff,Request.restAt]
      omega
    rw [Request.morePiece,if_congr hnil rfl rfl]
  let c1 := exec (mark .locationDone) c.cgiHandled
  have hreply : exec (locationReply e (c.req.headerLine+10)) c1=
      exec (locationUrl e c.req.urlAt) c1 := by
    change exec (if c.req.buffer (c.req.headerLine+10)=47 then sendRBadRequest e else
      locationUrl e (c.req.headerLine+10)) c1=_
    rw [if_neg hpath]
    rfl
  have hurl : exec (locationUrl e c.req.urlAt) c1=
      exec (sendRMovedTemp e (.httpAt c.req.urlAt) (.htmlAt c.req.urlAt) c.req.morePiece)
        c.urlCut := by
    have hend : skipCrBack c1.req.buffer (c.req.urlAt+
        (strchr 10 (c1.req.strAt c.req.urlAt)).getD 0-1)+1=c.req.urlEnd := h.cutAt
    simp only [locationUrl,exec_bind,value_getReq,exec_getReq,hend]
    change exec (if skipEol c.urlCut.req.buffer c.req.headerEnd bufferSize (c.req.urlEnd+1)=
      c.req.headerEnd then sendRMovedTemp e (.httpAt c.req.urlAt) (.htmlAt c.req.urlAt) (.raw [])
      else sendRMovedTemp e (.httpAt c.req.urlAt) (.htmlAt c.req.urlAt) (.rawAt
        (skipEol c.urlCut.req.buffer c.req.headerEnd bufferSize (c.req.urlEnd+1)))) c.urlCut=_
    rw [hrest,← hmore]
    split
    · rfl
    · rfl
  rw [(processCgiHeader_some e hi).1,if_neg h.version,
    if_neg (by rw [redirects_status h.redirects]; exact Bool.false_ne_true),if_pos hloc]
  change exec (setStatus .done) (exec (locationReply e (c.req.headerLine+10)) c1)=_
  have hpieces : replyPieces e " 302 Moved Temporarily" (fun _ => redirectFields c.req)
      (fun _ => redirectBody c.req) c.urlCut.sys.now (c.urlCut.req.answering rMovedTemp)=
      (statusLine e c.sys.now " 302 Moved Temporarily" (c.req.answering rMovedTemp)++
        redirectFields c.req)++if c.req.method≠.head then redirectBody c.req else [] := by
    have hversion : (c.urlCut.req.answering rMovedTemp).httpVersion≠.http09 := h.version
    rw [replyPieces,if_pos hversion]
    rfl
  rw [hreply,hurl,sendRMovedTemp]
  refine congrArg (exec (setStatus .done)) ((exec_reply e _ _ _ _ c.urlCut).trans ?_)
  refine congrArg (exec (reqFlush e)) (Eq.trans ?_ (puts_append _ _ _))
  rw [← hpieces]
  rfl

/-- All that is in front of the URL. -/
def Conn.lead (e : Config) (c : Conn) : Text := c.served e++str "Location: "

/-- Where the URL is written, and where it ends. -/
def Conn.urlFrom (e : Config) (c : Conn) : Nat := c.req.bufferEnd+(c.lead e).length

def Conn.urlTo (e : Config) (c : Conn) : Nat :=
  c.urlFrom e+(c.req.url.flatMap escapeHttp).length

/-- The connection in front of the URL, when there is room for what comes before. -/
def Conn.atUrl (e : Config) (c : Conn) : Conn := (c.urlCut.answering rMovedTemp).buffers (c.lead e)

def redirectRest (r : Request) : List Piece := [nl,r.morePiece,.raw (crlf++crlf)]

theorem escapeHttp_plain (b x : Byte) (hx : x=0 ∨ x=10) : x∉escapeHttp b := by
  have hhex : ∀ n < 16,hexDigit n≠0 ∧ hexDigit n≠10 := by decide
  have hdigits := And.intro (hhex (b.toNat/16) (by have := b.toNat_lt; omega))
    (hhex (b.toNat%16) (Nat.mod_lt _ (by decide)))
  have hself : needsEscape x=true := by
    rcases hx with rfl|rfl
    · decide
    · decide
  unfold escapeHttp
  split
  · intro hmem
    simp only [List.mem_cons,List.not_mem_nil,or_false] at hmem
    rcases hx with rfl|rfl
    · rcases hmem with hmem|hmem|hmem
      · exact absurd hmem (by decide)
      · exact hdigits.1.1 hmem.symm
      · exact hdigits.2.1 hmem.symm
    · rcases hmem with hmem|hmem|hmem
      · exact absurd hmem (by decide)
      · exact hdigits.1.2 hmem.symm
      · exact hdigits.2.2 hmem.symm
  · rename_i hplain
    intro hmem
    rw [← List.mem_singleton.mp hmem] at hplain
    exact hplain hself

/-- The parts in front of the URL are written when there is room for them. -/
theorem redirectHead_lead (h : Redirecting c.req) (hroom : c.urlFrom e ≤ bufferSize) :
    c.redirectHead e=exec (puts (.httpAt c.req.urlAt::redirectRest c.req)) (c.atUrl e) := by
  have hps : statusLine e c.sys.now " 302 Moved Temporarily" (c.req.answering rMovedTemp)++
      redirectFields c.req=(statusLine e c.sys.now " 302 Moved Temporarily"
        (c.req.answering rMovedTemp)++contentTypeHtml++[lit "Location: "])++
      (.httpAt c.req.urlAt::redirectRest c.req) := by
    simp only [redirectFields,redirectRest,List.append_assoc,List.cons_append,List.nil_append]
  have hraw : (statusLine e c.sys.now " 302 Moved Temporarily" (c.req.answering rMovedTemp)++
      contentTypeHtml++[lit "Location: "]).all Piece.isRaw=true := by
    rw [List.all_append,List.all_append,statusLine_raw]
    rfl
  have hbytes : pieceBytes (statusLine e c.sys.now " 302 Moved Temporarily"
      (c.req.answering rMovedTemp)++contentTypeHtml++[lit "Location: "])=c.lead e := by
    rw [pieceBytes_append]
    exact congrArg (c.served e ++ ·) (List.append_nil _)
  have hstart : (c.urlCut.answering rMovedTemp).req.bufferEnd ≤ bufferSize :=
    Nat.le_trans (Nat.le_add_right _ _) hroom
  obtain ⟨hfits,hexec⟩ := puts_fits _ (cushioned_raw hraw) (c.urlCut.answering rMovedTemp) h.live
    hstart
  rw [hbytes] at hfits hexec
  rw [Conn.redirectHead,hps,puts_append,hexec (hfits.mpr hroom)]
  rfl

/-- In front of what is written the URL is as the script wrote it, with its NUL. -/
theorem atUrl_reads (h : Redirecting c.req) (hfront : c.urlFrom e ≤ c.req.urlAt) :
    slice (c.atUrl e).req.buffer c.req.urlAt c.req.url.length=c.req.url ∧
      (c.atUrl e).req.buffer (c.req.urlAt+c.req.url.length)=0 := by
  have habove : ∀ j,c.req.urlAt ≤ j →
      (c.atUrl e).req.buffer j=store c.req.buffer c.req.urlEnd [0] j :=
    fun j hj => store_above _ _ _ _ (Nat.le_trans hfront hj)
  constructor
  · have hbounds := h.bounds
    rw [slice_congr fun j hj _ => habove j hj,slice_store_below _ c.req.urlEnd _ _ _ (Nat.le_refl _),
      ← slice_take _ _ _ _ hbounds.1,h.slice_line]
    exact (List.prefix_iff_eq_take.mp (List.rdropWhile_prefix _ _)).symm
  · rw [habove _ (Nat.le_add_right _ _)]
    exact store_last c.req.buffer c.req.urlEnd [] 0

theorem url_noNul (h : Redirecting c.req) : 0∉c.req.url :=
  fun h0 => h.urlLine_noNul ((List.rdropWhile_prefix _ _).subset h0)

/-- A URL that is not overtaken is written as the script wrote it. -/
theorem redirectHead_url (h : Redirecting c.req)
    (happ : Apart escapeHttp (c.urlFrom e) c.req.urlAt c.req.url)
    (hroom : c.urlTo e+2 ≤ bufferSize) :
    c.redirectHead e=exec (puts (redirectRest c.req))
      ((c.atUrl e).buffers (c.req.url.flatMap escapeHttp)) := by
  have hbounds := h.bounds
  obtain ⟨hread,hend⟩ := atUrl_reads h happ.start
  have hto : c.urlTo e=c.urlFrom e+(c.req.url.flatMap escapeHttp).length := rfl
  have hlen : c.req.url.length ≤ bufferSize := by
    have hat : c.req.urlAt=c.req.headerLine+10 := rfl
    omega
  have hloop : escapeLoopAt escapeHttp 3 bufferSize (c.atUrl e).req.buffer
      (c.atUrl e).req.bufferEnd c.req.urlAt=(store (c.atUrl e).req.buffer (c.urlFrom e)
        (c.req.url.flatMap escapeHttp),c.urlTo e,true) :=
    escapeLoopAt_apart escapeHttp_length hread hend (url_noNul h) hlen happ hroom
  have hput : exec (put (.httpAt c.req.urlAt)) (c.atUrl e)=
      (c.atUrl e).buffers (c.req.url.flatMap escapeHttp) := by
    rw [exec_put]
    change exec (reqWriteEscapeAt escapeHttp 3 c.req.urlAt) (c.atUrl e)=_
    rw [exec_reqWriteEscapeAt,Conn.escapedAt,hloop]
    rfl
  rw [redirectHead_lead h (by omega),puts,exec_bind,hput]

/-- The string that the further header lines are taken from. -/
def Conn.moreText (s : Conn) (r : Request) : Text :=
  if r.behindUrl=[] then [] else s.req.strAt r.restAt

theorem exec_more (r : Request) (s : Conn) :
    exec (put r.morePiece) s=exec (reqWrite (s.moreText r)) s := by
  rw [Request.morePiece,Conn.moreText]
  split
  · rfl
  · rfl

theorem rest_over (r : Request) {s : Conn} (hs : s.req.status.over=true) :
    exec (puts (redirectRest r)) s=s := by
  have hnl : exec (put nl) s=s := exec_reqWrite_over _ _ hs
  have hmore : exec (put r.morePiece) s=s := by rw [exec_more,exec_reqWrite_over _ _ hs]
  have hend : exec (put (.raw (crlf++crlf))) s=s := exec_reqWrite_over _ _ hs
  simp only [redirectRest,puts,exec_bind,hnl,hmore,hend,exec_pure]

/-- A URL that is overtaken takes all the room, and there is no LF behind it. -/
theorem redirectHead_overtaken (h : Redirecting c.req) (h0 : 0∉c.lead e)
    (happ : ¬Apart escapeHttp (c.urlFrom e) c.req.urlAt c.req.url)
    (hroom : c.urlFrom e ≤ bufferSize) :
    ∃ out,Appended (c.lead e++out) (c.urlCut.answering rMovedTemp) (c.redirectHead e) ∧
      10∉out := by
  have hesc : ∀ b,0∉escapeHttp b := fun b => escapeHttp_plain b 0 (.inl rfl)
  have hstuck : (escapeLoopAt escapeHttp 3 bufferSize (c.atUrl e).req.buffer (c.urlFrom e)
      c.req.urlAt).2.2=false := by
    rcases Nat.lt_or_ge c.req.urlAt (c.urlFrom e) with hlt|hle
    · refine escapeLoopAt_overtaken escapeHttp_length hesc hlt fun j hj hjd hj0 => h0 ?_
      have hfront := h.front
      have hat : c.req.urlAt=c.req.headerLine+10 := rfl
      have hmem := store_mem c.urlCut.req.buffer c.req.bufferEnd j (c.lead e) (by omega) hjd
      have hbyte : store c.urlCut.req.buffer c.req.bufferEnd (c.lead e) j=0 := hj0
      rwa [hbyte] at hmem
    · exact escapeLoopAt_overtakes escapeHttp_length hesc (atUrl_reads h hle).1 (url_noNul h)
        (fun j hj hjd => absurd hjd (by omega)) happ
  obtain ⟨out,hout,hplain⟩ := escapedAt_appends guards_http c.req.urlAt (s := c.atUrl e) hroom
  have hput : exec (put (.httpAt c.req.urlAt)) (c.atUrl e)=
      exec (setStatus .dead) ((c.atUrl e).escapedAt escapeHttp 3 c.req.urlAt) := by
    rw [exec_put]
    change exec (reqWriteEscapeAt escapeHttp 3 c.req.urlAt) (c.atUrl e)=_
    rw [exec_reqWriteEscapeAt]
    refine if_neg ?_
    change ¬(escapeLoopAt escapeHttp 3 bufferSize (c.atUrl e).req.buffer (c.urlFrom e)
      c.req.urlAt).2.2=true
    rw [hstuck]
    exact Bool.false_ne_true
  have hrest : exec (puts (redirectRest c.req)) (exec (put (.httpAt c.req.urlAt)) (c.atUrl e))=
      exec (put (.httpAt c.req.urlAt)) (c.atUrl e) := by
    rw [hput]
    exact rest_over c.req rfl
  refine ⟨out,?_,fun h10 => ?_⟩
  · rw [redirectHead_lead h hroom,puts,exec_bind,hrest,hput]
    have hlead : Appended (c.lead e) (c.urlCut.answering rMovedTemp) (c.atUrl e) :=
      buffers_appends hroom
    exact hlead.trans (dead_appends hout)
  · obtain ⟨a,ha⟩ := hplain 10 h10
    exact escapeHttp_plain a 10 (.inr rfl) ha

/-- What of the string and the two line ends finds room behind `stop`. -/
def tailText (stop : Nat) (more : Text) : Text :=
  if stop+more.length ≤ bufferSize then
    more++if stop+more.length+4 ≤ bufferSize then crlf++crlf else []
  else []

theorem rest_appends (r : Request) {s : Conn} (hs : s.req.status.over=false)
    (hroom : s.req.bufferEnd+2 ≤ bufferSize) :
    Appended (crlf++tailText (s.req.bufferEnd+2) ((s.buffers crlf).moreText r)) s
      (exec (puts (redirectRest r)) s) := by
  let s1 := s.buffers crlf
  let more := s1.moreText r
  have hnl : exec (put nl) s=s1 := (exec_reqWrite crlf s hs).trans (if_pos (.inl hroom))
  have hcrlf : Appended crlf s s1 := buffers_appends hroom
  have hrun : exec (puts (redirectRest r)) s=
      exec (put (.raw (crlf++crlf))) (exec (reqWrite more) s1) := by
    simp only [redirectRest,puts,exec_bind,hnl,exec_more,exec_pure]
    rfl
  have hmore : exec (reqWrite more) s1=
      if s1.req.bufferEnd+more.length ≤ bufferSize ∨ more=[] then s1.buffers more
      else exec (setStatus .dead) s1 := exec_reqWrite more s1 hs
  rw [hrun]
  refine hcrlf.trans ?_
  change Appended (tailText s1.req.bufferEnd more) s1 _
  unfold tailText
  by_cases hfit : s1.req.bufferEnd+more.length ≤ bufferSize
  · have hend : exec (put (.raw (crlf++crlf))) (s1.buffers more)=
        if s1.req.bufferEnd+more.length+4 ≤ bufferSize ∨ crlf++crlf=[] then
          (s1.buffers more).buffers (crlf++crlf)
        else exec (setStatus .dead) (s1.buffers more) := exec_reqWrite (crlf++crlf) _ hs
    have happ : Appended more s1 (s1.buffers more) := buffers_appends hfit
    rw [if_pos hfit,hmore.trans (if_pos (.inl hfit)),hend]
    by_cases hfour : s1.req.bufferEnd+more.length+4 ≤ bufferSize
    · rw [if_pos hfour,if_pos (Or.inl hfour)]
      exact happ.trans (buffers_appends hfour)
    · rw [if_neg hfour,if_neg (not_or.mpr ⟨hfour,fun h => (by cases h)⟩),List.append_nil]
      exact dead_appends happ
  · have hnil : more≠[] := by
      intro hnil
      rw [hnil] at hfit
      exact hfit hroom
    have hend : exec (put (.raw (crlf++crlf))) (exec (setStatus .dead) s1)=
        exec (setStatus .dead) s1 :=
      exec_reqWrite_over (crlf++crlf) (exec (setStatus .dead) s1) rfl
    rw [if_neg hfit,hmore.trans (if_neg (not_or.mpr ⟨hfit,hnil⟩)),hend]
    exact dead_appends (.refl hcrlf.room)

/-! What the further lines are read from. -/

/-- The connection when the header lines of the script are to be read. -/
def Conn.atMore (e : Config) (c : Conn) : Conn :=
  ((c.atUrl e).buffers (c.req.url.flatMap escapeHttp)).buffers crlf

theorem Redirecting.restAt_bounds {r : Request} (h : Redirecting r) :
    r.urlEnd < r.restAt ∧ r.restAt+r.behindUrl.length=r.headerEnd := by
  have hbounds := h.bounds
  unfold Request.urlEnd Request.restAt
  omega

theorem Redirecting.slice_rest {r : Request} (h : Redirecting r) :
    slice r.buffer r.restAt (r.headerEnd-r.restAt)=r.behindUrl := by
  have hbounds := h.bounds
  have hrest := h.restAt_bounds
  obtain ⟨pre,hpre⟩ : r.behindUrl<:+r.afterUrl := List.dropWhile_suffix _
  have hall := h.slice_url
  have hlen := congrArg List.length hpre
  rw [List.length_append] at hlen
  have hsplit : r.urlLine++10::r.afterUrl=(r.urlLine++10::pre)++r.behindUrl := by
    rw [← hpre,List.append_assoc]
    rfl
  have hat : r.restAt=r.urlAt+(r.urlLine++10::pre).length := by
    rw [List.length_append,List.length_cons]
    omega
  have hdrop := slice_drop r.buffer r.urlAt (r.headerEnd-r.urlAt) (r.urlLine++10::pre).length
    (by omega)
  rw [hall,hsplit,List.drop_left,← hat,show r.headerEnd-r.urlAt-(r.urlLine++10::pre).length=
    r.headerEnd-r.restAt by omega] at hdrop
  exact hdrop.symm

/-- Lines that nothing has been written over are passed on as they are. -/
theorem moreText_handed (h : Redirecting c.req)
    (hbehind : c.req.behindUrl=[] ∨ c.urlTo e+2 ≤ c.req.restAt) :
    (c.atMore e).moreText c.req=c.req.handedOn := by
  have hbounds := h.bounds
  have hrest := h.restAt_bounds
  rcases hbehind with hnil|hto
  · rw [Conn.moreText,if_pos hnil,Request.handedOn,hnil]
    rfl
  by_cases hnil : c.req.behindUrl=[]
  · rw [Conn.moreText,if_pos hnil,Request.handedOn,hnil]
    rfl
  have hfrom : c.urlTo e=c.urlFrom e+(c.req.url.flatMap escapeHttp).length := rfl
  have hkept : ∀ j,c.req.restAt ≤ j → (c.atMore e).req.buffer j=c.req.buffer j := by
    intro j hj
    have h4 : (c.atMore e).req.buffer j=((c.atUrl e).buffers
        (c.req.url.flatMap escapeHttp)).req.buffer j := store_above _ _ _ _ (Nat.le_trans hto hj)
    have h3 : ((c.atUrl e).buffers (c.req.url.flatMap escapeHttp)).req.buffer j=
        (c.atUrl e).req.buffer j := store_above _ (c.urlFrom e) _ _ (by omega)
    have h2 : (c.atUrl e).req.buffer j=store c.req.buffer c.req.urlEnd [0] j :=
      store_above _ c.req.bufferEnd _ (c.lead e) (by
        change c.urlFrom e ≤ j
        omega)
    rw [h4,h3,h2]
    exact store_above _ _ _ _ (by rw [List.length_singleton]; omega)
  have hcstr := cstr_slice (m := (c.atMore e).req.buffer) (k := bufferSize+1-c.req.restAt)
    (i := c.req.restAt) (n := c.req.headerEnd-c.req.restAt) (by omega) (.inr (by
      rw [Nat.add_sub_cancel' (by omega),hkept _ (by omega)]
      exact h.read.ended))
  rw [Conn.moreText,if_neg hnil,Request.strAt,hcstr,slice_congr fun j hj _ => hkept j hj,h.slice_rest]
  rfl

/-- Lines that start right behind the LF of the URL can lose their first byte to a line end. -/
theorem moreText_overwritten (h : Redirecting c.req)
    (happ : Apart escapeHttp (c.urlFrom e) c.req.urlAt c.req.url)
    (hne : c.req.behindUrl≠[]) (hto : c.req.restAt < c.urlTo e+2) :
    ∃ t,(c.atMore e).moreText c.req=10::t := by
  have hall := happ.all
  have hbounds := h.bounds
  have hrest := h.restAt_bounds
  have hlen : 0 < c.req.behindUrl.length := List.length_pos_iff.mpr hne
  have hat : c.req.restAt=c.urlTo e+1 := by
    have hend : c.req.urlEnd=c.req.urlAt+c.req.url.length := rfl
    have hfrom : c.urlTo e=c.urlFrom e+(c.req.url.flatMap escapeHttp).length := rfl
    omega
  have hlf : (c.atMore e).req.buffer c.req.restAt=10 := by
    rw [hat]
    exact store_last _ (c.urlTo e) [13] 10
  obtain ⟨k,hk⟩ : ∃ k,bufferSize+1-c.req.restAt=k+1 := ⟨bufferSize-c.req.restAt,by omega⟩
  refine ⟨cstr (c.atMore e).req.buffer k (c.req.restAt+1),?_⟩
  rw [Conn.moreText,if_neg hne,Request.strAt,hk,cstr,if_neg (by rw [hlf]; decide),hlf]

end Run

/-! What the header of the output has behind the URL. -/

section Header

variable {r : Request} {b : Nat}

/-- The first blank line stands within the string, behind the line of the URL. -/
theorem Redirecting.header (h : Redirecting r) (hb : headLength r.unsent=some b) :
    b ≤ r.output.length ∧ ∃ k,BlankAt r.unsent k b ∧ 10+r.urlLine.length ≤ k := by
  obtain ⟨i,hi⟩ := h.blank
  have hblank : ∃ b0,BlankAt r.output i b0 := by
    rcases blankLine_blank hi with ⟨hblank,-⟩|⟨hblank,-⟩
    · exact ⟨_,hblank⟩
    · exact ⟨_,hblank⟩
  obtain ⟨b0,hb0⟩ := hblank
  obtain ⟨b1,hle,hb1⟩ := headLength_first hb0
  have heq : b1=b := Option.some.inj ((headLength_extend h.read.starts hb1).symm.trans hb)
  have hlen := hb0.le
  obtain ⟨k,hk⟩ := headLength_blank hb
  refine ⟨by omega,k,hk,?_⟩
  have hpos := hk.pos
  have hlf : r.unsent[k]?=some 10 := by
    cases hk with
    | lf hk => exact getElem?_of_startsWith hk (j := 0) (by decide)
    | crlf hk => exact getElem?_of_startsWith hk (j := 0) (by decide)
  by_contra hlt
  rcases Nat.lt_or_ge k 10 with hten|hten
  · rw [h.unsent_at (by omega)] at hlf
    exact absurd (mem_of_strncaseEq h.redirects hten hlf) (by decide)
  · have hdrop : (r.unsent.drop 10)[k-10]?=some 10 := by
      rw [List.getElem?_drop,Nat.add_sub_cancel' hten]
      exact hlf
    rw [(h.split hi).2,List.getElem?_append_left (by omega)] at hdrop
    exact absurd (List.mem_takeWhile_imp (List.mem_of_getElem? hdrop)) (by decide)

theorem dropWhile_head {l : Text} {x : Byte} {t : Text} (h : l.dropWhile isEol=x::t) :
    isEol x=false := by
  have hhead := List.head?_dropWhile_not isEol l
  rw [h] at hhead
  exact hhead

/-- Further lines are a header block of their own, and come first in what is passed on. -/
theorem Redirecting.lines (h : Redirecting r) (hb : headLength r.unsent=some b)
    (hmore : r.moreLines b≠[]) : r.behindUrl≠[] ∧ r.moreLines b<+:r.handedOn ∧
      (∀ t,headLength (r.moreLines b++t)=some (r.moreLines b).length) ∧
      ∃ x t,r.moreLines b=x::t ∧ isEol x=false := by
  obtain ⟨hle,k,hk,hurl⟩ := h.header hb
  have hlen := h.read.starts.length_le
  have hbody : (r.unsent.take b).length=b := List.length_take_of_le (by omega)
  have hskip := List.takeWhile_append_dropWhile (p := isEol)
    (l := (r.unsent.take b).drop (10+r.urlLine.length+1))
  obtain ⟨skip,hs⟩ : ∃ skip,skip=((r.unsent.take b).drop (10+r.urlLine.length+1)).takeWhile isEol :=
    ⟨_,rfl⟩
  rw [← hs] at hskip
  obtain ⟨n,hn⟩ : ∃ n,n=10+r.urlLine.length+1+skip.length := ⟨_,rfl⟩
  have hdrop : (r.unsent.take b).drop n=r.moreLines b := by
    rw [hn,← List.drop_drop,← hskip,List.drop_left]
    rfl
  have hlines : (r.moreLines b).length=b-n := by rw [← hdrop,List.length_drop,hbody]
  obtain ⟨x,t,hxt⟩ := List.exists_cons_of_ne_nil hmore
  have hx : isEol x=false := dropWhile_head hxt
  have hpos : n < b := by
    rw [hxt,List.length_cons] at hlines
    omega
  have hkbody : BlankAt (r.unsent.take b) k b := hk.within (List.take_prefix b _) (by omega)
  have hnk : n ≤ k := by
    by_contra hlt
    obtain ⟨y,hy,heol⟩ := hkbody.eol (i := n) (by omega) hpos
    have hat : ((r.unsent.take b).drop n)[0]?=some x := by rw [hdrop,hxt]; rfl
    rw [List.getElem?_drop,Nat.add_zero,hy,Option.some.injEq] at hat
    rw [hat,hx] at heol
    cases heol
  have hhead := headLength_drop (headLength_within (List.take_prefix b _) hb (by omega)) hkbody hnk
  rw [hdrop,← hlines] at hhead
  have hbehind : r.behindUrl=r.moreLines b++r.unsent.drop b := by
    have hafter : r.afterUrl=(r.unsent.take b).drop (10+r.urlLine.length+1)++r.unsent.drop b := by
      have hpos := hk.pos
      have hall : (r.unsent.take b++r.unsent.drop b).drop (10+r.urlLine.length+1)=_ :=
        List.drop_append_of_le_length (by omega)
      rw [List.take_append_drop] at hall
      exact hall
    have hempty : (r.moreLines b).isEmpty=false := by rw [hxt]; rfl
    rw [Request.behindUrl,hafter,List.dropWhile_append]
    refine if_neg ?_
    change ¬(r.moreLines b).isEmpty=true
    rw [hempty]
    exact Bool.false_ne_true
  have hnoNul : ∀ y∈r.moreLines b,decide (y≠0)=true := by
    intro y hy
    obtain ⟨rest,hrest⟩ := h.read.starts
    rw [← hdrop,← hrest,List.take_append_of_le_length hle] at hy
    have hout := List.mem_of_mem_take (List.mem_of_mem_drop hy)
    rw [h.read.string] at hout
    exact List.mem_takeWhile_imp (p := fun y : Byte => decide (y≠0)) hout
  refine ⟨by rw [hbehind,hxt]; exact List.cons_ne_nil _ _,?_,fun t => ?_,x,t,hxt,hx⟩
  · rw [Request.handedOn,hbehind,List.takeWhile_append_of_pos hnoNul]
    exact List.prefix_append _ _
  · exact headLength_extend (List.prefix_append _ _) hhead

/-- Without further lines there is a line end between the URL and what is passed on. -/
theorem Redirecting.noLines (h : Redirecting r) (hb : headLength r.unsent=some b)
    (hmore : r.moreLines b=[]) : r.urlEnd+2 ≤ r.restAt := by
  obtain ⟨hle,k,hk,hurl⟩ := h.header hb
  have hpos := hk.pos
  have hlen := h.read.starts.length_le
  have hbounds := h.bounds
  have hrest := h.restAt_bounds
  have hend : r.urlEnd=r.urlAt+r.url.length := rfl
  have hbody : (r.unsent.take b).length=b := List.length_take_of_le (by omega)
  obtain ⟨x,t,hxt⟩ : ∃ x t,(r.unsent.take b).drop (10+r.urlLine.length+1)=x::t := by
    apply List.exists_cons_of_length_pos
    rw [List.length_drop,hbody]
    omega
  have hx : isEol x=true := by
    have hall := List.dropWhile_eq_nil_iff.mp hmore
    exact hall x (by rw [hxt]; exact List.mem_cons_self)
  have hafter : r.afterUrl=x::(t++r.unsent.drop b) := by
    have hall : (r.unsent.take b++r.unsent.drop b).drop (10+r.urlLine.length+1)=_ :=
      List.drop_append_of_le_length (by omega)
    rw [List.take_append_drop,hxt] at hall
    exact hall
  have hshort : r.behindUrl.length+1 ≤ r.afterUrl.length := by
    rw [Request.behindUrl,hafter,List.dropWhile_cons_of_pos hx,List.length_cons]
    exact Nat.succ_le_succ (List.dropWhile_suffix _).length_le
  omega

end Header

/-! The lines of the server. -/

/-- Text that neither ends a string nor a line. -/
def PlainText (s : Text) : Prop := ∀ b∈s,b≠0 ∧ b≠10

instance (s : Text) : Decidable (PlainText s) := inferInstanceAs (Decidable (∀ b∈s,b≠0 ∧ b≠10))

section PlainText

variable {s t : Text}

theorem plainText_append : PlainText (s++t) ↔ PlainText s ∧ PlainText t := List.forall_mem_append

theorem PlainText.of_digits (h : Digits s) : PlainText s := by
  intro b hb
  have hdigit := digit_bounds (h b hb)
  constructor
  · rintro rfl
    exact absurd hdigit (by decide)
  · rintro rfl
    exact absurd hdigit (by decide)

theorem digitsRev_digits (k n : Nat) : Digits (digitsRev k n) := by
  induction k generalizing n with
  | zero => exact fun c hc => (by cases hc)
  | succ k ih =>
    have hdigit := digit_isDigit (Nat.mod_lt n (show 0 < 10 by decide))
    intro c hc
    rw [digitsRev] at hc
    split at hc
    · rw [List.mem_singleton.mp hc]
      exact hdigit
    · rcases List.mem_cons.mp hc with rfl|hc
      · exact hdigit
      · exact ih _ c hc

theorem twoDigits_digits {n : Nat} (h : n < 100) : Digits (twoDigits n) := by
  intro c hc
  have hcase : c=UInt8.ofNat (48+n/10) ∨ c=UInt8.ofNat (48+n%10) := by
    simpa [twoDigits] using hc
  rcases hcase with rfl|rfl
  · exact digit_isDigit (by omega)
  · exact digit_isDigit (by omega)

/-- What the digits, the names and the separators have, a date has. -/
theorem rfc822TimeBuf_all {p : Byte → Prop} {n : Nat} {tm : Tm} (h : IsUtc n tm)
    (hdigit : ∀ b,isDigit b=true → p b) (hwdays : ∀ w < 7,∀ b∈dayTab.getD w [],p b)
    (hmonths : ∀ m < 12,∀ b∈monthTab.getD m [],p b) (hblank : p 32) (hcolon : p 58)
    (hgmt : ∀ b∈str " GMT",p b) : ∀ b∈rfc822TimeBuf tm,p b := by
  obtain ⟨x,wday,hx,-,hwday,rfl⟩ := h
  have hday : x.day < 100 := by
    have hlen := monthLength_le x.year x.month
    have hday := hx.day
    omega
  have hhour := hx.hour
  have hminute := hx.minute
  have hsecond := hx.second
  have hyear : ∀ b∈(digitsRev 21 x.year).reverse,p b :=
    fun b hb => hdigit b (digitsRev_digits 21 x.year b (List.mem_reverse.mp hb))
  have htwo : ∀ {n : Nat},n < 100 → ∀ b∈twoDigits n,p b :=
    fun h b hb => hdigit b (twoDigits_digits h b hb)
  have hcons : ∀ {b : Byte} {s : Text},p b → (∀ c∈s,p c) → ∀ c∈b::s,p c :=
    fun hb hs => List.forall_mem_cons.mpr ⟨hb,hs⟩
  rw [rfc822TimeBuf_eq]
  refine List.forall_mem_append.mpr ⟨hwdays wday hwday,hcons hblank ?_⟩
  refine List.forall_mem_append.mpr ⟨htwo hday,hcons hblank ?_⟩
  refine List.forall_mem_append.mpr ⟨hmonths _ hx.month,List.forall_mem_append.mpr ⟨hyear,?_⟩⟩
  refine hcons hblank (List.forall_mem_append.mpr ⟨htwo (by omega),hcons hcolon ?_⟩)
  refine List.forall_mem_append.mpr ⟨htwo (by omega),hcons hcolon ?_⟩
  exact List.forall_mem_append.mpr ⟨htwo (by omega),hgmt⟩

/-- A date is plain text. -/
theorem rfc822TimeBuf_plain {n : Nat} {tm : Tm} (h : IsUtc n tm) : PlainText (rfc822TimeBuf tm) := by
  apply rfc822TimeBuf_all (p := fun b => b≠0 ∧ b≠10) h
  · exact fun b hb => PlainText.of_digits (s := [b]) (by simpa [Digits] using hb) b
      (List.mem_singleton_self b)
  · decide +kernel
  · decide +kernel
  · decide
  · decide
  · decide +kernel

/-- Lines of plain text. -/
def FieldLines (s : Text) : Prop := ∃ ls : List Text,s=ls.flatten ∧ ∀ l∈ls,FieldLine l ∧ 0∉l

theorem FieldLines.append (hs : FieldLines s) (ht : FieldLines t) : FieldLines (s++t) := by
  obtain ⟨ls,rfl,hls⟩ := hs
  obtain ⟨ls',rfl,hls'⟩ := ht
  exact ⟨ls++ls',List.flatten_append.symm,List.forall_mem_append.mpr ⟨hls,hls'⟩⟩

theorem fieldLines_line (hs : PlainText s) (hhead : s.head?.map isEol=some false) :
    FieldLines (s++crlf) := by
  refine ⟨[s++crlf],(List.append_nil _).symm,fun l hl => ?_⟩
  rw [List.mem_singleton.mp hl]
  cases s with
  | nil => cases hhead
  | cons x s =>
    have hx : isEol x=false := Option.some.inj hhead
    refine ⟨⟨x,s,rfl,hx,fun h => (hs 10 (List.mem_cons_of_mem x h)).2 rfl⟩,fun h0 => ?_⟩
    rcases List.mem_append.mp h0 with h0|h0
    · exact (hs 0 h0).1 rfl
    · exact absurd h0 (by decide)

theorem fieldLines_pieces {ps : List Piece} (hps : ∀ p∈ps,FieldLines p.bytes) :
    FieldLines (pieceBytes ps) := by
  induction ps with
  | nil => exact ⟨[],rfl,fun l hl => (by cases hl)⟩
  | cons p ps ih =>
    exact (hps p List.mem_cons_self).append (ih fun q hq => hps q (List.mem_cons_of_mem p hq))

end PlainText

section Served

variable (e : Config) (r : Request)

theorem printHttpHeaders_lines {t : Nat} (hutc : IsUtc t (e.gmtime t)) (hka : r.keepalive=.stopped)
    {p : Piece} (hp : p∈printHttpHeaders e t r++contentTypeHtml) : FieldLines p.bytes := by
  have hdate : PlainText (str "Date: "++rfc822 e t 0) :=
    plainText_append.mpr ⟨by decide +kernel,rfc822TimeBuf_plain hutc⟩
  have hkaPhrase : printKaPhrase e r=[.raw (str "Connection: close"++crlf)] :=
    if_neg (by rw [hka]; exact fun h => (by cases h.2.1))
  rw [printHttpHeaders,hkaPhrase] at hp
  simp only [List.mem_append,List.mem_singleton,contentTypeHtml] at hp
  rcases hp with ((((rfl|hp)|rfl)|rfl)|hp)|rfl
  · exact fieldLines_line hdate rfl
  · split at hp
    · cases hp
    · rw [List.mem_singleton.mp hp]
      exact fieldLines_line (s := str "Server: "++serverVersion) (by decide +kernel) rfl
  · exact fieldLines_line (s := str "Accept-Ranges: bytes") (by decide +kernel) rfl
  · exact fieldLines_line (s := str "Connection: close") (by decide +kernel) rfl
  · cases hf : r.filter with
    | none =>
      rw [hf] at hp
      cases hp
    | some f =>
      rw [hf] at hp
      have hencoding : FieldLines (str "Content-Encoding: "++f.type++crlf) := by
        cases f with
        | _ => exact fieldLines_line (by decide +kernel) rfl
      have hchunked : FieldLines (str "Transfer-Encoding: chunked"++crlf) :=
        fieldLines_line (by decide +kernel) rfl
      have hboth := hencoding.append hchunked
      rw [← List.append_assoc] at hboth
      rw [List.mem_singleton.mp hp]
      exact hboth
  · exact fieldLines_line (s := str "Content-Type: "++html) (by decide +kernel) rfl

theorem served_lines {t : Nat} (hutc : IsUtc t (e.gmtime t)) (hka : r.keepalive=.stopped) :
    FieldLines (pieceBytes (statusLine e t " 302 Moved Temporarily" r++contentTypeHtml)) := by
  have hversion : FieldLines (httpVerString r.httpVersion++str " 302 Moved Temporarily"++crlf) := by
    cases r.httpVersion with
    | _ => exact fieldLines_line (by decide +kernel) rfl
  have hrest := fieldLines_pieces fun p => printHttpHeaders_lines e r hutc hka (p := p)
  have hall := hversion.append hrest
  rw [List.append_assoc,List.append_assoc] at hall
  exact hall

end Served

/-! The header block of the answer. -/

/-- Behind the server's lines: the escaped URL, and the further lines of the script's header with
its blank line. -/
def Request.redirectBlock (r : Request) (b : Nat) : Text :=
  str "Location: "++r.url.flatMap escapeHttp++crlf++
    if r.moreLines b=[] then crlf else r.moreLines b

/-- The header block of the text ends with the server's lines, the URL and the further lines. -/
def RightBlock (e : Config) (c : Conn) (b : Nat) (text : Text) : Prop :=
  c.served e++c.req.redirectBlock b<+:text ∧
    headLength text=some (c.served e++c.req.redirectBlock b).length

/-- The header part of the redirect is written so, and the answer shows it so. -/
structure RedirectRight (e : Config) (c : Conn) (b : Nat) : Prop where
  head : RightBlock e c b (c.added (c.redirectHead e))
  answer : RightBlock e c b (c.added (c.redirectPage e))

/-- The URL does not outgrow its place, no body comes in the place of further lines, they are not
reached by the line end of the URL, and what is passed on finds room. -/
structure RedirectFits (e : Config) (c : Conn) (b : Nat) : Prop where
  apart : Apart escapeHttp (c.urlFrom e) c.req.urlAt c.req.url
  lines : c.req.moreLines b=[] → c.req.handedOn=[]
  behind : c.req.moreLines b≠[] → c.urlTo e+2 ≤ c.req.restAt
  room : c.urlTo e+2+c.req.handedOn.length+(if c.req.moreLines b=[] then 4 else 0) ≤ bufferSize

section Block

variable {e : Config} {c : Conn} {b : Nat}

/-- What the header part writes when the URL is not overtaken. -/
theorem redirectHead_text (h : Redirecting c.req)
    (happ : Apart escapeHttp (c.urlFrom e) c.req.urlAt c.req.url)
    (hroom : c.urlTo e+2 ≤ bufferSize) : Appended (c.lead e++c.req.url.flatMap escapeHttp++
      (crlf++tailText (c.urlTo e+2) ((c.atMore e).moreText c.req)))
        (c.urlCut.answering rMovedTemp) (c.redirectHead e) := by
  have hto : c.urlTo e=c.urlFrom e+(c.req.url.flatMap escapeHttp).length := rfl
  have hfrom : c.urlFrom e=c.req.bufferEnd+(c.lead e).length := rfl
  have hlead : Appended (c.lead e) (c.urlCut.answering rMovedTemp) (c.atUrl e) :=
    buffers_appends (show c.urlFrom e ≤ bufferSize by omega)
  have hurl : Appended (c.req.url.flatMap escapeHttp) (c.atUrl e)
      ((c.atUrl e).buffers (c.req.url.flatMap escapeHttp)) :=
    buffers_appends (show c.urlTo e ≤ bufferSize by omega)
  rw [redirectHead_url h happ hroom]
  refine (hlead.trans hurl).trans ?_
  exact rest_appends c.req (s := (c.atUrl e).buffers (c.req.url.flatMap escapeHttp)) h.live hroom

/-- The lines up to that of the URL, and that. -/
theorem lead_lines (hutc : IsUtc c.sys.now (e.gmtime c.sys.now)) :
    FieldLines (c.served e) ∧ 0∉c.lead e ∧
      FieldLines (c.lead e++c.req.url.flatMap escapeHttp++crlf) := by
  have hserved : FieldLines (c.served e) := served_lines e (c.req.answering rMovedTemp) hutc rfl
  have hurl : PlainText (str "Location: "++c.req.url.flatMap escapeHttp) := by
    refine plainText_append.mpr ⟨by decide +kernel,fun x hx => ?_⟩
    obtain ⟨a,-,ha⟩ := List.mem_flatMap.mp hx
    exact ⟨fun h => escapeHttp_plain a x (.inl h) ha,fun h => escapeHttp_plain a x (.inr h) ha⟩
  refine ⟨hserved,fun h0 => ?_,?_⟩
  · rcases List.mem_append.mp h0 with h0|h0
    · obtain ⟨ls,hls,hall⟩ := hserved
      rw [hls] at h0
      obtain ⟨l,hl,hl0⟩ := List.mem_flatten.mp h0
      exact (hall l hl).2 hl0
    · exact absurd h0 (by decide)
  · have hline := hserved.append (fieldLines_line hurl rfl)
    rw [← List.append_assoc,← List.append_assoc] at hline
    exact hline

/-- Behind such lines the header block goes on. -/
theorem FieldLines.headLength {s : Text} (hs : FieldLines s) {x : Byte} {t : Text}
    (hx : isEol x=false) :
    Crotalus.headLength (s++x::t)=(Crotalus.headLength (x::t)).map (· + s.length) := by
  obtain ⟨ls,rfl,hls⟩ := hs
  exact headLength_fields (fun l hl => (hls l hl).1) hx

/-- The blank line that the server ends with. -/
theorem headLength_crlfs {a : Text} (ha : 10∉a) (t : Text) :
    headLength (a++(crlf++(crlf++t)))=some (a.length+4) := by
  rw [headLength_text ha]
  change some (4+a.length)=_
  rw [Nat.add_comm]

theorem Conn.urlTo_le (happ : Apart escapeHttp (c.urlFrom e) c.req.urlAt c.req.url) :
    c.urlTo e ≤ c.req.urlEnd := happ.all

/-- Without further lines, and without a body, the server ends the header. -/
theorem right_alone (h : Redirecting c.req) (hb : headLength c.req.unsent=some b)
    (hutc : IsUtc c.sys.now (e.gmtime c.sys.now)) (hfits : RedirectFits e c b)
    (hmore : c.req.moreLines b=[]) :
    RightBlock e c b ((c.urlCut.answering rMovedTemp).added (c.redirectHead e)) := by
  have hroom := hfits.room
  have hnil := hfits.lines hmore
  have hle := Conn.urlTo_le hfits.apart
  have hrest := h.noLines hb hmore
  have hhanded := moreText_handed (e := e) h (.inr (by omega))
  rw [if_pos hmore,hnil] at hroom
  have htail : tailText (c.urlTo e+2) ((c.atMore e).moreText c.req)=crlf++crlf := by
    rw [hhanded,hnil,tailText,if_pos (by omega),if_pos (by omega)]
    rfl
  have htext := redirectHead_text h hfits.apart (by omega)
  rw [htext.text,htail]
  obtain ⟨hserved,-,-⟩ := lead_lines (e := e) (c := c) hutc
  have hplain : (10 : Byte)∉str "Location: "++c.req.url.flatMap escapeHttp := by
    intro h10
    rcases List.mem_append.mp h10 with h10|h10
    · exact absurd h10 (by decide)
    · obtain ⟨a,-,ha⟩ := List.mem_flatMap.mp h10
      exact escapeHttp_plain a 10 (.inr rfl) ha
  have hblock : c.req.redirectBlock b=str "Location: "++c.req.url.flatMap escapeHttp++(crlf++crlf) := by
    rw [Request.redirectBlock,if_pos hmore,List.append_assoc]
  have hsplit : c.lead e++c.req.url.flatMap escapeHttp++(crlf++(crlf++crlf))=
      c.served e++(str "Location: "++c.req.url.flatMap escapeHttp++(crlf++(crlf++crlf))) := by
    simp only [Conn.lead,List.append_assoc]
  refine ⟨⟨crlf,?_⟩,?_⟩
  · rw [hsplit,hblock]
    simp only [List.append_assoc]
  · have hhead := hserved.headLength (x := 76) (t := str "ocation: "++
      c.req.url.flatMap escapeHttp++(crlf++(crlf++crlf))) (by decide)
    have hloc : (76 : Byte)::(str "ocation: "++c.req.url.flatMap escapeHttp++(crlf++(crlf++crlf)))=
        str "Location: "++c.req.url.flatMap escapeHttp++(crlf++(crlf++crlf)) := rfl
    have hfour : (crlf++crlf).length=4 := rfl
    have hadd : ∀ s t : Text,(s++t).length=s.length+t.length := fun _ _ => List.length_append
    rw [hloc,headLength_crlfs hplain crlf] at hhead
    have hlen : (c.served e++c.req.redirectBlock b).length=
        (str "Location: "++c.req.url.flatMap escapeHttp).length+4+(c.served e).length := by
      rw [hblock,hadd,hadd _ (crlf++crlf),hfour,Nat.add_comm]
    rw [hsplit,hhead,hlen]
    rfl

/-- Further lines bring their blank line. -/
theorem right_lines (h : Redirecting c.req) (hb : headLength c.req.unsent=some b)
    (hutc : IsUtc c.sys.now (e.gmtime c.sys.now)) (hfits : RedirectFits e c b)
    (hmore : c.req.moreLines b≠[]) :
    RightBlock e c b ((c.urlCut.answering rMovedTemp).added (c.redirectHead e)) := by
  have hroom := hfits.room
  obtain ⟨-,⟨z,hz⟩,hhead,x,t,hxt,hx⟩ := h.lines hb hmore
  have hhanded := moreText_handed (e := e) h (.inr (hfits.behind hmore))
  rw [if_neg hmore] at hroom
  obtain ⟨rest,htail⟩ : ∃ rest,tailText (c.urlTo e+2) ((c.atMore e).moreText c.req)=
      c.req.moreLines b++rest := by
    rw [hhanded,tailText,if_pos (by omega),← hz,List.append_assoc]
    exact ⟨_,rfl⟩
  have htext := redirectHead_text h hfits.apart (by omega)
  rw [htext.text,htail]
  obtain ⟨-,-,hlines⟩ := lead_lines (e := e) (c := c) hutc
  have hblock : c.served e++c.req.redirectBlock b=
      c.lead e++c.req.url.flatMap escapeHttp++crlf++c.req.moreLines b := by
    rw [Request.redirectBlock,if_neg hmore]
    simp only [Conn.lead,List.append_assoc]
  refine ⟨⟨rest,?_⟩,?_⟩
  · rw [hblock]
    simp only [List.append_assoc]
  · have hall := hlines.headLength (t := t++rest) hx
    have hcons : x::(t++rest)=c.req.moreLines b++rest := by rw [hxt]; rfl
    rw [hcons,hhead rest,List.append_assoc] at hall
    have hadd : ∀ s t : Text,(s++t).length=s.length+t.length := fun _ _ => List.length_append
    have hlen : (c.served e++c.req.redirectBlock b).length=(c.req.moreLines b).length+
        (c.lead e++c.req.url.flatMap escapeHttp++crlf).length := by
      rw [hblock,hadd _ (c.req.moreLines b),Nat.add_comm]
    rw [hall,hlen]
    rfl

theorem redirectBlock_eq (e : Config) (c : Conn) (b : Nat) : c.served e++c.req.redirectBlock b=
    c.lead e++(c.req.url.flatMap escapeHttp++
      (crlf++if c.req.moreLines b=[] then crlf else c.req.moreLines b)) := by
  simp only [Request.redirectBlock,Conn.lead,List.append_assoc]

/-- What has been written is within the buffer, and ends in a line end behind the URL. -/
theorem right_apart (h : Redirecting c.req) (hutc : IsUtc c.sys.now (e.gmtime c.sys.now))
    (hright : RightBlock e c b ((c.urlCut.answering rMovedTemp).added (c.redirectHead e))) :
    c.urlTo e+2 ≤ bufferSize ∧ Apart escapeHttp (c.urlFrom e) c.req.urlAt c.req.url := by
  have hbounds := h.bounds
  have hfront := h.front
  have hat : c.req.urlAt=c.req.headerLine+10 := rfl
  have hto : c.urlTo e=c.req.bufferEnd+(c.lead e).length+(c.req.url.flatMap escapeHttp).length := rfl
  have hstart : (c.urlCut.answering rMovedTemp).req.bufferEnd=c.req.bufferEnd := rfl
  obtain ⟨out,hout⟩ := puts_appends (statusLine e c.sys.now " 302 Moved Temporarily"
    (c.req.answering rMovedTemp)++redirectFields c.req) (c.urlCut.answering rMovedTemp) (by omega)
  have hhead : Appended out (c.urlCut.answering rMovedTemp) (c.redirectHead e) := hout
  have hstop := hhead.stop
  have hroom := hhead.room
  have hpre := hright.1
  rw [hhead.text,redirectBlock_eq] at hpre
  have hlen := hpre.length_le
  have hcrlf : crlf.length=2 := rfl
  rw [List.length_append,List.length_append,List.length_append,hcrlf] at hlen
  have hfit : c.urlTo e+2 ≤ bufferSize := by omega
  refine ⟨hfit,?_⟩
  by_contra hover
  obtain ⟨rest,hrest,hplain⟩ := redirectHead_overtaken h (lead_lines hutc).2.1 hover (by
    have hfrom : c.urlTo e=c.urlFrom e+(c.req.url.flatMap escapeHttp).length := rfl
    omega)
  have hsame : out=c.lead e++rest := hhead.text.symm.trans hrest.text
  rw [hsame,List.prefix_append_right_inj] at hpre
  refine hplain (hpre.subset ?_)
  exact List.mem_append_right _ (List.mem_append_left _ (List.mem_cons_of_mem _ List.mem_cons_self))

/-- What is passed on does not start with a line end. -/
theorem handedOn_head (r : Request) {x : Byte} {t : Text} (h : r.handedOn=x::t) :
    isEol x=false := by
  unfold Request.handedOn at h
  cases hbehind : r.behindUrl with
  | nil =>
    rw [hbehind] at h
    cases h
  | cons y u =>
    have hy : isEol y=false := dropWhile_head hbehind
    rw [hbehind,List.takeWhile_cons] at h
    split at h
    · rw [(List.cons.inj h).1] at hy
      exact hy
    · cases h

/-- A line end in its place is that of the server, so nothing is passed on. -/
theorem crlf_tail {more : Text} {stop : Nat} (hhead : ∀ {x t},more=x::t → isEol x=false)
    (h : crlf<+:if stop+more.length ≤ bufferSize then
      more++if stop+more.length+4 ≤ bufferSize then crlf++crlf else [] else []) :
    more=[] ∧ stop+([] : Text).length+4 ≤ bufferSize := by
  have hcrlf : ¬crlf<+:[] := fun h => (by cases List.prefix_nil.mp h)
  split at h
  · cases more with
    | nil =>
      refine ⟨rfl,?_⟩
      split at h
      · assumption
      · exact absurd h hcrlf
    | cons x t =>
      have hx := hhead rfl
      rw [← (List.cons_prefix_cons.mp h).1] at hx
      cases hx
  · exact absurd h hcrlf

/-- A right header block is only written when all fits. -/
theorem fits_of_right (h : Redirecting c.req) (hb : headLength c.req.unsent=some b)
    (hutc : IsUtc c.sys.now (e.gmtime c.sys.now))
    (hright : RightBlock e c b ((c.urlCut.answering rMovedTemp).added (c.redirectHead e))) :
    RedirectFits e c b := by
  obtain ⟨hroom,happ⟩ := right_apart h hutc hright
  have hle := Conn.urlTo_le happ
  have hpre := hright.1
  rw [(redirectHead_text h happ hroom).text,redirectBlock_eq,List.append_assoc,
    List.prefix_append_right_inj,List.prefix_append_right_inj,List.prefix_append_right_inj] at hpre
  by_cases hmore : c.req.moreLines b=[]
  · have hrest := h.noLines hb hmore
    rw [if_pos hmore,moreText_handed (e := e) h (.inr (by omega)),tailText] at hpre
    obtain ⟨hnil,hfit⟩ := crlf_tail (handedOn_head c.req) hpre
    refine ⟨happ,fun _ => hnil,fun h => absurd hmore h,?_⟩
    rw [hnil,if_pos hmore]
    exact hfit
  · obtain ⟨hne,-,-,x,t,hxt,hx⟩ := h.lines hb hmore
    rw [if_neg hmore,hxt] at hpre
    have hfit : ∀ more,x::t<+:tailText (c.urlTo e+2) more → c.urlTo e+2+more.length ≤ bufferSize := by
      intro more hmore
      unfold tailText at hmore
      split at hmore
      · assumption
      · cases List.prefix_nil.mp hmore
    have hbehind : c.urlTo e+2 ≤ c.req.restAt := by
      by_contra hlt
      obtain ⟨t',ht'⟩ := moreText_overwritten h happ hne (Nat.lt_of_not_le hlt)
      have hroom' := hfit _ hpre
      rw [tailText,if_pos hroom',ht'] at hpre
      rw [(List.cons_prefix_cons.mp hpre).1] at hx
      cases hx
    rw [moreText_handed (e := e) h (.inr hbehind)] at hpre
    refine ⟨happ,fun h => absurd h hmore,fun _ => hbehind,?_⟩
    rw [if_neg hmore]
    exact hfit _ hpre

/-- The page only adds to the header part. -/
theorem redirectPage_adds (h : Redirecting c.req) :
    (c.urlCut.answering rMovedTemp).added (c.redirectHead e)<+:
      (c.urlCut.answering rMovedTemp).added (c.redirectPage e) := by
  have hbounds := h.bounds
  have hfront := h.front
  have hat : c.req.urlAt=c.req.headerLine+10 := rfl
  have hstart : (c.urlCut.answering rMovedTemp).req.bufferEnd=c.req.bufferEnd := rfl
  obtain ⟨out,hout⟩ := puts_appends (statusLine e c.sys.now " 302 Moved Temporarily"
    (c.req.answering rMovedTemp)++redirectFields c.req) (c.urlCut.answering rMovedTemp) (by omega)
  have hhead : Appended out (c.urlCut.answering rMovedTemp) (c.redirectHead e) := hout
  obtain ⟨page,hpage⟩ := puts_appends (if c.req.method≠.head then redirectBody c.req else [])
    (c.redirectHead e) hhead.room
  have hall : Appended (out++page) (c.urlCut.answering rMovedTemp) (c.redirectPage e) :=
    hhead.trans hpage
  rw [hhead.text,hall.text]
  exact List.prefix_append out page

theorem RightBlock.extend {text text' : Text} (h : RightBlock e c b text) (hp : text<+:text') :
    RightBlock e c b text' := ⟨h.1.trans hp,headLength_extend hp h.2⟩

/-- The header block of a redirect is that of the server, the URL and the script's further lines
exactly when all fits. -/
theorem redirect_right_iff (e : Config) (c : Conn) (b : Nat) (h : Redirecting c.req)
    (hb : headLength c.req.unsent=some b) (hutc : IsUtc c.sys.now (e.gmtime c.sys.now)) :
    exec (processCgiHeader e) c=
      exec (setStatus .done) (exec (reqFlush e) (c.redirectPage e)) ∧
    (RedirectRight e c b ↔ RedirectFits e c b) := by
  refine ⟨exec_redirect h,fun hright => fits_of_right h hb hutc hright.head,fun hfits => ?_⟩
  have hhead : RightBlock e c b (c.added (c.redirectHead e)) := by
    by_cases hmore : c.req.moreLines b=[]
    · exact right_alone h hb hutc hfits hmore
    · exact right_lines h hb hutc hfits hmore
  exact ⟨hhead,hhead.extend (redirectPage_adds h)⟩

end Block

/-! A script that redirects, and one that says more behind its header. -/

theorem epoch_utc : IsUtc 0 (({} : Config).gmtime 0) :=
  ⟨⟨1970,0,1,0,0,0⟩,4,⟨by decide,by decide,by decide,by decide,by decide,by decide⟩,by decide,
    by decide,rfl⟩

def bareRedirect : Conn := scripted .http10 .get (str "Location: x:y\n\n")

theorem bareRedirect_redirects : Redirecting bareRedirect.req where
  read := scripted_read _ _ _ (by decide)
  version := by decide
  redirects := by decide +kernel
  blank := ⟨13,by decide +kernel⟩
  notPath := by decide +kernel
  front := by decide
  live := rfl

theorem redirect_right_bare : exec (processCgiHeader {}) bareRedirect=
      exec (setStatus .done) (exec (reqFlush {}) (bareRedirect.redirectPage {})) ∧
    (RedirectRight {} bareRedirect 15 ↔ RedirectFits {} bareRedirect 15) :=
  redirect_right_iff {} bareRedirect 15 bareRedirect_redirects (by decide +kernel) epoch_utc

def bodyRedirect : Conn := scripted .http10 .get (str "Location: x:y\n\nhi")

/-- The body goes out as a header line. -/
theorem redirect_bodyInHeader : Redirecting bodyRedirect.req ∧
    headLength bodyRedirect.req.unsent=some 15 ∧ bodyRedirect.req.moreLines 15=[] ∧
    bodyRedirect.added (bodyRedirect.redirectHead {})=bodyRedirect.served {}++
      (str "Location: x:y"++crlf++str "hi"++crlf++crlf) ∧ ¬RedirectRight {} bodyRedirect 15 := by
  have hredirects : Redirecting bodyRedirect.req :=
    ⟨scripted_read _ _ _ (by decide),by decide,by decide +kernel,⟨13,by decide +kernel⟩,
      by decide +kernel,by decide,rfl⟩
  refine ⟨hredirects,by decide +kernel,by decide +kernel,by decide +kernel,fun h => ?_⟩
  have hends := h.head.2
  revert hends
  decide +kernel

end Crotalus
