import Crotalus.Spec.Feed
import Crotalus.Spec.HeaderLines
import Crotalus.Properties.HeaderOnce

namespace Crotalus

open Stateful

/-! What `read_header` makes of a header, in whatever pieces it comes. -/

/-- The functions that `read_header` calls, with the strings they work on. -/
inductive HeaderCall where
  | logline (line : Text)
  | optionLine (line : Text)
  | headerEnd
  deriving DecidableEq,Repr

/-- The call that a visit belongs to. -/
def Visit.call (v : Visit) : Option HeaderCall :=
  match v.site with
  | .logline => some (.logline (v.parsed.req.clientStream.take v.parsed.req.headerEnd))
  | .optionLine => some (.optionLine v.parsed.req.headerText)
  | .headerEnd => some .headerEnd
  | _ => none

/-- The calls in the history of a connection. -/
def Conn.headerCalls (c : Conn) : List HeaderCall := c.trace.filterMap Visit.call

/-- The calls for some lines of a header. -/
def handed (first : Bool) : List Text → List HeaderCall
  | [] => []
  | l::ls => (if first then .logline l else .optionLine l)::ls.map .optionLine

/-- What the reading of a header with the complete lines `ls` has come to: all of them are handed
on and none ends it; one of them, or the client, was refused; the blank line has ended it; or it
was a request line without version. -/
inductive Follows (first : Bool) (ls : List (List Byte)) (short : Prop) :
    Option Int → List HeaderCall → Prop where
  | reading (h : headerComplete first ls=false) :
      Follows first ls short none (handed first (headerLines first ls))
  | refused {more : List Text} (h : more<+:headerLines first ls) :
      Follows first ls short (some 0) (handed first more)
  | ended {ret : Int} (h : headerComplete first ls=true) :
      Follows first ls short (some ret) (handed first (headerLines first ls)++[.headerEnd])
  | versionless {ret : Int} (h : short) (hf : first=true) {l : Text} {more : List Text}
      (hl : headerLines first ls=l::more) :
      Follows first ls short (some ret) [.logline l,.headerEnd]

section Calls

variable {e : Config} {c c' : Conn}

theorem call_parsed (v : Visit) : v.parsed.call=v.call := by
  have hreq : v.parsed.parsed.req=v.parsed.req := congrArg Visit.req v.parsed_parsed
  have hsite : v.parsed.site=v.site := rfl
  simp only [Visit.call,hreq,hsite]

/-- What is parsed tells the calls. -/
theorem Conn.Like.headerCalls {a b : Conn} (h : a.Like b) : a.headerCalls=b.headerCalls := by
  have hcalls : ∀ c : Conn,(c.trace.map Visit.parsed).filterMap Visit.call=c.headerCalls := by
    intro c
    rw [List.filterMap_map]
    exact List.filterMap_congr fun v _ => call_parsed v
  have htrace : a.trace.map Visit.parsed=b.trace.map Visit.parsed := h.map fun c => c.trace
  rw [← hcalls,← hcalls,htrace]

theorem Conn.headerCalls_append {vs : List Visit} (h : c'.trace=c.trace++vs) :
    c'.headerCalls=c.headerCalls++vs.filterMap Visit.call := by
  rw [Conn.headerCalls,h,List.filterMap_append]
  rfl

/-- Other points of the code are no calls. -/
theorem Passed.headerCalls (h : Passed Site.inTurn c c') : c'.headerCalls=c.headerCalls := by
  obtain ⟨vs,ht,hs⟩ := h
  have hnone : vs.filterMap Visit.call=[] := by
    rw [List.filterMap_eq_nil_iff]
    intro v hv
    obtain ⟨hlog,hopt,hend,-⟩ := hs v hv
    unfold Visit.call
    split
    · exact absurd ‹_› hlog
    · exact absurd ‹_› hopt
    · exact absurd ‹_› hend
    · rfl
  rw [Conn.headerCalls_append ht,hnone,List.append_nil]

theorem headerCalls_same (h : c'.trace=c.trace) : c'.headerCalls=c.headerCalls :=
  congrArg (List.filterMap Visit.call) h

/-- The call of a handler for a line. -/
theorem processLogline_calls (line : Text) (c : Conn) :
    (exec (processLogline e line) c).headerCalls=
      c.headerCalls++(Visit.call ⟨.logline,c.req,c.sys⟩).toList := by
  obtain ⟨rest,hrun,-,hrest⟩ := processLogline_rest e line
  let c1 : Conn := exec (do
    mark .logline
    modReq fun r => { r with logline := some line }) c
  have ht : (exec rest c1).trace=c1.trace :=
    (hrest (T := fun _ => True) (S := fun _ => False) trivial c1).passed.eq
  have hend : (exec (processLogline e line) c).trace=c.trace++[⟨.logline,c.req,c.sys⟩] := by
    rw [hrun]
    exact ht
  rw [Conn.headerCalls_append hend]
  rfl

theorem processOptionLine_calls (line : Text) (c : Conn) :
    (exec (processOptionLine e line) c).headerCalls=
      c.headerCalls++(Visit.call ⟨.optionLine,c.req,c.sys⟩).toList := by
  obtain ⟨rest,hrun,hrest⟩ := processOptionLine_rest e line
  have ht : (exec rest (exec (mark .optionLine) c)).trace=(exec (mark .optionLine) c).trace :=
    (hrest (T := fun _ => True) (S := fun _ => False) trivial _).passed.eq
  have hend : (exec (processOptionLine e line) c).trace=c.trace++[⟨.optionLine,c.req,c.sys⟩] := by
    rw [hrun]
    exact ht
  rw [Conn.headerCalls_append hend]
  rfl

theorem mark_calls (c : Conn) :
    (exec (mark .headerEnd) c).headerCalls=c.headerCalls++[.headerEnd] := by
  have ht : (exec (mark .headerEnd) c).trace=c.trace++[⟨.headerEnd,c.req,c.sys⟩] := rfl
  exact Conn.headerCalls_append ht

theorem endHeader_calls (c : Conn) :
    (exec (endHeader e) c).headerCalls=c.headerCalls++[.headerEnd] ∧
      (exec (endHeader e) c).req.httpVersion=c.req.httpVersion := by
  obtain ⟨host,hw⟩ := processHeaderEnd_works e (exec (mark .headerEnd) c) Responding.inTurn
  have hpass : Passed Site.inTurn (exec (mark .headerEnd) c) (exec (endHeader e) c) := hw.passed
  have hversion := congrArg (fun r => r.2.1) hw.req
  exact ⟨hpass.headerCalls.trans (mark_calls c),hversion⟩

theorem headerDone_calls (c : Conn) :
    (exec (headerDone e) c).headerCalls=c.headerCalls++[.headerEnd] := by
  obtain ⟨host,hw⟩ := headerDone_works e Responding.inTurn rfl c
  have hpass : Passed Site.inTurn (exec (mark .headerEnd) c) (exec (headerDone e) c) := hw.passed
  exact hpass.headerCalls.trans (mark_calls c)

end Calls

theorem handed_false (ls : List Text) : handed false ls=ls.map .optionLine := by
  cases ls with
  | nil => rfl
  | cons l ls => rfl

/-- The call for one line. -/
def lineCall (first : Bool) (l : Text) : HeaderCall := if first then .logline l else .optionLine l

section Follow

variable {first : Bool} {l : List Byte} {ls : List (List Byte)} {short : Prop} {ret : Int}

theorem Follows.nothing (first : Bool) (short : Prop) : Follows first [] short none [] :=
  .reading rfl

theorem Follows.nil : Follows first ls short (some 0) [] := by
  have hend : Follows first ls short (some 0) (handed first []) := .refused List.nil_prefix
  exact hend

theorem Follows.one (h : first=true ∨ isBlank l=false) :
    Follows first (l::ls) short (some 0) [lineCall first (strip l)] := by
  have hmore : [strip l]<+:headerLines first (l::ls) := by
    rw [(headerLines_line h ls).1]
    exact List.cons_prefix_cons.mpr ⟨rfl,List.nil_prefix⟩
  exact .refused hmore

theorem Follows.cons (h : first=true ∨ isBlank l=false) {v : Option Int} {calls : List HeaderCall}
    (hc : Follows false ls short v calls) :
    Follows first (l::ls) short v (lineCall first (strip l)::calls) := by
  obtain ⟨hlines,hcomplete⟩ := headerLines_line h ls
  cases hc with
  | reading hr =>
    have hend : Follows first (l::ls) short none _ := .reading (hcomplete.trans hr)
    rw [hlines] at hend
    rw [handed_false]
    exact hend
  | @refused more hm =>
    have hmore : strip l::more<+:headerLines first (l::ls) := by
      rw [hlines]
      exact List.cons_prefix_cons.mpr ⟨rfl,hm⟩
    rw [handed_false]
    exact .refused hmore
  | @ended ret he =>
    have hend : Follows first (l::ls) short (some ret) _ := .ended (hcomplete.trans he)
    rw [hlines] at hend
    rw [handed_false]
    exact hend
  | versionless _ hf _ => cases hf

theorem Follows.blank (h : isBlank l=true) :
    Follows false (l::ls) short (some ret) [.headerEnd] := by
  obtain ⟨hlines,hcomplete⟩ := headerLines_blank h ls
  have hend : Follows false (l::ls) short (some ret) _ := .ended hcomplete
  rw [hlines] at hend
  exact hend

theorem Follows.ofVersionless (h : short) :
    Follows true (l::ls) short (some ret) [.logline (strip l),.headerEnd] :=
  .versionless h rfl (headerLines_line (.inl rfl) ls).1

end Follow

/-- The reading of a line whose bytes `cur` are parsed. -/
structure Scanning (first : Bool) (cur : List Byte) (c : Conn) : Prop where
  whole : c.req.clientStream.length=c.req.parsePos
  start : c.req.headerLine≤c.req.clientStream.length
  line : c.req.clientStream.drop c.req.headerLine=cur
  noLf : 10∉cur
  status : c.req.status=lineStatus first cur
  ends : c.req.status=.oneCr → c.req.headerEnd=c.req.headerLine+(strip cur).length
  logged : first=true ↔ c.req.logline=none
  top : first=true → c.req.headerLine=0

section Scan

variable {e : Config} {first : Bool} {cur : List Byte} {c : Conn}

/-- The next byte has arrived. -/
def Conn.arrived (c : Conn) (uc : Byte) : Conn :=
  { c with req := { c.req with clientStream := c.req.clientStream++[uc] } }

theorem lineStatus_reading (first : Bool) (cur : List Byte) :
    (lineStatus first cur).reading=true := by
  unfold lineStatus
  split
  · split <;> rfl
  · split <;> rfl

theorem Scanning.length (h : Scanning first cur c) :
    c.req.parsePos=c.req.headerLine+cur.length := by
  have hstart := h.start
  have hlen := congrArg List.length h.line
  rw [List.length_drop] at hlen
  rw [← h.whole]
  omega

/-- The end of the line that the next byte may end. -/
theorem Scanning.bump_ends (h : Scanning first cur c) {uc : Byte}
    (hst : headerStatus c.req.status uc=.oneLf ∨ headerStatus c.req.status uc=.oneCr) :
    ((c.arrived uc).bump uc).req.headerEnd=c.req.headerLine+(strip cur).length := by
  change (if c.req.status=.readHeader ∧ (uc=13 ∨ uc=10) then c.req.parsePos
    else c.req.headerEnd)=_
  have hends := h.ends
  have hstatus := h.status
  by_cases hread : c.req.status=.readHeader
  · have hlast : cur.getLast?≠some 13 := by
      intro hcr
      rw [hread,lineStatus] at hstatus
      by_cases hblank : first=false ∧ isBlank cur=true
      · rw [if_pos hblank] at hstatus
        split at hstatus <;> cases hstatus
      · rw [if_neg hblank,if_pos hcr] at hstatus
        cases hstatus
    have huc : uc=13 ∨ uc=10 := by
      by_contra hne
      rw [not_or] at hne
      simp only [hread,headerStatus,if_neg hne.1,if_neg hne.2,reduceCtorEq,or_self] at hst
    rw [if_pos ⟨hread,huc⟩,strip_self hlast]
    exact h.length
  · rw [if_neg fun hif => hread hif.1]
    apply hends
    have hreading : c.req.status.reading=true := by rw [hstatus]; exact lineStatus_reading _ _
    generalize c.req.status=st at hst hread hreading
    cases st with
    | readHeader => exact absurd rfl hread
    | oneCr => rfl
    | oneLf | twoCr =>
      simp only [headerStatus] at hst
      split at hst
      · simp only [reduceCtorEq,or_self] at hst
      · split at hst <;> simp only [reduceCtorEq,or_self] at hst
    | bodyRead | bodyWrite | write | buffPoll | buffRead | buffWrite | pipeRead | pipeWrite
    | ioshuffle | done | timedOut | dead => cases hreading

/-- A byte within a line. -/
theorem Scanning.byte (h : Scanning first cur c) {uc : Byte} (huc : uc≠10)
    (hlegal : legalByte uc=true) :
    value (readByte e uc) (c.arrived uc)=none ∧
      exec (readByte e uc) (c.arrived uc)=(c.arrived uc).bump uc ∧
      Scanning first (cur++[uc]) ((c.arrived uc).bump uc) := by
  obtain ⟨hv,he⟩ := readByte_legal (e := e) hlegal (c.arrived uc)
  have hst : headerStatus (c.arrived uc).req.status uc=lineStatus first (cur++[uc]) := by
    change headerStatus c.req.status uc=_
    rw [h.status,headerStatus_byte huc]
  have hne : lineStatus first (cur++[uc])≠.oneLf ∧ lineStatus first (cur++[uc])≠.bodyRead := by
    rw [lineStatus_concat]
    split
    · decide
    · split <;> decide
  rw [hv,he,hst,statusDone,if_neg hne.1,if_neg hne.2]
  refine ⟨rfl,rfl,?_,?_,?_,?_,?_,?_,h.logged,h.top⟩
  · change (c.req.clientStream++[uc]).length=c.req.parsePos+1
    rw [List.length_append,h.whole]
    rfl
  · change c.req.headerLine≤(c.req.clientStream++[uc]).length
    rw [List.length_append]
    exact Nat.le_add_right_of_le h.start
  · change (c.req.clientStream++[uc]).drop c.req.headerLine=_
    rw [List.drop_append_of_le_length h.start,h.line]
  · rw [List.mem_append,not_or]
    exact ⟨h.noLf,fun hmem => huc (List.mem_singleton.mp hmem).symm⟩
  · exact hst
  · intro hcr
    have hcr' : headerStatus c.req.status uc=.oneCr := hcr
    rw [h.bump_ends (.inr hcr')]
    have h13 : uc=13 := by
      rw [h.status,headerStatus_byte huc,lineStatus_concat] at hcr'
      by_contra h13
      rw [if_neg fun hif => h13 hif.2,if_neg h13] at hcr'
      cases hcr'
    rw [h13,strip_cr]
    rfl

/-- With all its bytes parsed a request is what is parsed of it. -/
theorem parsed_whole {r : Request} (h : r.clientStream.length=r.parsePos) : r.parsed true=r := by
  have htake : r.clientStream.take r.parsePos=r.clientStream := List.take_of_length_le h.le
  exact congrArg (fun s => { r with clientStream := s }) htake

theorem logline_call {r : Request} (h : r.clientStream.length=r.parsePos) (w : World) :
    Visit.call ⟨.logline,r,w⟩=some (.logline (r.clientStream.take r.headerEnd)) :=
  congrArg (fun r : Request => some (HeaderCall.logline (r.clientStream.take r.headerEnd)))
    (parsed_whole h)

theorem optionLine_call {r : Request} (h : r.clientStream.length=r.parsePos) (w : World) :
    Visit.call ⟨.optionLine,r,w⟩=some (.optionLine r.headerText) :=
  congrArg (fun r : Request => some (HeaderCall.optionLine r.headerText)) (parsed_whole h)

/-- Behind a line that was accepted the next one begins. -/
theorem Scanning.next (hwhole : c.req.clientStream.length=c.req.parsePos)
    (hst : c.req.status=.oneLf) (hlog : c.req.logline≠none) :
    Scanning false [] (exec (modReq fun r => { r with headerLine := r.parsePos }) c) := by
  refine ⟨hwhole,hwhole.ge,?_,List.not_mem_nil,hst,fun hcr => ?_,?_,fun hf => by cases hf⟩
  · change c.req.clientStream.drop c.req.parsePos=[]
    rw [← hwhole,List.drop_length]
  · have hcr' : c.req.status=.oneCr := hcr
    rw [hst] at hcr'
    cases hcr'
  · exact ⟨fun hf => absurd hf Bool.false_ne_true,fun hn => absurd hn hlog⟩

/-- How the reading goes on behind the line `cur`, with the calls so far. -/
inductive LineEnd (first : Bool) (cur : List Byte) (calls : List HeaderCall) :
    Option Int → Conn → Prop where
  | blank {ret : Int} {c' : Conn} (hf : first=false) (hb : isBlank cur=true)
      (hs : c'.req.status.reading=false) (hcalls : c'.headerCalls=calls++[.headerEnd]) :
      LineEnd first cur calls (some ret) c'
  | long {c' : Conn} (hcalls : c'.headerCalls=calls) : LineEnd first cur calls (some 0) c'
  | refused {c' : Conn} (h : first=true ∨ isBlank cur=false)
      (hcalls : c'.headerCalls=calls++[lineCall first (strip cur)]) :
      LineEnd first cur calls (some 0) c'
  | versionless {ret : Int} {c' : Conn} (hf : first=true) (hv : c'.req.httpVersion=.http09)
      (hs : ret=1 ∨ ret=-1 → c'.req.status.reading=false)
      (hcalls : c'.headerCalls=calls++[.logline (strip cur),.headerEnd]) :
      LineEnd first cur calls (some ret) c'
  | next {c' : Conn} (h : first=true ∨ isBlank cur=false) (hscan : Scanning false [] c')
      (hcalls : c'.headerCalls=calls++[lineCall first (strip cur)]) :
      LineEnd first cur calls none c'

/-- An option line. -/
theorem optionLine_end (hwhole : c.req.clientStream.length=c.req.parsePos)
    (hst : c.req.status=.oneLf) (hlog : c.req.logline≠none) (htext : c.req.headerText=strip cur)
    (hb : isBlank cur=false) (hshort : ¬c.req.headerEnd-c.req.headerLine ≥ maxHeaderLength) :
    LineEnd false cur c.headerCalls (value (headerLineDone e) c) (exec (headerLineDone e) c) := by
  have hcalls := processOptionLine_calls (e := e) (strip cur) c
  rw [optionLine_call hwhole,htext] at hcalls
  have hscan := processOptionLine_scans e (T := fun _ => True) (S := fun _ => True) trivial trivial
    (strip cur) c
  have hquiet := processOptionLine_quiets e (strip cur) c
  simp only [headerLineDone,value_bind,exec_bind,value_getReq,exec_getReq,if_neg hshort,
    if_pos hlog,htext]
  generalize value (processOptionLine e (strip cur)) c=v at hquiet
  generalize exec (processOptionLine e (strip cur)) c=c1 at hcalls hscan hquiet
  cases v with
  | false => exact .refused (.inr hb) hcalls
  | true =>
    have hsame := hquiet Bool.false_ne_true.symm
    have hst1 : c1.req.status=c.req.status := congrArg (fun q => q.1) hsame
    have hlog1 : c1.req.logline=c.req.logline := congrArg (fun q => q.2.2) hsame
    refine .next (.inr hb) (.next ?_ (hst1.trans hst) (hlog1 ▸ hlog)) hcalls
    rw [hscan.stream,hscan.pos,hwhole]

/-- The request line. -/
theorem logline_end (hwhole : c.req.clientStream.length=c.req.parsePos)
    (hst : c.req.status=.oneLf) (hlog : c.req.logline=none)
    (hline : c.req.clientStream.take c.req.headerEnd=strip cur)
    (hshort : ¬c.req.headerEnd-c.req.headerLine ≥ maxHeaderLength)
    (hok : ∀ v∈c.visits (exec (headerLineDone e) c),v.endsReading) :
    LineEnd true cur c.headerCalls (value (headerLineDone e) c) (exec (headerLineDone e) c) := by
  have hcalls := processLogline_calls (e := e) (strip cur) c
  rw [logline_call hwhole,hline] at hcalls
  have hscan := processLogline_scans e (T := fun _ => True) (S := fun _ => True) trivial trivial
    (strip cur) c
  have hquiet := processLogline_accepts e (strip cur) (c := c)
  have hlog' : ¬c.req.logline≠none := fun hne => hne hlog
  simp only [headerLineDone,value_bind,exec_bind,value_getReq,exec_getReq,if_neg hshort,
    if_neg hlog',hline] at hok ⊢
  generalize value (processLogline e (strip cur)) c=v at hquiet hok
  generalize exec (processLogline e (strip cur)) c=c1 at hcalls hscan hquiet hok
  cases v with
  | false => exact .refused (.inl rfl) hcalls
  | true =>
    simp only [if_true,value_bind,exec_bind,value_getReq,exec_getReq] at hok ⊢
    by_cases hv : c1.req.httpVersion=.http09
    · simp only [if_pos hv] at hok ⊢
      obtain ⟨hend,hversion⟩ := endHeader_calls (e := e) c1
      have hok' : ∀ v∈c1.visits (exec (endHeader e) c1),v.endsReading :=
        fun v hmem => hok v (mem_visits_after hscan.passed hmem)
      refine .versionless rfl (hversion.trans hv) (endHeader_leaves e hv hok') ?_
      rw [hcalls] at hend
      rwa [List.append_assoc] at hend
    · simp only [if_neg hv]
      have hsame := hquiet rfl
      have hst1 : c1.req.status=c.req.status := congrArg (fun q => q.1) hsame
      have hlog1 : c1.req.logline=some (strip cur) := congrArg (fun q => q.2.2) hsame
      refine .next (.inl rfl) (.next ?_ (hst1.trans hst) ?_) hcalls
      · rw [hscan.stream,hscan.pos,hwhole]
      · rw [hlog1]
        exact Option.some_ne_none _

/-- The LF that ends the line. -/
theorem Scanning.lf (h : Scanning first cur c)
    (hok : ∀ v∈c.visits (exec (readByte e 10) (c.arrived 10)),v.endsReading) :
    LineEnd first cur c.headerCalls (value (readByte e 10) (c.arrived 10))
      (exec (readByte e 10) (c.arrived 10)) := by
  obtain ⟨hv,he⟩ := readByte_legal (e := e) (show legalByte 10=true from rfl) (c.arrived 10)
  have hnext : headerStatus (c.arrived 10).req.status 10=
      if first=false ∧ isBlank cur=true then .bodyRead else .oneLf := by
    change headerStatus c.req.status 10=_
    rw [h.status,headerStatus_lf]
  rw [he] at hok
  rw [hv,he]
  have hst : ((c.arrived 10).bump 10).req.status=headerStatus (c.arrived 10).req.status 10 := rfl
  rw [hnext] at hok hst ⊢
  by_cases hblank : first=false ∧ isBlank cur=true
  · rw [if_pos hblank] at hst ⊢
    exact .blank hblank.1 hblank.2 (headerDone_leaves e hst) (headerDone_calls _)
  rw [if_neg hblank] at hok hst ⊢
  have hline : first=true ∨ isBlank cur=false := by
    cases first with
    | true => exact .inl rfl
    | false => exact .inr (Bool.eq_false_iff.mpr fun hb => hblank ⟨rfl,hb⟩)
  have hends : ((c.arrived 10).bump 10).req.headerEnd=c.req.headerLine+(strip cur).length :=
    h.bump_ends (.inl hst)
  have hstream : ((c.arrived 10).bump 10).req.clientStream=c.req.clientStream++[10] := rfl
  have hwhole : ((c.arrived 10).bump 10).req.clientStream.length=
      ((c.arrived 10).bump 10).req.parsePos := by
    rw [hstream,List.length_append,h.whole]
    rfl
  have hcut : (((c.arrived 10).bump 10).req.clientStream.drop c.req.headerLine).take
      (strip cur).length=strip cur := by
    rw [hstream,List.drop_append_of_le_length h.start,h.line,
      List.take_append_of_le_length (strip_start cur).length_le]
    exact (List.prefix_iff_eq_take.mp (strip_start cur)).symm
  have hpos : ((c.arrived 10).bump 10).req.headerLine=c.req.headerLine := rfl
  have hlogline : ((c.arrived 10).bump 10).req.logline=c.req.logline := rfl
  have hcalls : ((c.arrived 10).bump 10).headerCalls=c.headerCalls := rfl
  change ∀ v∈((c.arrived 10).bump 10).visits (exec (headerLineDone e) ((c.arrived 10).bump 10)),_ at hok
  change LineEnd first cur c.headerCalls (value (headerLineDone e) ((c.arrived 10).bump 10))
    (exec (headerLineDone e) ((c.arrived 10).bump 10))
  rw [← hcalls]
  generalize (c.arrived 10).bump 10=b at hok hst hends hstream hwhole hcut hpos hlogline hcalls ⊢
  by_cases hshort : b.req.headerEnd-b.req.headerLine ≥ maxHeaderLength
  · have hw := sendRBadRequest_works (T := fun _ => True) (S := Site.inTurn) e trivial b
    simp only [headerLineDone,value_bind,exec_bind,value_getReq,exec_getReq,if_pos hshort]
    exact .long hw.passed.headerCalls
  cases first with
  | false =>
    have hlog : b.req.logline≠none := by
      rw [hlogline]
      exact fun hn => Bool.false_ne_true (h.logged.mpr hn)
    have htext : b.req.headerText=strip cur := by
      rw [Request.headerText,hpos,hends,Nat.add_sub_cancel_left,hcut,firstLine_strip h.noLf]
    exact optionLine_end hwhole hst hlog htext (hline.resolve_left Bool.false_ne_true) hshort
  | true =>
    have hlog : b.req.logline=none := hlogline.trans (h.logged.mp rfl)
    have htake : b.req.clientStream.take b.req.headerEnd=strip cur := by
      rw [hends,h.top rfl,Nat.zero_add]
      rwa [h.top rfl,List.drop_zero] at hcut
    exact logline_end hwhole hst hlog htake hshort hok

end Scan

section Each

variable {e : Config} {fin : List RecvRes} {first : Bool} {cur s : List Byte} {c : Conn} {uc : Byte}

theorem decided {ret : Int} (next : Srv (Option Int))
    (h : ret=1 ∨ ret=-1 → c.req.status.reading=false) :
    value (unlessDecided ret next) c=some ret ∧ exec (unlessDecided ret next) c=c := by
  have hif : ¬((ret=1 ∨ ret=-1) ∧ c.req.status.reading=true) :=
    fun hgo => Bool.false_ne_true ((h hgo.1).symm.trans hgo.2)
  simp only [unlessDecided,value_bind,exec_bind,value_getReq,exec_getReq,if_neg hif]
  exact ⟨rfl,rfl⟩

/-- The byte leads to a value. -/
theorem readEach_some (fin : List RecvRes) (s : List Byte) {ret : Int}
    (hroom : c.req.clientStream.length < clientStreamSize)
    (hv : value (readByte e uc) (c.arrived uc)=some ret) :
    value (readEach e fin (uc::s)) c=
        value (unlessDecided ret (readEach e fin s)) (exec (readByte e uc) (c.arrived uc)) ∧
      exec (readEach e fin (uc::s)) c=
        exec (unlessDecided ret (readEach e fin s)) (exec (readByte e uc) (c.arrived uc)) := by
  unfold Conn.arrived at hv ⊢
  simp only [readEach,value_bind,exec_bind,value_getReq,exec_getReq,if_pos hroom,exec_modReq,hv]
  exact ⟨trivial,trivial⟩

theorem readEach_none (fin : List RecvRes) (s : List Byte)
    (hroom : c.req.clientStream.length < clientStreamSize)
    (hv : value (readByte e uc) (c.arrived uc)=none) :
    value (readEach e fin (uc::s)) c=
        value (readEach e fin s) (exec (readByte e uc) (c.arrived uc)) ∧
      exec (readEach e fin (uc::s)) c=
        exec (readEach e fin s) (exec (readByte e uc) (c.arrived uc)) := by
  unfold Conn.arrived at hv ⊢
  simp only [readEach,value_bind,exec_bind,value_getReq,exec_getReq,if_pos hroom,exec_modReq,hv]
  exact ⟨trivial,trivial⟩

theorem readByte_passed (hs : c.req.status.reading=true) (uc : Byte) :
    Passed (fun _ => True) c (exec (readByte e uc) (c.arrived uc)) :=
  ((readByte_step e (c := c.arrived uc) hs uc).frame e .all).2

/-- The bytes behind one that is there. -/
theorem readEach_rest
    (ih : ∀ {c : Conn},c.req.status.reading=true →
      Passed (fun _ => True) c (exec (readEach e fin s) c))
    (hs : c.req.status.reading=true) (hroom : c.req.clientStream.length < clientStreamSize) :
    Passed (fun _ => True) (exec (readByte e uc) (c.arrived uc))
      (exec (readEach e fin (uc::s)) c) := by
  have hstep := readByte_step e (c := c.arrived uc) hs uc
  cases hv : value (readByte e uc) (c.arrived uc) with
  | none =>
    rw [(readEach_none fin s hroom hv).2]
    rw [hv] at hstep
    generalize exec (readByte e uc) (c.arrived uc)=c1 at hstep
    cases hstep with
    | reads _ hreading => exact ih hreading
  | some ret =>
    rw [(readEach_some fin s hroom hv).2]
    by_cases hgo : (ret=1 ∨ ret=-1) ∧ (exec (readByte e uc) (c.arrived uc)).req.status.reading=true
    · simp only [unlessDecided,exec_bind,value_getReq,exec_getReq,if_pos hgo]
      exact ih hgo.2
    · simp only [unlessDecided,exec_bind,value_getReq,exec_getReq,if_neg hgo]
      exact .refl _

theorem readEach_passed (hs : c.req.status.reading=true) (s : List Byte) :
    Passed (fun _ => True) c (exec (readEach e fin s) c) := by
  induction s generalizing c with
  | nil =>
    simp only [readEach,exec_bind,exec_modify]
    exact .same (readMore_outcome { c with sys := { c.sys with recv := fin } }).2.1
  | cons uc s ih =>
    by_cases hroom : c.req.clientStream.length < clientStreamSize
    · exact (readByte_passed hs uc).trans (readEach_rest ih hs hroom)
    · simp only [readEach,exec_bind,value_getReq,exec_getReq,if_neg hroom]
      exact .same (readMore_outcome c).2.1

/-- The calls are those of the lines. -/
def Lined (e : Config) (fin : List RecvRes) (s : List Byte) (first : Bool) (ls : List (List Byte))
    (calls : List HeaderCall) (c : Conn) : Prop :=
  ∃ more,(exec (readEach e fin s) c).headerCalls=calls++more ∧
    Follows first ls ((exec (readEach e fin s) c).req.httpVersion=.http09)
      (value (readEach e fin s) c) more

/-- The reading ends with a byte. -/
theorem lined_some {ret : Int} {calls more : List HeaderCall} {ls : List (List Byte)} {c1 : Conn}
    (hroom : c.req.clientStream.length < clientStreamSize)
    (hv : value (readByte e uc) (c.arrived uc)=some ret)
    (he : exec (readByte e uc) (c.arrived uc)=c1)
    (hs : ret=1 ∨ ret=-1 → c1.req.status.reading=false) (hcalls : c1.headerCalls=calls++more)
    (h : Follows first ls (c1.req.httpVersion=.http09) (some ret) more) :
    Lined e fin (uc::s) first ls calls c := by
  obtain ⟨hvalue,hexec⟩ := readEach_some fin s hroom hv
  obtain ⟨hvd,hed⟩ := decided (readEach e fin s) (he ▸ hs)
  rw [hvd] at hvalue
  rw [hed,he] at hexec
  exact ⟨more,hexec ▸ hcalls,hvalue ▸ hexec ▸ h⟩

theorem lined_none {calls : List HeaderCall} {ls : List (List Byte)}
    (hroom : c.req.clientStream.length < clientStreamSize)
    (hv : value (readByte e uc) (c.arrived uc)=none)
    (h : Lined e fin s first ls calls (exec (readByte e uc) (c.arrived uc))) :
    Lined e fin (uc::s) first ls calls c := by
  obtain ⟨hvalue,hexec⟩ := readEach_none fin s hroom hv
  unfold Lined
  rw [hvalue,hexec]
  exact h

theorem zero_decided {P : Prop} (h : (0 : Int)=1 ∨ (0 : Int)=-1) : P := by
  rcases h with h | h <;> cases h

/-- The lines that are handed on are those of the header. -/
theorem readEach_follows (h : Scanning first cur c) (s : List Byte)
    (hok : ∀ v∈c.visits (exec (readEach e fin s) c),v.endsReading) :
    Lined e fin s first (completeLines (cur++s)) c.headerCalls c := by
  induction s generalizing first cur c with
  | nil =>
    have hlines : completeLines (cur++[])=[] := by
      rw [List.append_nil]
      exact completeLines_none h.noLf
    obtain ⟨-,ht,-⟩ := readMore_outcome { c with sys := { c.sys with recv := fin } }
    rw [hlines]
    refine ⟨[],?_,?_⟩
    · simp only [readEach,exec_bind,exec_modify]
      rw [List.append_nil]
      exact headerCalls_same ht
    · have hv : value (readEach e fin []) c=
          if value readMore { c with sys := { c.sys with recv := fin } }=0 then some 0
          else none := rfl
      rw [hv]
      split
      · exact .nil
      · exact .nothing _ _
  | cons uc s ih =>
    have hreading : c.req.status.reading=true := by
      rw [h.status]
      exact lineStatus_reading _ _
    have hbyte := readByte_passed (e := e) hreading uc
    by_cases hroom : c.req.clientStream.length < clientStreamSize
    · by_cases hlegal : legalByte uc=true
      · by_cases huc : uc=10
        · subst huc
          have hend := h.lf (e := e) fun v hmem =>
            hok v (mem_visits_before (readEach_rest (readEach_passed · s) hreading hroom) hmem)
          rw [completeLines_line h.noLf]
          cases hv : value (readByte e 10) (c.arrived 10) with
          | none =>
            rw [hv] at hend
            rw [(readEach_none fin s hroom hv).2] at hok
            apply lined_none hroom hv
            generalize exec (readByte e 10) (c.arrived 10)=c1 at hbyte hend hok
            cases hend with
            | next hline hscan hcalls =>
              obtain ⟨more,hmore,hfollows⟩ :=
                ih hscan fun v hmem => hok v (mem_visits_after hbyte hmem)
              refine ⟨_,?_,.cons hline hfollows⟩
              rw [hmore,hcalls,List.append_assoc]
              rfl
          | some ret =>
            rw [hv] at hend
            generalize he : exec (readByte e 10) (c.arrived 10)=c1 at hend
            cases hend with
            | blank hf hb hs hcalls =>
              subst hf
              exact lined_some hroom hv he (fun _ => hs) hcalls (.blank hb)
            | long hcalls =>
              have hnone := hcalls.trans (List.append_nil _).symm
              exact lined_some hroom hv he (fun h0 => zero_decided h0) hnone .nil
            | refused hline hcalls =>
              exact lined_some hroom hv he (fun h0 => zero_decided h0) hcalls (.one hline)
            | versionless hf hversion hs hcalls =>
              subst hf
              exact lined_some hroom hv he hs hcalls (.ofVersionless hversion)
        · obtain ⟨hv,he,hscan⟩ := h.byte (e := e) huc hlegal
          have hrest := ih hscan fun v hmem => hok v <| by
            rw [(readEach_none fin s hroom hv).2,he]
            exact hmem
          rw [List.append_assoc] at hrest
          apply lined_none hroom hv
          rw [he]
          exact hrest
      · have hillegal : (!legalByte uc)=true := by
          rw [Bool.eq_false_iff.mpr hlegal]
          rfl
        have hv : value (readByte e uc) (c.arrived uc)=some 0 := by
          rw [readByte,if_pos hillegal]
          rfl
        have hw := sendRBadRequest_works (T := fun _ => True) (S := Site.inTurn) e trivial
          (c.arrived uc)
        refine lined_some hroom hv rfl (fun h0 => zero_decided h0) ?_ .nil
        rw [readByte,if_pos hillegal,List.append_nil]
        exact hw.passed.headerCalls
    · have hfull : clientStreamSize-c.req.clientStream.length < 1 := by omega
      refine ⟨[],?_,?_⟩
      · simp only [readEach,exec_bind,value_getReq,exec_getReq,if_neg hroom]
        rw [List.append_nil]
        exact headerCalls_same (readMore_outcome c).2.1
      · have hv : value (readEach e fin (uc::s)) c=some 0 := by
          simp only [readEach,value_bind,value_getReq,exec_getReq,if_neg hroom,readMore,
            if_pos hfull]
          rfl
        rw [hv]
        exact .nil

end Each

/-! All the ways in which the bytes can come. -/

/-- The connection of a request that `sanitize_request` has cleared, with the bytes `p` in its
`client_stream` and the results `rs` for its calls of `read`. -/
def Conn.begun (c : Conn) (p : List Byte) (rs : List RecvRes) : Conn :=
  { c with
    req := { c.req.zeroed with clientStream := p }
    sys := { c.sys with recv := rs } }

/-- A way of cutting `s`: `p` is there already, `rs` brings the rest and `n` calls look at it. -/
structure Cut (s : List Byte) (fin : List RecvRes) (p : List Byte) (rs : List RecvRes) (n : Nat) :
    Prop where
  room : p.length≤clientStreamSize
  rest : ∃ t,Delivers fin rs t ∧ p++t=s
  calls : p.length+readsLeft rs < n

section Cuts

variable {e : Config} {fin : List RecvRes} {s p p' : List Byte} {rs rs' : List RecvRes}
  {n n' : Nat} {c : Conn}

theorem begun_scanning (c : Conn) (rs : List RecvRes) : Scanning true [] (c.begun [] rs) := by
  refine ⟨rfl,Nat.le_refl _,rfl,List.not_mem_nil,rfl,fun hcr => ?_,⟨fun _ => rfl,fun _ => rfl⟩,
    fun _ => rfl⟩
  cases hcr

/-- Whatever the cut, the reading is the one byte by byte. -/
theorem Cut.each (hfin : Stops fin) (h : Cut s fin p rs n) :
    SameEnd (readHeaders e n) (readEach e fin s) (c.begun p rs) (c.begun [] []) := by
  obtain ⟨t,hd,hs⟩ := h.rest
  have htracks : Tracks (c.begun p rs) (c.begun [] []) p :=
    ⟨rfl,rfl,rfl,h.room,rfl,fun hcr => by cases hcr⟩
  rw [← hs]
  exact readHeaders_each hfin n htracks hd h.calls

theorem endsReading_parsed (v : Visit) : v.parsed.endsReading ↔ v.endsReading := Iff.rfl

/-- What is true of the visits of one reading is true of those of the other. -/
theorem Conn.Like.visits {a b a' b' : Conn} (h : a'.Like b') (hstart : a.trace=b.trace)
    (hok : ∀ v∈a.visits a',v.endsReading) : ∀ v∈b.visits b',v.endsReading := by
  intro v hv
  have hmap : (a.visits a').map Visit.parsed=(b.visits b').map Visit.parsed := by
    have htrace : a'.trace.map Visit.parsed=b'.trace.map Visit.parsed := h.map fun c => c.trace
    rw [Conn.visits,Conn.visits,List.map_drop,List.map_drop,htrace,hstart]
  have hmem : v.parsed∈(a.visits a').map Visit.parsed := by
    rw [hmap]
    exact List.mem_map_of_mem hv
  obtain ⟨u,hu,hsame⟩ := List.mem_map.mp hmem
  rw [← endsReading_parsed,← hsame,endsReading_parsed]
  exact hok u hu

theorem Cut.lines (hfin : Stops fin) (h : Cut s fin p rs n)
    (hok : ∀ v∈(c.begun p rs).visits (exec (readHeaders e n) (c.begun p rs)),v.endsReading) :
    ∃ calls,(exec (readHeaders e n) (c.begun p rs)).headerCalls=c.headerCalls++calls ∧
      Follows true (completeLines s)
        ((exec (readHeaders e n) (c.begun p rs)).req.httpVersion=.http09)
        (value (readHeaders e n) (c.begun p rs)) calls := by
  have heach := h.each (e := e) (c := c) hfin
  obtain ⟨calls,hcalls,hfollows⟩ :=
    readEach_follows (begun_scanning c []) s (heach.like.visits rfl hok)
  have hversion : (exec (readHeaders e n) (c.begun p rs)).req.httpVersion=
      (exec (readEach e fin s) (c.begun [] [])).req.httpVersion :=
    heach.like.map fun c => c.req.httpVersion
  rw [heach.like.headerCalls,heach.value,hversion]
  exact ⟨calls,hcalls,hfollows⟩

/-- However the bytes of a client are cut, `read_header` calls the same functions with the same
strings and comes to the same verdict; and the strings are the lines of the header, as long as
no request without version is read on behind its request line. -/
theorem header_cuts (e : Config) (c : Conn) (hfin : Stops fin) (h : Cut s fin p rs n)
    (h' : Cut s fin p' rs' n') :
    value (readHeaders e n) (c.begun p rs)=value (readHeaders e n') (c.begun p' rs') ∧
    (exec (readHeaders e n) (c.begun p rs)).Like (exec (readHeaders e n') (c.begun p' rs')) ∧
    (exec (readHeaders e n) (c.begun p rs)).req.status=
      (exec (readHeaders e n') (c.begun p' rs')).req.status ∧
    (exec (readHeaders e n) (c.begun p rs)).req.responseStatus=
      (exec (readHeaders e n') (c.begun p' rs')).req.responseStatus ∧
    (exec (readHeaders e n) (c.begun p rs)).headerCalls=
      (exec (readHeaders e n') (c.begun p' rs')).headerCalls ∧
    ((∀ v∈(c.begun p rs).visits (exec (readHeaders e n) (c.begun p rs)),v.endsReading) →
      ∃ calls,(exec (readHeaders e n) (c.begun p rs)).headerCalls=c.headerCalls++calls ∧
        Follows true (completeLines s)
          ((exec (readHeaders e n) (c.begun p rs)).req.httpVersion=.http09)
          (value (readHeaders e n) (c.begun p rs)) calls) := by
  have heach := h.each (e := e) (c := c) hfin
  have heach' := h'.each (e := e) (c := c) hfin
  have hlike := Eq.trans heach.like (Eq.symm heach'.like)
  have hsame : (exec (readHeaders e n) (c.begun p rs)).Like
    (exec (readHeaders e n') (c.begun p' rs')) := hlike
  exact ⟨heach.value.trans heach'.value.symm,hsame,hsame.status,
    hsame.map fun c => c.req.responseStatus,hsame.headerCalls,h.lines hfin⟩

end Cuts

theorem sanitize_begun (c : Conn) (rs : List RecvRes) :
    ({ c with req := c.req.sanitize,sys := { c.sys with recv := rs } } : Conn)=
      c.begun (c.req.clientStream.drop c.req.parsePos) rs := rfl

def headerStart : Conn := { versionless with sys := versionlessWorld }

/-- What the program of a script alias is sent. -/
def scriptHeader : Text := str "GET /s HTTP/1.0\r\nA: b\r\n\r\n"

/-- It comes behind the first bytes, with an interruption between a CR and its LF. -/
def scriptPieces : List RecvRes :=
  [.fail .again,.data (str "P/1.0\r"),.fail .intr,.data (str "\nA: b\r\n\r\n")]

theorem cut_once {s : List Byte} {n : Nat} (hs : s≠[]) (hn : 2*s.length+1 < n) :
    Cut s [] [] [.data s] n := by
  refine ⟨Nat.zero_le _,⟨s++[],.data hs .done,List.append_nil _⟩,?_⟩
  simpa only [readsLeft,List.length_nil,Nat.zero_add,Nat.add_zero] using hn

theorem cut_pieces : Cut scriptHeader [] (str "GET /s HTT") scriptPieces 60 :=
  ⟨by decide,⟨_,.again (.data (by decide) (.intr (.data (by decide) .done))),by decide⟩,by decide⟩

theorem header_cuts_pieces :
    value (readHeaders versionlessConfig 60) (headerStart.begun [] [.data scriptHeader])=
      value (readHeaders versionlessConfig 60) (headerStart.begun (str "GET /s HTT") scriptPieces) ∧
    ∃ calls,(exec (readHeaders versionlessConfig 60)
        (headerStart.begun [] [.data scriptHeader])).headerCalls=headerStart.headerCalls++calls ∧
      Follows true (completeLines scriptHeader)
        ((exec (readHeaders versionlessConfig 60)
          (headerStart.begun [] [.data scriptHeader])).req.httpVersion=.http09)
        (value (readHeaders versionlessConfig 60) (headerStart.begun [] [.data scriptHeader]))
        calls := by
  obtain ⟨hvalue,-,-,-,-,hlines⟩ := header_cuts versionlessConfig headerStart .silent
    (cut_once (s := scriptHeader) (n := 60) (by decide) (by decide)) cut_pieces
  exact ⟨hvalue,hlines (by decide +kernel)⟩

/-- A request line without version, with a line behind. -/
def shortHeader : Text := str "GET /s\nA: b\n\n"

/-- It ends the header that it begins. -/
theorem header_cuts_short :
    Cut shortHeader [] [] [.data shortHeader] 60 ∧
    ¬∃ calls,(exec (readHeaders versionlessConfig 60)
        (headerStart.begun [] [.data shortHeader])).headerCalls=headerStart.headerCalls++calls ∧
      Follows true (completeLines shortHeader) False
        (value (readHeaders versionlessConfig 60) (headerStart.begun [] [.data shortHeader]))
        calls := by
  refine ⟨cut_once (by decide) (by decide),?_⟩
  rintro ⟨calls,hcalls,hfollows⟩
  have hrun : (exec (readHeaders versionlessConfig 60)
      (headerStart.begun [] [.data shortHeader])).headerCalls=
      headerStart.headerCalls++[.logline (str "GET /s"),.headerEnd] := by decide +kernel
  have hshort : calls=[.logline (str "GET /s"),.headerEnd] :=
    List.append_cancel_left (hcalls.symm.trans hrun)
  clear hcalls hrun
  generalize value (readHeaders versionlessConfig 60) _=v at hfollows
  cases hfollows with
  | reading h => exact absurd h (by decide)
  | @refused more h =>
    cases more with
    | nil => cases hshort
    | cons l more =>
      cases more with
      | nil => cases hshort
      | cons l' more => cases hshort
  | ended h => exact absurd hshort (by decide)
  | versionless h => exact h

end Crotalus
