import Crotalus.Properties.CleanPathname
import Crotalus.Properties.HostName
import Crotalus.Properties.IndexLinks
import Crotalus.Properties.ReplyFrame

namespace Crotalus

open Stateful

/-! The redirect of a directory that was named without its final `/`: where it leads. -/

/-- The port in a URL, unless it is the usual one. -/
def portText (e : Config) : Text := if e.serverPort≠80 then [58]++simpleItoa e.serverPort else []

/-- The URL that `init_get` moves the directory to. -/
def redirectUrl (e : Config) (r : Request) : Text :=
  str "http://"++r.host.getD e.serverName++portText e++r.requestUri++[slash]

/-- The text of the `Location` field. -/
def redirectTarget (e : Config) (r : Request) : Text := (redirectUrl e r).flatMap escapeHttp

/-- A server's name that a URL can hold as it is. -/
structure PlainHost (host : Text) : Prop where
  ne : host≠[]
  plain : ∀ b∈host,needsEscape b=false ∧ b≠47

/-- The request line with which a client asks for a target. -/
def askLine (target : Text) : Text := str "GET "++target++str " HTTP/1.1"

/-- The request whose line asks for the target gets this path, and no query string. -/
structure LeadsTo (e : Config) (target path : Text) (c : Conn) : Prop where
  line : value (processLogline e (askLine target)) c=true
  uri : value (decodeUri e) (exec (processLogline e (askLine target)) c)=true
  path : (exec (decodeUri e) (exec (processLogline e (askLine target)) c)).req.requestUri=path
  query : (exec (decodeUri e) (exec (processLogline e (askLine target)) c)).req.queryString=none

section Escape

/-- A byte and its escape: two hexadecimal digits in the range that is read back, for the bytes
that can be written so, and the byte itself for those that need none. -/
theorem escaped_cases (b : Byte) :
    (needsEscape b=true → (inRange (hexDigit (b.toNat/16),hexDigit (b.toNat%16))=true ↔
      32 ≤ b ∧ b ≤ 126)) ∧ (needsEscape b=false → 32 ≤ b ∧ b ≤ 126) := by
  have hall : ∀ n < 256,
      (needsEscape (UInt8.ofNat n)=true → (inRange (hexDigit (n/16),hexDigit (n%16))=true ↔
        32 ≤ UInt8.ofNat n ∧ UInt8.ofNat n ≤ 126)) ∧
      (needsEscape (UInt8.ofNat n)=false → 32 ≤ UInt8.ofNat n ∧ UInt8.ofNat n ≤ 126) := by
    decide +kernel
  have h := hall b.toNat b.toNat_lt
  rwa [UInt8.ofNat_toNat] at h

/-- What is read from a text's escapes, when no question stands in them, is the text, and this
happens just when the text is printable. -/
theorem unescapeUri_escaped_iff (u path : Text) :
    unescapeUri (u.flatMap escapeHttp)=some (path,none) ↔
      path=u ∧ ∀ b∈u,32 ≤ b ∧ b ≤ 126 ∧ b≠63 := by
  constructor
  · intro h
    induction u generalizing path with
    | nil => exact ⟨(congrArg Prod.fst (Option.some.inj h)).symm,fun b hb => absurd hb List.not_mem_nil⟩
    | cons b u ih =>
      have hq : b≠63 := by
        rintro rfl
        rw [List.flatMap_cons,escapeHttp,if_neg (by decide),List.singleton_append,
          unescapeUri_stop (.inl rfl)] at h
        cases h
      have hlater : ∀ d,(unescapeUri (u.flatMap escapeHttp)).map (fun r => (d::r.1,r.2))=
          some (path,none) → path=d::u ∧ ∀ b∈u,32 ≤ b ∧ b ≤ 126 ∧ b≠63 := by
        intro d hd
        obtain ⟨⟨rest,query⟩,hread,heq⟩ := Option.map_eq_some_iff.mp hd
        obtain ⟨rfl,rfl⟩ := Prod.mk.inj heq
        obtain ⟨rfl,hall⟩ := ih rest hread
        exact ⟨rfl,hall⟩
      rw [List.flatMap_cons,escapeHttp] at h
      obtain ⟨hneeds,hplain⟩ := escaped_cases b
      cases hesc : needsEscape b with
      | true =>
        rw [hesc,if_pos rfl] at h
        change unescapeUri (37::_::_::u.flatMap escapeHttp)=_ at h
        rw [unescapeUri_escape] at h
        by_cases hin : inRange (hexDigit (b.toNat/16),hexDigit (b.toNat%16))=true
        · obtain ⟨hlow,hhigh⟩ := (hneeds hesc).mp hin
          rw [if_pos hin,(escape_decodes hlow hhigh).2] at h
          obtain ⟨rfl,hall⟩ := hlater b h
          exact ⟨rfl,List.forall_mem_cons.mpr ⟨⟨hlow,hhigh,hq⟩,hall⟩⟩
        · rw [if_neg hin] at h
          cases h
      | false =>
        obtain ⟨h37,h35⟩ := unescaped_plain hesc hq
        rw [hesc,if_neg Bool.false_ne_true,List.singleton_append,unescapeUri_plain h37 hq h35] at h
        obtain ⟨hlow,hhigh⟩ := hplain hesc
        obtain ⟨rfl,hall⟩ := hlater b h
        exact ⟨rfl,List.forall_mem_cons.mpr ⟨⟨hlow,hhigh,hq⟩,hall⟩⟩
  · rintro ⟨rfl,h⟩
    obtain ⟨query,hread,hnone⟩ := unescapeUri_escaped fun b hb => ⟨(h b hb).1,(h b hb).2.1⟩
    have htake : path.takeWhile (· ≠ 63)=path :=
      List.takeWhile_eq_self_iff.mpr fun b hb => decide_eq_true (h b hb).2.2
    rw [← funext escapeByte_eq,hread,htake,hnone fun hmem => (h 63 hmem).2.2 rfl]

end Escape

section Clean

variable {u : Text}

theorem cleanSegments_append (segs : List Text) (seg : Text) :
    cleanSegments (segs++[seg])=segs.filter (fun s => !dropped s)++[seg] := by
  induction segs with
  | nil => rfl
  | cons s segs ih =>
    have hne : segs++[seg]≠[] := List.append_ne_nil_of_right_ne_nil _ (List.cons_ne_nil _ _)
    rw [List.cons_append,cleanSegments_cons hne,ih]
    cases hs : dropped s with
    | true =>
      rw [if_pos rfl,List.filter_cons_of_neg (by rw [hs]; decide)]
    | false =>
      rw [if_neg Bool.false_ne_true,List.filter_cons_of_pos (by rw [hs]; rfl),List.cons_append]

/-- A clean path to which a `/` is added stays as it is just when its last segment is one that
`clean_pathname` keeps. -/
theorem cleanPathname_slash (hroot : u.head?=some slash) (hclean : cleanPathname u=u) :
    cleanPathname (u++[slash])=u++[slash] ↔ dropped ((segments u).getLastD [])=false := by
  obtain ⟨t,rfl⟩ : ∃ t,u=slash::t := by
    cases u with
    | nil => cases hroot
    | cons c t => exact ⟨t,by rw [Option.some.inj hroot]⟩
  obtain ⟨segs,last,hsegs⟩ : ∃ segs last,segments t=segs++[last] :=
    ⟨_,_,(List.dropLast_append_getLast (segments_ne t)).symm⟩
  have hkept := cleanPathname_segments (slash::t)
  rw [hclean,segments_slash,List.headD_cons,List.tail_cons,hsegs,cleanSegments_append] at hkept
  have hall : segs.filter (fun s => !dropped s)=segs :=
    (List.append_cancel_right (List.cons.inj hkept).2).symm
  have hlong : segments (slash::t++[slash])=[]::(segs++[last]++[[]]) := by
    have happ : segments (slash::t++[slash])=segments (slash::t)++segments [] :=
      Path.segments_append_sep slash (slash::t) []
    rw [happ,segments_slash,hsegs]
    rfl
  have hlast : (segments (slash::t)).getLastD []=last := by
    rw [segments_slash,hsegs,← List.cons_append,List.getLastD_concat]
  have hboth : cleanPathname (slash::t++[slash])=slash::t++[slash] ↔
      (segs++[last]).filter (fun s => !dropped s)=segs++[last] := by
    have hclean' := cleanPathname_segments (slash::t++[slash])
    rw [hlong,List.headD_cons,List.tail_cons,cleanSegments_append] at hclean'
    constructor
    · intro h
      rw [h,hlong,List.cons.injEq,List.append_cancel_right_eq] at hclean'
      exact hclean'.2.symm
    · intro h
      rw [h,← hlong] at hclean'
      exact Path.segments_injective slash hclean'
  rw [hboth,hlast,List.filter_append,hall,List.append_cancel_left_eq]
  cases hd : dropped last with
  | true => simp [hd]
  | false => simp [hd]

end Clean

section Ask

variable {e : Config} {target uri : Text} {host : Option Text} {c : Conn}

/-- How the line that asks for a target falls into its parts. -/
theorem askLine_parts (hspace : 32∉target) (hne : target≠[]) :
    ¬(askLine target).length < 5 ∧
    parseMethod (askLine target)=some (.get,target++str " HTTP/1.1") ∧
    (target++str " HTTP/1.1").dropWhile (· = 32)=target++str " HTTP/1.1" ∧
    (target++str " HTTP/1.1").takeWhile (· ≠ 32)=target := by
  have hplain : ∀ b∈target,decide (b≠32)=true :=
    fun b hb => decide_eq_true fun heq => hspace (heq ▸ hb)
  refine ⟨?_,?_,?_,?_⟩
  · have hlen : (askLine target).length=4+target.length+9 := by
      rw [askLine,List.length_append,List.length_append]
      rfl
    omega
  · have hget : startsWith (askLine target) (str "GET ")=true := by
      rw [askLine,List.append_assoc,startsWith,List.take_left]
      exact decide_eq_true rfl
    have hdrop : (askLine target).drop 4=target++str " HTTP/1.1" := by
      rw [askLine,List.append_assoc]
      rfl
    rw [parseMethod,if_pos hget,hdrop]
  · cases target with
    | nil => exact absurd rfl hne
    | cons b t =>
      have hb : b≠32 := of_decide_eq_true (hplain b List.mem_cons_self)
      exact List.dropWhile_cons_of_neg (by simpa using hb)
  · rw [List.takeWhile_append_of_pos hplain]
    exact List.append_nil target

theorem processLogline_long (hspace : 32∉target) (hlong : maxHeaderLength < target.length) :
    value (processLogline e (askLine target)) c=false := by
  have hne : target≠[] := by
    rintro rfl
    exact absurd hlong (by decide)
  obtain ⟨hlen,hmethod,hskip,htake⟩ := askLine_parts hspace hne
  simp only [processLogline,value_bind,if_neg hlen,hmethod,hskip,htake,if_pos hlong,
    badRequest]
  rfl

theorem processLogline_ask (hspace : 32∉target) (hne : target≠[])
    (hshort : target.length ≤ maxHeaderLength) (hparse : parseTarget target=some (uri,host)) :
    value (processLogline e (askLine target)) c=true ∧
      (exec (processLogline e (askLine target)) c).req.requestUri=uri ∧
      (exec (processLogline e (askLine target)) c).req.queryString=c.req.queryString := by
  obtain ⟨hlen,hmethod,hskip,htake⟩ := askLine_parts hspace hne
  have hversion : parseVersion ((target++str " HTTP/1.1").drop target.length)=some .http11 := by
    rw [List.drop_left]
    decide
  simp only [processLogline,value_bind,exec_bind,if_neg hlen,hmethod,hskip,htake,
    if_neg (Nat.not_lt.mpr hshort),hparse,hversion]
  exact ⟨rfl,rfl,rfl⟩

end Ask

section Target

variable {e : Config} {r : Request} {c : Conn} {u : Text}

theorem flatMap_plain {text : Text} (h : ∀ b∈text,needsEscape b=false) :
    text.flatMap escapeHttp=text := by
  have hself : ∀ b∈text,escapeHttp b=[b] := fun b hb => if_neg (Bool.eq_false_iff.mp (h b hb))
  rw [List.flatMap_congr hself]
  exact List.flatMap_singleton' text

theorem escaped_noSpace (url : Text) : 32∉url.flatMap escapeHttp := by
  have hall : ∀ n < 256,32∉escapeHttp (UInt8.ofNat n) := by decide +kernel
  intro hmem
  obtain ⟨b,-,hb⟩ := List.mem_flatMap.mp hmem
  have hb' := hall b.toNat b.toNat_lt
  rw [UInt8.ofNat_toNat] at hb'
  exact hb' hb

/-- The names that `check_host` lets pass are plain. -/
theorem checkHost_plain {host : Text} (h : 1 ≤ checkHost host) : PlainHost host := by
  have hchars : ∀ n < 256,isHostChar (UInt8.ofNat n)=true →
      needsEscape (UInt8.ofNat n)=false ∧ UInt8.ofNat n≠47 := by decide +kernel
  rw [checkHost_eq] at h
  split at h
  · rename_i hrule
    refine ⟨List.ne_nil_of_length_pos hrule.1.short.1,fun b hb => ?_⟩
    have hb' := hchars b.toNat b.toNat_lt
    rw [UInt8.ofNat_toNat] at hb'
    exact hb' (hrule.1.chars b hb)
  · exact absurd h (by decide)

theorem portText_plain (e : Config) : ∀ b∈portText e,needsEscape b=false ∧ b≠47 := by
  have hdigit : ∀ n < 256,isDigit (UInt8.ofNat n)=true →
      needsEscape (UInt8.ofNat n)=false ∧ UInt8.ofNat n≠47 := by decide +kernel
  intro b hb
  rw [portText] at hb
  split at hb
  · rcases List.mem_cons.mp hb with rfl|hb
    · decide
    · have hb' := hdigit b.toNat b.toNat_lt
      rw [UInt8.ofNat_toNat] at hb'
      exact hb' ((simpleItoa_decimal e.serverPort).digits b hb)
  · cases hb

/-- Host and port stand in the target as they are, and the path escaped. -/
theorem redirectTarget_eq (hhost : PlainHost (r.host.getD e.serverName)) :
    redirectTarget e r=str "http://"++((r.host.getD e.serverName++portText e)++
      (r.requestUri++[slash]).flatMap escapeHttp) := by
  have hhttp : (str "http://").flatMap escapeHttp=str "http://" := by decide
  rw [redirectTarget,redirectUrl]
  simp only [List.append_assoc,List.flatMap_append]
  rw [hhttp,flatMap_plain fun b hb => (hhost.plain b hb).1,
    flatMap_plain fun b hb => (portText_plain e b hb).1]

/-- The target is read as the host with its port and the escaped path. -/
theorem redirectTarget_parse (hhost : PlainHost (r.host.getD e.serverName))
    (hroot : r.requestUri.head?=some slash) : parseTarget (redirectTarget e r)=
      some ((r.requestUri++[slash]).flatMap escapeHttp,some (r.host.getD e.serverName++portText e)) := by
  have hname : ∀ b∈r.host.getD e.serverName++portText e,decide (b≠47)=true := by
    intro b hb
    rcases List.mem_append.mp hb with hb|hb
    · exact decide_eq_true (hhost.plain b hb).2
    · exact decide_eq_true (portText_plain e b hb).2
  have hne : r.host.getD e.serverName++portText e≠[] :=
    List.append_ne_nil_of_left_ne_nil hhost.ne _
  obtain ⟨t,ht⟩ : ∃ t,(r.requestUri++[slash]).flatMap escapeHttp=47::t := by
    cases hu : r.requestUri with
    | nil =>
      rw [hu] at hroot
      cases hroot
    | cons b t =>
      rw [hu] at hroot
      rw [Option.some.inj hroot]
      exact ⟨_,rfl⟩
  have hstart : startsWith (redirectTarget e r) (str "http://")=true := by
    rw [redirectTarget_eq hhost,startsWith,List.take_left]
    exact decide_eq_true rfl
  have hdrop : (redirectTarget e r).drop 7=(r.host.getD e.serverName++portText e)++47::t := by
    rw [redirectTarget_eq hhost,ht]
    rfl
  have htake : ((r.host.getD e.serverName++portText e)++47::t).takeWhile (· ≠ 47)=
      r.host.getD e.serverName++portText e := by
    rw [List.takeWhile_append_of_pos hname]
    exact List.append_nil _
  have hpath : ((r.host.getD e.serverName++portText e)++47::t).dropWhile (· ≠ 47)=47::t := by
    rw [List.dropWhile_append_of_pos hname]
    rfl
  rw [parseTarget,if_pos hstart]
  simp only [hdrop,htake,hpath,ht]
  rw [if_neg]
  rintro (h|h)
  · exact hne h
  · cases h

/-- The escapes of a path are decoded to it just when it is printable, asks no question and is
clean. -/
theorem decodeUri_path_iff (huri : c.req.requestUri=u.flatMap escapeHttp)
    (hquery : c.req.queryString=none) (hroot : u.head?=some slash) :
    (value (decodeUri e) c=true ∧ (exec (decodeUri e) c).req.requestUri=u ∧
      (exec (decodeUri e) c).req.queryString=none) ↔
    (∀ b∈u,32 ≤ b ∧ b ≤ 126 ∧ b≠63) ∧ cleanPathname u=u := by
  have hread := unescapeUri_escaped_iff u
  simp only [decodeUri,value_bind,exec_bind,value_getReq,exec_getReq,huri]
  cases hres : unescapeUri (u.flatMap escapeHttp) with
  | none =>
    rw [hres] at hread
    constructor
    · intro h
      cases h.1
    · intro h
      cases (hread u).mpr ⟨rfl,h.1⟩
  | some res =>
    obtain ⟨path,query⟩ := res
    rw [hres] at hread
    simp only [value_bind,exec_bind,exec_modReq,exec_ite,value_ite]
    by_cases hhead : (cleanPathname path).head?≠some 47
    · rw [if_pos hhead]
      constructor
      · intro h
        cases h.1
      · rintro ⟨hall,hclean⟩
        obtain ⟨rfl,-⟩ := Prod.mk.inj (Option.some.inj ((hread u).mpr ⟨rfl,hall⟩))
        rw [hclean] at hhead
        exact absurd hroot hhead
    · rw [if_neg hhead,if_neg hhead]
      constructor
      · rintro ⟨-,hpath,hnone⟩
        have hboth : query.or c.req.queryString=none := hnone
        obtain rfl : query=none := (Option.or_eq_none_iff.mp hboth).1
        obtain ⟨rfl,hall⟩ := (hread path).mp rfl
        exact ⟨hall,hpath⟩
      · rintro ⟨hall,hclean⟩
        obtain ⟨rfl,rfl⟩ := Prod.mk.inj (Option.some.inj ((hread u).mpr ⟨rfl,hall⟩))
        exact ⟨rfl,hclean,hquery⟩

end Target

section Back

variable {e : Config} {c d : Conn}

/-- Where the redirect of a directory leads: the client that asks for the target of the
`Location` field gets the path with its `/`, just when the path is printable, asks no question,
does not end in a dot segment and the target is short enough to be read. -/
theorem redirect_leadsBack (hroot : c.req.requestUri.head?=some slash)
    (hclean : cleanPathname c.req.requestUri=c.req.requestUri)
    (hserver : c.req.host=none → PlainHost e.serverName)
    (hchosen : ∀ host,c.req.host=some host → 1 ≤ checkHost host)
    (hquery : d.req.queryString=none) :
    (value (portOk e) c=true → (redirectUrl e c.req).length ≤ 3*maxPathLength+128 →
      exec (redirectDir e) c=exec (Reply.send e (.movedPerm (redirectUrl e c.req)))
        (exec (portOk e) c)) ∧
    (∀ t,str "Location: "++redirectTarget e c.req∈
      Reply.lines e t c.req (.movedPerm (redirectUrl e c.req))) ∧
    (LeadsTo e (redirectTarget e c.req) (c.req.requestUri++[slash]) d ↔
      (∀ b∈c.req.requestUri,32 ≤ b ∧ b ≤ 126 ∧ b≠63) ∧
      dropped ((segments c.req.requestUri).getLastD [])=false ∧
      (redirectTarget e c.req).length ≤ maxHeaderLength) := by
  have hhost : PlainHost (c.req.host.getD e.serverName) := by
    cases hh : c.req.host with
    | none => exact hserver hh
    | some host => exact checkHost_plain (hchosen host hh)
  refine ⟨?reply,?location,?back⟩
  case reply =>
    intro hport hroom
    have hlen : ¬7+(c.req.host.getD e.serverName).length+(portText e).length+
        c.req.requestUri.length+1 > 3*maxPathLength+128 := by
      have hurl : (redirectUrl e c.req).length=7+(c.req.host.getD e.serverName).length+
          (portText e).length+c.req.requestUri.length+1 := by
        rw [redirectUrl]
        simp only [List.length_append]
        rfl
      omega
    rw [portText] at hlen
    simp only [redirectDir,exec_bind,value_getReq,exec_getReq,hport,Bool.not_true,if_neg hlen]
    rfl
  case location =>
    intro t
    exact List.mem_append_right _ (List.mem_cons_of_mem _ List.mem_cons_self)
  case back =>
    have hspace : 32∉redirectTarget e c.req := escaped_noSpace _
    have hne : redirectTarget e c.req≠[] := by
      rw [redirectTarget_eq hhost]
      exact List.append_ne_nil_of_left_ne_nil (by decide) _
    have hparse := redirectTarget_parse hhost hroot
    have hslash : (c.req.requestUri++[slash]).head?=some slash := by
      rw [List.head?_append,hroot]
      rfl
    have hprintable : (∀ b∈c.req.requestUri++[slash],32 ≤ b ∧ b ≤ 126 ∧ b≠63) ↔
        ∀ b∈c.req.requestUri,32 ≤ b ∧ b ≤ 126 ∧ b≠63 := by
      rw [List.forall_mem_append,and_iff_left]
      intro b hb
      rw [List.mem_singleton.mp hb]
      decide
    rw [← cleanPathname_slash hroot hclean,← hprintable,← and_assoc]
    by_cases hshort : (redirectTarget e c.req).length ≤ maxHeaderLength
    · obtain ⟨hline,huri,hasks⟩ := processLogline_ask (e := e) (c := d) hspace hne hshort hparse
      rw [and_iff_left hshort,← decodeUri_path_iff huri (hasks.trans hquery) hslash]
      exact ⟨fun h => ⟨h.uri,h.path,h.query⟩,fun h => ⟨hline,h.1,h.2.1,h.2.2⟩⟩
    · constructor
      · intro h
        have hfails := processLogline_long (e := e) (c := d) hspace (Nat.lt_of_not_le hshort)
        rw [h.line] at hfails
        cases hfails
      · exact fun h => absurd h.2 hshort

/-- A directory whose name has a space in it. -/
def spacedConfig : Config := { serverName := str "a.example", serverPort := 8080 }
def spacedConn : Conn := { req := { requestUri := str "/a b" } }

theorem redirect_leadsBack_spaced :
    redirectTarget spacedConfig spacedConn.req=str "http://a.example:8080/a%20b/" ∧
    exec (redirectDir spacedConfig) spacedConn=
      exec (Reply.send spacedConfig (.movedPerm (redirectUrl spacedConfig spacedConn.req)))
        (exec (portOk spacedConfig) spacedConn) ∧
    LeadsTo spacedConfig (redirectTarget spacedConfig spacedConn.req) (str "/a b/") {} := by
  have hplain : PlainHost (str "a.example") := ⟨by decide,by decide +kernel⟩
  obtain ⟨hreply,-,hback⟩ := redirect_leadsBack (e := spacedConfig) (c := spacedConn) (d := {}) rfl
    (by decide +kernel) (fun _ => hplain) (fun _ h => by cases h) rfl
  exact ⟨by decide +kernel,hreply rfl (by decide +kernel),
    hback.mpr ⟨by decide +kernel,by decide +kernel,by decide +kernel⟩⟩

end Back

end Crotalus
