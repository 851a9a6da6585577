import Crotalus.Server.Header
import Crotalus.Spec.Uri
import Crotalus.Spec.Sys

namespace Crotalus

open Stateful

/-! Containment of the translated path in the document root or in the target of an alias. -/

/-- `pathname` stays inside `root`, and `rest`, which is the part of it that comes from the
request, has no `..` in it. -/
def Contained (root rest pathname : Text) : Prop :=
  Path.Inside slash dot root pathname ∧ ∀ seg ∈ segments rest, seg ≠ [dot, dot]

/-- The last segment of a path. -/
def lastSegment (path : Text) : Text := (segments path).getLastD []

/-- Behind an alias that ends in `/` the rest of the URI is put directly behind its real name:
that is inside when there is no rest, or a `/` comes between, or by the last segment of the
real name. -/
def Alias.joins (a : Alias) (rest : Text) : Prop :=
  rest = [] ∨ rest.head? = some slash ∨ Path.Joins slash dot a.realname rest

instance (a : Alias) (rest : Text) : Decidable (a.joins rest) := by
  unfold Alias.joins
  infer_instance

/-! Segments of a cleaned URI. -/

theorem segments_dropLast_last (s : Text) :
    (segments s).dropLast ++ [lastSegment s] = segments s := by
  obtain ⟨init, last, h⟩ : ∃ init last, segments s = init ++ [last] :=
    ⟨_, _, (List.dropLast_append_getLast (segments_ne s)).symm⟩
  rw [lastSegment, h]
  simp

theorem no_up_iff {rest : Text} (h : ∀ seg ∈ (segments rest).dropLast, seg ≠ [dot, dot]) :
    (∀ seg ∈ segments rest, seg ≠ [dot, dot]) ↔ lastSegment rest ≠ [dot, dot] := by
  constructor
  · intro hall
    refine hall _ ?_
    rw [← segments_dropLast_last]
    exact List.mem_append_right _ (List.mem_singleton.mpr rfl)
  · intro hlast seg hseg
    rw [← segments_dropLast_last] at hseg
    rcases List.mem_append.mp hseg with hseg | hseg
    · exact h seg hseg
    · rw [List.mem_singleton.mp hseg]
      exact hlast

/-- In a cleaned URI only the last segment can be `.` or `..`. -/
theorem clean_dropLast {path : Text} (hs : (cleanPathname path).head? = some slash)
    {seg : Text} (h : seg ∈ (segments (cleanPathname path)).dropLast) :
    seg ≠ [dot] ∧ seg ≠ [dot, dot] := by
  obtain ⟨rest, hrest⟩ : ∃ rest, cleanPathname path = slash :: rest := by
    match hc : cleanPathname path, hs with
    | b :: rest, hs => exact ⟨rest, by rw [Option.some.inj hs]⟩
  have hsegs := cleanPathname_segments path
  have hhead : (segments path).headD [] = [] := by
    rw [hrest, segments_slash, List.cons.injEq] at hsegs
    exact hsegs.1.symm
  rw [hsegs, hhead] at h
  have hmem : seg = [] ∨ seg ∈ (cleanSegments (segments path).tail).dropLast := by
    cases hc : cleanSegments (segments path).tail with
    | nil =>
      rw [hc] at h
      cases h
    | cons t ts =>
      rw [hc, List.dropLast_cons_of_ne_nil (List.cons_ne_nil t ts)] at h
      exact List.mem_cons.mp h
  rcases hmem with rfl | hmem
  · exact ⟨(List.cons_ne_nil _ _).symm, (List.cons_ne_nil _ _).symm⟩
  · have hkeep := dropLast_cleanSegments hmem
    refine ⟨fun hc => ?_, fun hc => ?_⟩ <;> rw [hc] at hkeep <;> cases hkeep

theorem lastSegment_clean (path : Text) :
    lastSegment (cleanPathname path) = lastSegment path := by
  obtain ⟨x, xs, h⟩ := List.exists_cons_of_ne_nil (segments_ne path)
  have hlast := getLast_cleanSegments xs
  rw [lastSegment, lastSegment, cleanPathname_segments, h, List.getLastD_eq_getLast?,
    List.getLastD_eq_getLast?]
  change ((x :: cleanSegments xs).getLast?).getD [] = ((x :: xs).getLast?).getD []
  rw [List.getLast?_cons, List.getLast?_cons, hlast]

/-! The two branches. -/

/-- Under the document root, with or without the directory of a virtual host. -/
theorem contained_root_iff {root mid path : Text} (hs : (cleanPathname path).head? = some slash)
    (hmid : mid = [] ∨ ∃ ip, mid = slash :: ip ∧ ∀ seg ∈ segments ip, seg ≠ [dot, dot]) :
    Contained root (cleanPathname path) (root ++ mid ++ cleanPathname path) ↔
      lastSegment path ≠ [dot, dot] := by
  have hup := no_up_iff fun seg hseg => (clean_dropLast hs hseg).2
  rw [lastSegment_clean] at hup
  rw [Contained, hup]
  refine and_iff_right_of_imp fun hlast => ?_
  have hall := hup.mpr hlast
  obtain ⟨rest, hrest⟩ : ∃ rest, cleanPathname path = slash :: rest := by
    match hc : cleanPathname path, hs with
    | b :: rest, hs => exact ⟨rest, by rw [Option.some.inj hs]⟩
  rw [hrest, segments_slash] at hall
  have htail : ∀ seg ∈ segments rest, seg ≠ [dot, dot] :=
    fun seg h => hall seg (List.mem_cons_of_mem _ h)
  rcases hmid with rfl | ⟨ip, rfl, hip⟩
  · rw [hrest, List.append_nil]
    exact Path.inside_sep htail
  · rw [hrest, List.append_assoc, List.cons_append]
    refine Path.inside_sep fun seg hseg => ?_
    rw [Path.segments_append_sep] at hseg
    rcases List.mem_append.mp hseg with hseg | hseg
    · exact hip seg hseg
    · exact htail seg hseg

/-- The rest of a URI behind the name of an alias is empty, or starts at the end of a
segment. -/
theorem matchesUri_rest {a : Alias} {uri : Text} (h : a.matchesUri uri = true) :
    uri = a.fakename ++ uri.drop a.fakename.length ∧
      (uri.drop a.fakename.length = [] ∨ (uri.drop a.fakename.length).head? = some slash ∨
        ∃ f, a.fakename = f ++ [slash]) := by
  simp only [Alias.matchesUri, startsWith, Bool.and_eq_true, Bool.or_eq_true,
    decide_eq_true_eq] at h
  obtain ⟨htake, hend⟩ := h
  have hsplit : uri = a.fakename ++ uri.drop a.fakename.length := by
    have := List.take_append_drop a.fakename.length uri
    rw [htake] at this
    exact this.symm
  refine ⟨hsplit, ?_⟩
  rcases hend with (hend | hend) | hend
  · exact .inr (.inr ⟨a.fakename.dropLast, (List.dropLast_append_getLast? _ hend).symm⟩)
  · exact .inl (List.head?_eq_none_iff.mp hend)
  · exact .inr (.inl hend)

theorem dropLast_rest {fake rest : Text} {uri : Text} (huri : uri = fake ++ rest)
    (hrest : rest = [] ∨ rest.head? = some slash ∨ ∃ f, fake = f ++ [slash]) {seg : Text}
    (h : seg ∈ (segments rest).dropLast) : seg = [] ∨ seg ∈ (segments uri).dropLast := by
  rcases hrest with rfl | hhead | ⟨f, rfl⟩
  · cases h
  · obtain ⟨t, rfl⟩ : ∃ t, rest = slash :: t := by
      match rest, hhead with
      | b :: t, hhead => exact ⟨t, by rw [Option.some.inj hhead]⟩
    rw [segments_slash, List.dropLast_cons_of_ne_nil (segments_ne t)] at h
    rcases List.mem_cons.mp h with h | h
    · exact .inl h
    · refine .inr ?_
      rw [huri, segments, Path.segments_append_sep,
        List.dropLast_append_of_ne_nil (Path.segments_ne slash t)]
      exact List.mem_append_right _ h
  · refine .inr ?_
    have happ : f ++ [slash] ++ rest = f ++ slash :: rest := by simp
    rw [huri, happ, segments, Path.segments_append_sep,
      List.dropLast_append_of_ne_nil (Path.segments_ne slash rest)]
    exact List.mem_append_right _ h

theorem contained_alias_iff {a : Alias} {path : Text}
    (hs : (cleanPathname path).head? = some slash) (hm : a.matchesUri (cleanPathname path) = true) :
    let rest := (cleanPathname path).drop a.fakename.length
    Contained a.realname rest (a.realname ++ rest) ↔
      lastSegment rest ≠ [dot, dot] ∧ a.joins rest := by
  intro rest
  obtain ⟨huri, hrest⟩ := matchesUri_rest hm
  have hdrop : ∀ seg ∈ (segments rest).dropLast, seg ≠ [dot] ∧ seg ≠ [dot, dot] := by
    intro seg hseg
    rcases dropLast_rest huri hrest hseg with rfl | hmem
    · exact ⟨(List.cons_ne_nil _ _).symm, (List.cons_ne_nil _ _).symm⟩
    · exact clean_dropLast hs hmem
  have hup := no_up_iff fun seg hseg => (hdrop seg hseg).2
  rw [Contained, hup, and_comm]
  refine and_congr_right fun hlast => ?_
  have hall := hup.mpr hlast
  clear_value rest
  unfold Alias.joins
  match rest with
  | [] =>
    rw [List.append_nil]
    exact ⟨fun _ => .inl rfl, fun _ => Path.inside_refl _⟩
  | b :: t =>
    by_cases hb : b = slash
    · subst hb
      refine ⟨fun _ => .inr (.inl rfl), fun _ => Path.inside_sep fun seg hseg => ?_⟩
      rw [segments_slash] at hall
      exact hall seg (List.mem_cons_of_mem _ hseg)
    · have hsegs := segments_cons hb t
      have hne : b :: (segments t).headD [] ≠ [] := List.cons_ne_nil _ _
      have hnot : ¬(b :: t).head? = some slash := fun h => hb (Option.some.inj h)
      have hdot : b :: (segments t).headD [] = [dot] → (segments t).tail = [] := by
        intro hdot
        by_contra ht
        have hmem : b :: (segments t).headD [] ∈ (segments (b :: t)).dropLast := by
          rw [hsegs, List.dropLast_cons_of_ne_nil ht]
          exact List.mem_cons_self ..
        exact (hdrop _ hmem).1 hdot
      rw [hsegs] at hall
      have hjoin : Path.Inside slash dot a.realname (a.realname ++ b :: t) ↔
          Path.Joins slash dot a.realname (b :: t) :=
        Path.inside_join_iff hsegs hne hall hdot
      rw [hjoin]
      simp only [List.cons_ne_nil, hnot, false_or]

theorem findAlias_matches {e : Config} {uri : Text} {a : Alias}
    (h : findAlias e uri = some a) : a.matchesUri uri = true := by
  unfold findAlias at h
  rw [List.find?_eq_some_iff_append] at h
  exact h.1

/-! What `process_header_end` makes of the URI. -/

theorem decodeUri_decoded (e : Config) {c : Conn} {path : Text} {q : Option Text}
    (hd : unescapeUri c.req.requestUri = some (path, q)) (hv : value (decodeUri e) c = true) :
    (cleanPathname path).head? = some slash ∧
      (exec (decodeUri e) c).req.requestUri = cleanPathname path ∧
      (exec (decodeUri e) c).req.localIpAddr = c.req.localIpAddr := by
  simp only [decodeUri, value_bind, exec_bind, value_getReq, exec_getReq, hd, exec_modReq]
    at hv ⊢
  by_cases hs : (cleanPathname path).head? = some 47
  · have hs' : ¬(cleanPathname path).head? ≠ some 47 := not_not.mpr hs
    simp only [if_neg hs', exec_pure]
    exact ⟨hs, trivial, trivial⟩
  · simp only [if_pos (show (cleanPathname path).head? ≠ some 47 from hs), badRequest,
      value_bind, value_pure] at hv
    cases hv

theorem chooseHost_same (e : Config) {c : Conn} (hv : value (chooseHost e) c = true) :
    (exec (chooseHost e) c).req.requestUri = c.req.requestUri ∧
      (exec (chooseHost e) c).req.localIpAddr = c.req.localIpAddr := by
  by_cases hr : e.vhostRoot = none
  · simp only [chooseHost, if_pos hr, exec_pure, and_self]
  · simp only [chooseHost, if_neg hr, value_bind, exec_bind, value_getReq, exec_getReq] at hv ⊢
    cases hok : value allocOk c with
    | false =>
      simp only [hok, Bool.false_eq_true, if_false, value_bind, value_pure] at hv
    | true =>
      simp only [hok, if_true, value_bind, exec_bind, exec_modReq] at hv ⊢
      split
      · rename_i hbad
        simp only [if_pos hbad, badRequest, value_bind, value_pure] at hv
        cases hv
      · exact ⟨rfl, rfl⟩

/-- The state in which the URI is translated. -/
theorem prepareRequest_decoded (e : Config) {c : Conn} {path : Text} {q : Option Text}
    (hd : unescapeUri c.req.requestUri = some (path, q))
    (hprep : value (prepareRequest e) c = true) :
    (cleanPathname path).head? = some slash ∧ ∃ c', c'.req.requestUri = cleanPathname path ∧
      c'.req.localIpAddr = c.req.localIpAddr ∧ value (translateUri e) c' ≠ 0 ∧
      exec (prepareRequest e) c = exec (translateUri e) c' := by
  simp only [prepareRequest, value_bind, exec_bind, value_getReq, exec_getReq] at hprep ⊢
  by_cases hl : c.req.logline = none
  · simp only [if_pos hl, value_bind, value_pure] at hprep
    cases hprep
  simp only [if_neg hl, value_bind, exec_bind] at hprep ⊢
  cases hv : value (decodeUri e) c with
  | false =>
    simp only [hv, Bool.false_eq_true, if_false, value_pure] at hprep
  | true =>
    obtain ⟨hs, huri, hip⟩ := decodeUri_decoded e hd hv
    simp only [hv, if_true, value_bind, exec_bind] at hprep ⊢
    cases hv' : value (chooseHost e) (exec (decodeUri e) c) with
    | false =>
      simp only [hv', Bool.false_eq_true, if_false, value_pure] at hprep
    | true =>
      obtain ⟨huri', hip'⟩ := chooseHost_same e hv'
      simp only [hv', if_true, value_bind, exec_bind] at hprep ⊢
      refine ⟨hs, _, huri'.trans huri, hip'.trans hip, ?_, ?_⟩
      · intro h0
        simp only [h0, if_true, value_bind, value_pure] at hprep
        cases hprep
      · by_cases h0 : value (translateUri e) (exec (chooseHost e) (exec (decodeUri e) c)) = 0
        · simp only [h0, if_true, value_bind, value_pure] at hprep
          cases hprep
        · simp only [if_neg h0, exec_pure]

theorem usePath_pathname (e : Config) {c : Conn} {path : Text} {ok : Srv Int}
    (hok : ∀ c', value ok c' ≠ 0 → (exec ok c').req.pathname = c'.req.pathname)
    (hv : value (usePath e path ok) c ≠ 0) :
    (exec (usePath e path ok) c).req.pathname = some path := by
  simp only [usePath, value_bind, exec_bind] at hv ⊢
  cases hm : value allocOk c with
  | false =>
    simp only [hm, Bool.false_eq_true, if_false, value_bind, value_pure] at hv
    exact absurd rfl hv
  | true =>
    simp only [hm, if_true, value_bind, exec_bind] at hv ⊢
    rw [hok _ hv]
    rfl

theorem refusePost_pathname (e : Config) {c : Conn}
    (hv : value (refusePost e (return 1)) c ≠ 0) :
    (exec (refusePost e (return 1)) c).req.pathname = c.req.pathname := by
  simp only [refusePost, value_bind, exec_bind, value_getReq, exec_getReq] at hv ⊢
  by_cases hp : c.req.method = .post
  · simp only [if_pos hp, value_bind, value_pure] at hv
    exact absurd rfl hv
  · simp only [if_neg hp, exec_pure]

/-- A URI that is translated starts with `/`. -/
theorem translateUri_slash (e : Config) {c : Conn} (hv : value (translateUri e) c ≠ 0) :
    ¬c.req.requestUri.head? ≠ some 47 := by
  intro h
  simp only [translateUri, value_bind, value_getReq, exec_getReq, if_pos h, value_pure] at hv
  exact absurd rfl hv

theorem translateUri_alias (e : Config) {c : Conn} {a : Alias}
    (ha : findAlias e c.req.requestUri = some a) (ht : a.type = .alias)
    (hv : value (translateUri e) c ≠ 0) :
    (exec (translateUri e) c).req.pathname =
      some (a.realname ++ c.req.requestUri.drop a.fakename.length) := by
  have hs := translateUri_slash e hv
  have hscript : ¬a.type = .scriptAlias := by rw [ht]; exact AliasType.noConfusion
  have hredirect : ¬a.type = .redirect := by rw [ht]; exact AliasType.noConfusion
  simp only [translateUri, value_bind, exec_bind, value_getReq, exec_getReq, if_neg hs, ha,
    if_neg hscript, translateAlias] at hv ⊢
  by_cases hlen : (a.realname ++ c.req.requestUri.drop a.fakename.length).length + 1 >
      maxHeaderLength + 1
  · simp only [if_pos hlen, value_bind, value_pure] at hv
    exact absurd rfl hv
  · simp only [if_neg hlen, if_neg hredirect] at hv ⊢
    exact usePath_pathname e (fun _ _ => rfl) hv

theorem locate_root {e : Config} {r : Request} {root : Text}
    (hu : e.userdir = none ∨ r.requestUri.getD 1 0 ≠ 126) (hvh : e.vhostRoot = none)
    (hr : e.docroot = some root) :
    locate e r = .path (root ++ (if e.virtualhost then [47] ++ r.localIpAddr else []) ++
      r.requestUri) := by
  unfold locate
  rcases hu with hu | hu
  · simp only [hu, hvh, hr]
  · simp only [decide_eq_false hu, hvh, hr]
    cases e.userdir <;> rfl

theorem translateUri_root (e : Config) {c : Conn} {root : Text}
    (ha : findAlias e c.req.requestUri = none)
    (hu : e.userdir = none ∨ c.req.requestUri.getD 1 0 ≠ 126) (hvh : e.vhostRoot = none)
    (hr : e.docroot = some root) (hv : value (translateUri e) c ≠ 0) :
    (exec (translateUri e) c).req.pathname =
      some (root ++ (if e.virtualhost then [47] ++ c.req.localIpAddr else []) ++
        c.req.requestUri) := by
  have hs := translateUri_slash e hv
  simp only [translateUri, value_bind, exec_bind, value_getReq, exec_getReq, if_neg hs, ha,
    locate_root hu hvh hr] at hv ⊢
  generalize root ++ (if e.virtualhost then [47] ++ c.req.localIpAddr else []) ++
    c.req.requestUri = path at hv ⊢
  by_cases hlen : pathRoom e c.req path > maxHeaderLength + 1
  · simp only [if_pos hlen, value_bind, value_pure] at hv
    exact absurd rfl hv
  · simp only [if_neg hlen] at hv ⊢
    exact usePath_pathname e (fun _ h => refusePost_pathname e h) hv

/-- Document root containment: under the document root the translated path is contained
exactly when the last segment of the decoded URI is not `..`; under an alias, when that of the
rest behind the fake name is not, and the rest does not go on with the last segment of the
real name. -/
theorem prepareRequest_contained_iff (e : Config) (c : Conn) (path : Text) (q : Option Text)
    (hd : unescapeUri c.req.requestUri = some (path, q))
    (hip : ∀ seg ∈ segments c.req.localIpAddr, seg ≠ [dot, dot])
    (hprep : value (prepareRequest e) c = true) :
    let uri := cleanPathname path
    let pathname := (exec (prepareRequest e) c).req.pathname.getD []
    (∀ root, findAlias e uri = none → (e.userdir = none ∨ uri.getD 1 0 ≠ 126) →
      e.vhostRoot = none → e.docroot = some root →
        (Contained root uri pathname ↔ lastSegment path ≠ [dot, dot])) ∧
    (∀ a, findAlias e uri = some a → a.type = .alias →
      (Contained a.realname (uri.drop a.fakename.length) pathname ↔
        lastSegment (uri.drop a.fakename.length) ≠ [dot, dot] ∧
          a.joins (uri.drop a.fakename.length))) := by
  intro uri pathname
  obtain ⟨hs, c', huri, haddr, hv, he⟩ := prepareRequest_decoded e hd hprep
  constructor
  · intro root ha hu hvh hr
    have hpath := translateUri_root e (huri.symm ▸ ha) (huri.symm ▸ hu) hvh hr hv
    have hname : pathname = root ++ (if e.virtualhost then [47] ++ c.req.localIpAddr else []) ++
        uri := by
      change (exec (prepareRequest e) c).req.pathname.getD [] = _
      rw [he, hpath, huri, haddr]
      rfl
    rw [hname]
    refine contained_root_iff hs ?_
    cases e.virtualhost with
    | true => exact .inr ⟨c.req.localIpAddr, rfl, hip⟩
    | false => exact .inl rfl
  · intro a ha ht
    have hpath := translateUri_alias e (huri.symm ▸ ha) ht hv
    have hname : pathname = a.realname ++ uri.drop a.fakename.length := by
      change (exec (prepareRequest e) c).req.pathname.getD [] = _
      rw [he, hpath, huri]
      rfl
    rw [hname]
    exact contained_alias_iff hs (findAlias_matches ha)

def rootBuild : Config where
  docroot := some (str "/w/pub")

def uriRequest (uri : String) : Conn where
  req := {
    method := .get, httpVersion := .http10, logline := some (str uri)
    requestUri := str uri, localIpAddr := str "10.0.0.1", fd := 5, kacount := 10 }

/-- An encoded `..` at the end of the URI is left in place: the parent of the root. -/
theorem prepareRequest_escapes :
    unescapeUri (uriRequest "/%2e%2e").req.requestUri = some (str "/..", none) ∧
      value (prepareRequest rootBuild) (uriRequest "/%2e%2e") = true ∧
      findAlias rootBuild (cleanPathname (str "/..")) = none ∧
      ¬Contained (str "/w/pub") (cleanPathname (str "/.."))
        ((exec (prepareRequest rootBuild) (uriRequest "/%2e%2e")).req.pathname.getD []) := by
  refine ⟨by decide +kernel, by decide +kernel, by decide +kernel, ?_⟩
  rintro ⟨hinside, -⟩
  revert hinside
  decide +kernel

theorem prepareRequest_contained_page :
    let uri := cleanPathname (str "/a/../b")
    let pathname :=
      (exec (prepareRequest rootBuild) (uriRequest "/a/../b?x")).req.pathname.getD []
    (∀ root, findAlias rootBuild uri = none →
      (rootBuild.userdir = none ∨ uri.getD 1 0 ≠ 126) → rootBuild.vhostRoot = none →
        rootBuild.docroot = some root →
          (Contained root uri pathname ↔ lastSegment (str "/a/../b") ≠ [dot, dot])) ∧
    (∀ a, findAlias rootBuild uri = some a → a.type = .alias →
      (Contained a.realname (uri.drop a.fakename.length) pathname ↔
        lastSegment (uri.drop a.fakename.length) ≠ [dot, dot] ∧
          a.joins (uri.drop a.fakename.length))) :=
  prepareRequest_contained_iff rootBuild (uriRequest "/a/../b?x") (str "/a/../b") (some (str "x"))
    (by decide +kernel) (by decide +kernel) (by decide +kernel)

end Crotalus
