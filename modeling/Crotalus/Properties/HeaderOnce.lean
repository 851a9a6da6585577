import Crotalus.Framework.Run
import Crotalus.Spec.Count

namespace Crotalus

open Stateful

/-! How often `process_header_end` runs for one request. -/

/-- A call of `process_header_end`. -/
def Visit.endsHeader (v : Visit) : Bool := v.site = .headerEnd

/-- A request line without version belongs to no POST and selects no gzip definition, and the
pool does not answer its script with the numbers that keep a request in its status. -/
def Visit.endsReading (v : Visit) : Prop :=
  v.req.httpVersion = .http09 →
    (v.site = .headerEnd → v.req.method ≠ .post) ∧ v.site ≠ .gzip ∧
      (v.site = .pushWork → v.sys.shprocPush ≠ 1 ∧ v.sys.shprocPush ≠ -1)

instance (v : Visit) : Decidable v.endsReading := by
  unfold Visit.endsReading
  infer_instance

theorem fits_endsHeader : Fits Visit.endsHeader Status.reading := by
  constructor
  · rfl
  · rfl
  · rfl
  · rfl
  · intro v hv
    simp only [Visit.endsHeader, hv, reduceCtorEq, decide_false]
  · intro v hv
    simp only [Visit.endsHeader, hv, reduceCtorEq, decide_false]
  · intro v hv
    simp only [Visit.endsHeader, hv, reduceCtorEq, decide_false]

theorem quiet_isLine (v : Visit) (h : v.site.isLine) : v.quiet Visit.endsHeader := by
  rcases h with h | h
  · exact ⟨by rw [h]; nofun, by simp only [Visit.endsHeader, h, reduceCtorEq, decide_false]⟩
  · exact ⟨by rw [h]; nofun, by simp only [Visit.endsHeader, h, reduceCtorEq, decide_false]⟩

theorem quiet_inTurn (v : Visit) (h : v.site.inTurn) : v.quiet Visit.endsHeader :=
  ⟨h.2.2.2, decide_eq_false h.2.2.1⟩

section Steps

variable (e : Config) {c0 : Conn}

theorem mark_counted {c : Conn} (h : Counted Visit.endsHeader 0 c0 c) :
    Counted Visit.endsHeader 1 c0 (exec (mark .headerEnd) c) :=
  h.first (v := ⟨.headerEnd, c.req, c.sys⟩) nofun rfl rfl

/-- The end of the header is passed once. -/
theorem endHeader_counted {c : Conn} (h : Counted Visit.endsHeader 0 c0 c) :
    Counted Visit.endsHeader 1 c0 (exec (endHeader e) c) := by
  obtain ⟨host, hw⟩ := processHeaderEnd_works e (exec (mark .headerEnd) c) Responding.inTurn
  have hpass : Passed Site.inTurn (exec (mark .headerEnd) c) (exec (endHeader e) c) := hw.passed
  exact (mark_counted h).passed hpass quiet_inTurn

/-- A versionless request leaves the reading with its header. -/
theorem endHeader_leaves {c : Conn} (hv : c.req.httpVersion = .http09)
    (hok : ∀ v ∈ c.visits (exec (endHeader e) c), v.endsReading)
    (hret : value (endHeader e) c = 1 ∨ value (endHeader e) c = -1) :
    (exec (endHeader e) c).req.status.reading = false := by
  obtain ⟨host, hw⟩ := processHeaderEnd_works e (exec (mark .headerEnd) c) Responding.inTurn
  have hpass : Passed Site.inTurn (exec (mark .headerEnd) c) (exec (endHeader e) c) := hw.passed
  have hend : (⟨.headerEnd, c.req, c.sys⟩ : Visit) ∈ c.visits (exec (endHeader e) c) := by
    apply mem_visits_before hpass
    rw [visits_of_append (l := [⟨.headerEnd, c.req, c.sys⟩]) rfl]
    exact List.mem_singleton.mpr rfl
  have hm : c.req.method ≠ .post := (hok _ hend hv).1 rfl
  have hans := processHeaderEnd_answers e (exec (mark .headerEnd) c) hm
  have hok' : ∀ v ∈ (exec (mark .headerEnd) c).visits (exec (endHeader e) c), v.endsReading :=
    fun v hmem => hok v (mem_visits_after (mark_passed .headerEnd c) hmem)
  change Answer _ (exec (endHeader e) c) (value (endHeader e) c) at hans
  cases hans with
  | declined h => omega
  | responds _ hst =>
    generalize (exec (endHeader e) c).req.status = st at hst
    cases st <;> first | rfl | cases hst
  | rejected v h hpush _ =>
    obtain ⟨-, -, hrej⟩ := hok' v h.mem (h.version.trans hv)
    obtain ⟨h1, h2⟩ := hrej h.site
    omega
  | gzip v h _ _ =>
    obtain ⟨-, hgz, -⟩ := hok' v h.mem (h.version.trans hv)
    exact absurd h.site hgz

/-- Behind the blank line the request is not read any more. -/
theorem headerDone_handled {c : Conn} (h : Counted Visit.endsHeader 0 c0 c)
    (hs : c.req.status = .bodyRead) :
    HandledOnce Visit.endsHeader Status.reading c0 (exec (headerDone e) c)
      (value (headerDone e) c) := by
  obtain ⟨host, hw⟩ := headerDone_works e Responding.inTurn rfl c
  have hpass : Passed Site.inTurn (exec (mark .headerEnd) c) (exec (headerDone e) c) := hw.passed
  exact .late ((mark_counted h).passed hpass quiet_inTurn) (headerDone_leaves e hs)

/-- The reading of a header completes it at most once. -/
theorem readHeader_handled {c : Conn} (h : Counted Visit.endsHeader 0 c0 c)
    (hs : c.req.status.reading = true)
    (hok : ∀ v ∈ c.visits (exec (readHeader e) c), v.endsReading) :
    HandledOnce Visit.endsHeader Status.reading c0 (exec (readHeader e) c)
      (value (readHeader e) c) := by
  rcases readHeader_cases e hs with ⟨ret, c', hstep, hv, he⟩ | ⟨c', hadv, -, hv, he⟩
  · rw [he] at hok
    rw [hv, he]
    cases hstep with
    | refused _ _ ht => exact .ends (h.passed ht quiet_isLine)
    | @short k c1 hadv _ hver =>
      have h1 : Counted Visit.endsHeader 0 c0 c1 := h.passed hadv.passed quiet_isLine
      refine ⟨⟨1, endHeader_counted e h1⟩, fun hret hreading => ?_⟩
      have hok' : ∀ v ∈ c1.visits (exec (endHeader e) c1), v.endsReading :=
        fun v hmem => hok v (mem_visits_after hadv.passed hmem)
      rw [endHeader_leaves e hver hok' hret] at hreading
      cases hreading
    | @ended k c1 _ hadv hst =>
      exact headerDone_handled e (h.passed hadv.passed quiet_isLine) hst
  · rw [hv, he]
    obtain ⟨-, ht, -⟩ := readMore_outcome c'
    exact .unseen ((h.passed hadv.passed quiet_isLine).same ht)

theorem processStatus_handled {c : Conn} {n : Nat} (h : Counted Visit.endsHeader n c0 c)
    (hfresh : c.req.status.reading = true → Counted Visit.endsHeader 0 c0 c)
    (hok : ∀ v ∈ c.visits (exec (processStatus e) c), v.endsReading) :
    HandledOnce Visit.endsHeader Status.reading c0 (exec (processStatus e) c)
      (value (processStatus e) c) := by
  cases hs : c.req.status.reading with
  | true =>
    obtain ⟨hv, he⟩ := processStatus_reading e hs
    rw [he] at hok
    rw [hv, he]
    exact readHeader_handled e (hfresh hs) hs hok
  | false =>
    have hsite : ∀ file body, Site.inTurn (.bodyDone file body) :=
      fun _ _ => ⟨nofun, nofun, nofun, nofun⟩
    have hscan := processStatus_scanned e .inTurn hs (fun _ => rfl) fun _ => ⟨rfl, hsite⟩
    apply HandledOnce.late (h.passed hscan.passed quiet_inTurn)
    rcases hscan.status with hst | hst
    · rw [hst, hs]
    · exact hst

theorem step_headerOnce {c : Conn} (ev : Ev) (h : OnceAfter Visit.endsHeader Status.reading c0 c)
    (hok : ∀ v ∈ c.visits (step e c ev), v.endsReading) :
    OnceAfter Visit.endsHeader Status.reading c0 (step e c ev) := by
  cases ev with
  | process w =>
    simp only [step] at hok ⊢
    by_cases hp : c.place = .ready
    · rw [if_pos hp] at hok ⊢
      obtain ⟨n, hn⟩ := h.counted
      have h' : OnceAfter Visit.endsHeader Status.reading c0 { c with sys := w, waits := none } :=
        ⟨⟨n, hn.same rfl⟩, fun hf hr => (h.fresh hf hr).same rfl⟩
      apply processRequest_onceAfter e fits_endsHeader h' hp
      intro m hm hfresh hsub
      exact processStatus_handled e hm hfresh fun v hmem => hok v (hsub hmem)
    · rw [if_neg hp]
      exact h
  | select w readyR readyW =>
    simp only [step]
    by_cases hp : c.place = .block
    · rw [if_pos hp]
      exact selectStep_onceAfter e fits_endsHeader h hp w readyR readyW
    · rw [if_neg hp]
      exact h
  | results rs => exact resultsStep_onceAfter fits_endsHeader h rs

end Steps

/-- The calls of `process_header_end` since the last `sanitize_request`. -/
def headerEnds (vs : List Visit) : Nat := countSince Visit.endsHeader vs

/-- In a run without the branches in which a versionless request keeps its reading status,
no request has its header completed twice. -/
theorem headerEnd_once (e : Config) (c : Conn) (evs : List Ev)
    (hok : Run.AllSteps (step e) (fun t ev => ∀ v ∈ t.visits (step e t ev), v.endsReading) c evs) :
    ∀ t ∈ Run.states (step e) c evs, ∀ k, headerEnds ((c.visits t).take k) ≤ 1 := by
  intro t ht
  have hinv := Run.invariant (I := OnceAfter Visit.endsHeader Status.reading c)
    (fun _ ev hi hv => step_headerOnce e ev hi hv) (.start c) hok t ht
  obtain ⟨n, hn⟩ := hinv.counted
  exact hn.once

/-! A request line without version, for a program behind a script alias. -/

def versionless : Conn := acceptConn {} 0 5 [] [] 0 {}

def versionlessConfig : Config where
  aliasHashtable _ := [⟨str "/s", str "/b", .scriptAlias⟩]

def versionlessWorld : World where
  stat _ := some .reg
  accessRX _ := true
  tmpfile := some 7
  cloexec := true

/-- The first turn reads the bytes, the next ones look at them. -/
def versionlessRun (bytes : String) : List Ev :=
  [.process { versionlessWorld with recv := [.data (str bytes)] }, .process versionlessWorld,
    .process versionlessWorld]

theorem headerEnd_once_get :
    (∀ t ∈ Run.states (step versionlessConfig) versionless (versionlessRun "GET /s\n\n"),
      ∀ k, headerEnds ((versionless.visits t).take k) ≤ 1) ∧
    headerEnds (versionless.visits
      (Run.final (step versionlessConfig) versionless (versionlessRun "GET /s\n\n"))) = 1 :=
  ⟨headerEnd_once versionlessConfig versionless (versionlessRun "GET /s\n\n")
    ⟨by decide +kernel, by decide +kernel, by decide +kernel, trivial⟩, by decide +kernel⟩

/-- A POST is read on behind its line, and the empty line that follows completes its header
once more. -/
theorem headerEnd_twice :
    Accepted versionlessConfig versionless ∧
      ∃ t ∈ Run.states (step versionlessConfig) versionless (versionlessRun "POST /s\n\n"),
        ∃ k, 1 < headerEnds ((versionless.visits t).take k) :=
  ⟨⟨{}, 0, 5, [], [], 0, .inl rfl⟩, _, Run.final_mem_states _ _, 3, by decide +kernel⟩

end Crotalus
