import Crotalus.Framework.Run
import Crotalus.Spec.Turn

namespace Crotalus

open Stateful

/-! Requests that wait for the client while bytes of it wait for them. -/

/-- Blocked in the reading of a header, with bytes left to read. -/
def Conn.parkedUnread (c : Conn) : Prop :=
  c.place = .block ∧ c.req.status.reading = true ∧ c.req.unparsed ≠ []

/-- With bytes left to read the connection is not recycled here, and a request that is
still being read is not refused by the pool or for a missing compressed file. -/
def Visit.keepsReading (v : Visit) : Prop :=
  v.req.unparsed ≠ [] →
    v.site ≠ .sanitize ∧ (v.req.status.reading = true →
      (v.site = .gzip → v.sys.gzopen ≠ none) ∧ (v.site = .pushWork → v.sys.shprocPush ≠ -1))

instance (v : Visit) : Decidable v.keepsReading := by
  unfold Visit.keepsReading
  infer_instance

/-- Bytes left to read do not wait for the flush of an answer either. -/
def Ev.keepsReading (c : Conn) : Ev → Prop
  | .process w =>
    c.req.unparsed ≠ [] → c.req.status.reading = true → c.req.bufferEnd ≠ 0 →
      wouldBlock w.sock = false
  | _ => True

instance (c : Conn) : (ev : Ev) → Decidable (ev.keepsReading c)
  | .process w => inferInstanceAs (Decidable (c.req.unparsed ≠ [] →
      c.req.status.reading = true → c.req.bufferEnd ≠ 0 → wouldBlock w.sock = false))
  | .select .. => .isTrue trivial
  | .results _ => .isTrue trivial

section Steps

variable (e : Config)

theorem unparsed_eq_nil {r : Request} (h : r.clientStream.length ≤ r.parsePos) :
    r.unparsed = [] := List.drop_eq_nil_of_le h

theorem unparsed_core {c c' : Conn} (h : c'.core = c.core) : c'.req.unparsed = c.req.unparsed := by
  have hr : c'.req.core = c.req.core := (Prod.mk.inj h).1
  have hun : c'.req.core.unparsed = c.req.core.unparsed := by rw [hr]
  exact hun

theorem Scanned.unparsed {T : Status → Prop} {S : Site → Prop} {c c' : Conn}
    (h : Scanned T S c c') : c'.req.unparsed = c.req.unparsed := by
  rw [Request.unparsed, h.stream, h.pos]
  rfl

/-- The end of a turn parks no unread bytes of its own. -/
theorem TurnEnd.keepsReading {c c' : Conn} {ret : Int} (h : TurnEnd c ret c')
    (hp : c.place = .ready)
    (hret : ret = -1 → c.req.status.reading = true → c.req.unparsed = [])
    (hok : ∀ v ∈ c.visits c', v.keepsReading) : ¬c'.parkedUnread := by
  rintro ⟨hblock, hreading, hun⟩
  have hready : c'.place = c.place → False := by
    intro hpl
    rw [hpl, hp] at hblock
    cases hblock
  cases h with
  | blocked hr hc hs _ _ =>
    rw [hs] at hreading
    rw [unparsed_core hc] at hun
    exact hun (hret hr hreading)
  | goesOn _ _ _ hpl _ => exact hready hpl
  | dies _ _ _ hpl _ => exact hready hpl
  | flushing _ _ _ hpl _ => exact hready hpl
  | closed _ hpl _ =>
    rw [hpl] at hblock
    cases hblock
  | recycled _ c1 hc ht _ _ hpos hstream _ _ htrace =>
    have hleft : c'.req.unparsed = c1.req.unparsed := by
      rw [Request.unparsed, hpos, hstream, List.drop_zero]
      rfl
    rw [hleft] at hun
    have hmem : (⟨.sanitize, c1.req, c1.sys⟩ : Visit) ∈ c.visits c' := by
      apply mem_visits_after ht
      rw [visits_of_append htrace]
      exact List.mem_singleton.mpr rfl
    exact (hok _ hmem hun).1 rfl

/-- When the end of a versionless header returns −1, no byte of a reading request is left. -/
theorem endHeader_keepsReading {c : Conn} (hv : value (endHeader e) c = -1)
    (hok : ∀ v ∈ c.visits (exec (endHeader e) c), v.keepsReading)
    (hs : (exec (endHeader e) c).req.status.reading = true) :
    (exec (endHeader e) c).req.unparsed = [] := by
  obtain ⟨host, hw⟩ := processHeaderEnd_works e (exec (mark .headerEnd) c) Responding.inTurn
  have hun : (exec (endHeader e) c).req.unparsed = c.req.unparsed := hw.scanned.unparsed
  by_cases hm : c.req.method = .post
  · have hopen := processHeaderEnd_opens e (exec (mark .headerEnd) c) hm
    change value (endHeader e) c = 0 ∨ (value (endHeader e) c = 1 ∧ _) at hopen
    omega
  have hans := processHeaderEnd_answers e (exec (mark .headerEnd) c) hm
  change Answer _ (exec (endHeader e) c) (value (endHeader e) c) at hans
  by_contra hleft
  have hstuck : ∀ site v, Stuck site (exec (mark .headerEnd) c) (exec (endHeader e) c) v →
      v.req.status.reading = true → (v.site = .gzip → v.sys.gzopen ≠ none) ∧
        (v.site = .pushWork → v.sys.shprocPush ≠ -1) := by
    intro site v h
    have hvun : v.req.unparsed = c.req.unparsed := h.unparsed
    rw [hun, ← hvun] at hleft
    exact (hok v (mem_visits_after (mark_passed .headerEnd c) h.mem) hleft).2
  have hafter : ∀ site v, Stuck site (exec (mark .headerEnd) c) (exec (endHeader e) c) v →
      v.req.status.reading = true := by
    intro site v h
    rcases h.after with hst | hst
    · rw [← hst]
      exact hs
    · rw [hst] at hs
      cases hs
  cases hans with
  | declined h => omega
  | responds hne _ => exact hne hv
  | rejected v h hpush _ =>
    exact (hstuck _ v h (hafter _ v h)).2 h.site (hpush.trans hv)
  | gzip v h _ hgz =>
    rcases hgz with hone | ⟨-, hnone⟩
    · omega
    · exact (hstuck _ v h (hafter _ v h)).1 h.site hnone

theorem readHeader_keepsReading {c : Conn} (hs : c.req.status.reading = true)
    (hok : ∀ v ∈ c.visits (exec (readHeader e) c), v.keepsReading)
    (hv : value (readHeader e) c = -1)
    (hreading : (exec (readHeader e) c).req.status.reading = true) :
    (exec (readHeader e) c).req.unparsed = [] := by
  rcases readHeader_cases e hs with ⟨ret, c', hstep, hval, hrun⟩ | ⟨c', hadv, -, hval, hrun⟩
  · rw [hval] at hv
    rw [hrun] at hok hreading ⊢
    cases hstep with
    | refused _ _ _ => omega
    | @short k c1 hadv _ _ =>
      apply endHeader_keepsReading e hv ?_ hreading
      exact fun v hmem => hok v (mem_visits_after hadv.passed hmem)
    | @ended k c1 _ _ hst =>
      rw [headerDone_leaves e hst] at hreading
      cases hreading
  · rw [hval] at hv
    rw [hrun]
    obtain ⟨-, -, hpos, hmore⟩ := readMore_outcome c'
    apply unparsed_eq_nil
    rcases hmore with hzero | ⟨-, hone | ⟨-, -, hstream⟩⟩
    · omega
    · omega
    · rw [hpos, hstream, hadv.pos, hadv.stream]
      omega

theorem processRequest_keepsReading {c : Conn} (hp : c.place = .ready)
    (hflush : c.req.unparsed ≠ [] → c.req.status.reading = true → c.req.bufferEnd ≠ 0 →
      wouldBlock c.sys.sock = false)
    (hok : ∀ v ∈ c.visits (exec (processRequest e) c), v.keepsReading) :
    ¬(exec (processRequest e) c).parkedUnread := by
  rcases processRequest_run e c with ⟨-, hrun⟩ | ⟨hv, hrun⟩
  · have hidle := dispatched_idled e c
    have htop : Passed (fun _ => True) c (c.dispatched e) := .same hidle.trace
    have hp1 : (c.dispatched e).place = .ready := hidle.place.trans hp
    rw [hrun] at hok ⊢
    generalize c.dispatched e = c1 at htop hp1 hok
    have hend := settle_turnEnd e (value (processStatus e) c1) (exec (processStatus e) c1)
    obtain ⟨hplace, hpass⟩ := processStatus_frame e c1
    apply hend.keepsReading (hplace.trans hp1)
    · intro hret hreading
      cases hs : c1.req.status.reading with
      | true =>
        obtain ⟨hval, hrun⟩ := processStatus_reading e hs
        rw [hrun] at hok hend hreading ⊢
        rw [hval] at hret hend hok
        apply readHeader_keepsReading e hs ?_ hret hreading
        exact fun v hmem => hok v (mem_visits_after htop (mem_visits_before hend.passed hmem))
      | false =>
        have hscan := processStatus_scanned e .all hs (fun _ => rfl) fun _ =>
          ⟨rfl, fun _ _ => trivial⟩
        rcases hscan.status with hst | hst
        · rw [hst, hs] at hreading
          cases hreading
        · rw [hst] at hreading
          cases hreading
    · exact fun v hmem => hok v (mem_visits_after htop (mem_visits_after hpass hmem))
  · have hidle := topFlush_idles e c
    have htop : Passed (fun _ => True) c (exec (topFlush e) c) := .same hidle.trace
    have hout := topFlush_outcome e c
    rw [hrun] at hok ⊢
    apply (settle_turnEnd e (value (topFlush e) c) (exec (topFlush e) c)).keepsReading
      (hidle.place.trans hp)
    · intro hret hreading
      rcases hout with h | ⟨h, -⟩ | ⟨-, -, hw, hb⟩
      · exact absurd h hv
      · omega
      · rcases hidle.status with hst | hst
        · by_contra hleft
          rw [unparsed_core hidle.core] at hleft
          rw [hst] at hreading
          rw [hflush hleft hreading hb] at hw
          cases hw
        · rw [hst] at hreading
          cases hreading
    · exact fun v hmem => hok v (mem_visits_after htop hmem)

/-- A step parks no bytes unread, unless one of its branches does it. -/
theorem step_keepsReading {c : Conn} (ev : Ev) (h : ¬c.parkedUnread)
    (hok : ev.keepsReading c ∧ ∀ v ∈ c.visits (step e c ev), v.keepsReading) :
    ¬(step e c ev).parkedUnread := by
  obtain ⟨hflush, hok⟩ := hok
  cases ev with
  | process w =>
    simp only [step] at hok ⊢
    by_cases hp : c.place = .ready
    · rw [if_pos hp] at hok ⊢
      exact processRequest_keepsReading (c := { c with sys := w, waits := none }) e hp hflush hok
    · rw [if_neg hp]
      exact h
  | select w readyR readyW =>
    simp only [step]
    by_cases hp : c.place = .block
    · rw [if_pos hp]
      rintro ⟨-, hreading, hun⟩
      rcases select_outcome e readyR readyW { c with sys := w } with hw | ⟨v, -, hw⟩
      · rw [hw.req] at hreading hun
        exact h ⟨hp, hreading, hun⟩
      · rw [hw.req] at hreading
        cases hreading
    · rw [if_neg hp]
      exact h
  | results rs =>
    have hsite : Site.inTurn .workResp := ⟨nofun, nofun, nofun, nofun⟩
    have hscan := cgiWorkResps_scanned (T := Status.read) (S := Site.inTurn) rfl hsite rs c
    simp only [step]
    rintro ⟨hblock, hreading, hun⟩
    rw [hscan.unparsed] at hun
    rw [hscan.place] at hblock
    rcases hscan.status with hst | hst
    · rw [hst] at hreading
      exact h ⟨hblock, hreading, hun⟩
    · rw [hst] at hreading
      cases hreading

end Steps

theorem accepted_not_parked (e : Config) {c : Conn} (h : Accepted e c) : ¬c.parkedUnread := by
  rintro ⟨hblock, -⟩
  rw [accepted_ready e h] at hblock
  cases hblock

/-- In a run without these branches no request waits for the client with bytes left to read. -/
theorem never_parkedUnread (e : Config) (c : Conn) (evs : List Ev) (h : Accepted e c)
    (hok : Run.AllSteps (step e) (fun t ev => ev.keepsReading t ∧
      ∀ v ∈ t.visits (step e t ev), v.keepsReading) c evs) :
    ∀ t ∈ Run.states (step e) c evs, ¬t.parkedUnread :=
  Run.invariant (I := fun t => ¬t.parkedUnread) (fun _ ev hi hv => step_keepsReading e ev hi hv)
    (accepted_not_parked e h) hok

/-! Requests for an empty page on a connection that stays open. -/

def pipelined : Conn := acceptConn {} 0 5 [] [] 0 {}

def pipelinedConfig : Config where
  docroot := some (str "/w")

def pipelinedWorld : World where
  openFile _ := .ok (3, ⟨.reg, 0, 0, 0, 0, []⟩)
  sock := [.done 4096]

def pipelinedRun (bytes : String) : List Ev :=
  [.process { pipelinedWorld with recv := [.data (str bytes)] }, .process pipelinedWorld]

/-- A request alone: the connection waits for the next one with nothing left to read. -/
theorem never_parkedUnread_alone :
    (∀ t ∈ Run.states (step pipelinedConfig) pipelined
        (pipelinedRun "GET /x HTTP/1.1\nHost: a\n\n"), ¬t.parkedUnread) ∧
      (Run.final (step pipelinedConfig) pipelined
        (pipelinedRun "GET /x HTTP/1.1\nHost: a\n\n")).place = .block :=
  ⟨never_parkedUnread pipelinedConfig pipelined _ ⟨{}, 0, 5, [], [], 0, .inl rfl⟩
    ⟨by decide +kernel, by decide +kernel, trivial⟩, by decide +kernel⟩

/-- Of two requests in one segment the second waits for further bytes of the client. -/
theorem parkedUnread_second :
    Accepted pipelinedConfig pipelined ∧
      ∃ t ∈ Run.states (step pipelinedConfig) pipelined
        (pipelinedRun "GET /x HTTP/1.1\nHost: a\n\nGET /y HTTP/1.1\nHost: a\n\n"),
        t.parkedUnread :=
  ⟨⟨{}, 0, 5, [], [], 0, .inl rfl⟩, _, Run.final_mem_states _ _, by decide +kernel,
    by decide +kernel, by decide +kernel⟩

end Crotalus
