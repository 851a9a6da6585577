import Crotalus.Framework.Count
import Crotalus.Spec.Turn

namespace Crotalus

open Stateful

/-! Visits that a request has at most once. -/

/-- The visits of one kind since the last `sanitize_request`. -/
def countSince (event : Visit → Bool) (vs : List Visit) : Nat :=
  Count.since (fun v => decide (v.site = .sanitize)) event 0 vs

/-- Since `c0`, with `n` of these visits in its present request and never two. -/
structure Counted (event : Visit → Bool) (n : Nat) (c0 c : Conn) : Prop where
  trace : c.trace = c0.trace ++ c0.visits c
  once : Count.AtMostOnce (fun v => decide (v.site = .sanitize)) event 0 (c0.visits c)
  count : countSince event (c0.visits c) = n

def Visit.quiet (event : Visit → Bool) (v : Visit) : Prop :=
  v.site ≠ .sanitize ∧ event v = false

section Counted

variable {event : Visit → Bool} {S : Site → Prop} {n : Nat} {c0 c c' : Conn}

theorem Counted.start (c : Conn) : Counted event 0 c c := by
  have hv : c.visits c = [] := visits_eq rfl
  refine ⟨?_, ?_, ?_⟩
  · rw [hv, List.append_nil]
  · rw [hv]
    exact .quiet (Nat.zero_le 1) fun _ hv => absurd hv List.not_mem_nil
  · rw [hv]
    rfl

theorem Counted.le_one (h : Counted event n c0 c) : n ≤ 1 := h.count ▸ h.once.last

theorem Counted.extend {vs : List Visit} (h : Counted event n c0 c)
    (ht : c'.trace = c.trace ++ vs)
    (hvs : Count.AtMostOnce (fun v => decide (v.site = .sanitize)) event n vs) :
    Counted event (Count.since (fun v => decide (v.site = .sanitize)) event n vs) c0 c' := by
  have htrace : c'.trace = c0.trace ++ (c0.visits c ++ vs) := by
    rw [ht, h.trace, List.append_assoc, visits_of_append h.trace]
  have hv : c0.visits c' = c0.visits c ++ vs := visits_of_append htrace
  have hcount : Count.since _ event 0 (c0.visits c) = n := h.count
  refine ⟨hv ▸ htrace, ?_, ?_⟩
  · rw [hv]
    exact h.once.append (hcount ▸ hvs)
  · rw [hv, countSince, Count.since_append, hcount]

theorem Counted.passed (h : Counted event n c0 c) (hp : Passed S c c')
    (hs : ∀ v : Visit, S v.site → v.quiet event) : Counted event n c0 c' := by
  obtain ⟨vs, ht, hv⟩ := hp
  have hq : ∀ v ∈ vs, decide (v.site = .sanitize) = false ∧ event v = false := by
    intro v hmem
    obtain ⟨hne, hev⟩ := hs v (hv v hmem)
    exact ⟨decide_eq_false hne, hev⟩
  have hext := h.extend ht (.quiet h.le_one hq)
  rwa [Count.since_quiet hq] at hext

theorem Counted.same (h : Counted event n c0 c) (ht : c'.trace = c.trace) :
    Counted event n c0 c' :=
  h.passed (S := fun _ => False) (.same ht) fun _ hv => hv.elim

/-- One visit more, of another kind. -/
theorem Counted.other (h : Counted event n c0 c) {v : Visit} (hv : v.quiet event)
    (ht : c'.trace = c.trace ++ [v]) : Counted event n c0 c' := by
  have hsame : Count.since (fun v => decide (v.site = .sanitize)) event n [v] = n := by
    simp only [Count.since, decide_eq_false hv.1, hv.2, Bool.false_eq_true, if_false]
  have hle := h.le_one
  have hext := h.extend ht (.single hle (by rw [hsame]; exact hle))
  rwa [hsame] at hext

/-- A new request starts from zero. -/
theorem Counted.sanitize (h : Counted event n c0 c) {v : Visit} (hv : v.site = .sanitize)
    (ht : c'.trace = c.trace ++ [v]) : Counted event 0 c0 c' := by
  have hzero : Count.since (fun v => decide (v.site = .sanitize)) event n [v] = 0 := by
    simp only [Count.since, hv, decide_true, if_true]
  have hext := h.extend ht (.single h.le_one (hzero ▸ Nat.zero_le 1))
  rwa [hzero] at hext

/-- The first visit of the kind. -/
theorem Counted.first (h : Counted event 0 c0 c) {v : Visit} (hv : v.site ≠ .sanitize)
    (hev : event v = true) (ht : c'.trace = c.trace ++ [v]) : Counted event 1 c0 c' := by
  have hone : Count.since (fun v => decide (v.site = .sanitize)) event 0 [v] = 1 := by
    simp only [Count.since, decide_eq_false hv, hev, Bool.false_eq_true, if_false, if_true]
  have hext := h.extend ht (.single (Nat.zero_le 1) (hone ▸ Nat.le_refl 1))
  rwa [hone] at hext

end Counted

/-- At most once for each request, and not yet in the statuses of `early`. -/
structure OnceAfter (event : Visit → Bool) (early : Status → Bool) (c0 c : Conn) : Prop where
  counted : ∃ n, Counted event n c0 c
  fresh : c.place ≠ .free → early c.req.status = true → Counted event 0 c0 c

/-- What a handler leaves for the end of a turn. -/
structure HandledOnce (event : Visit → Bool) (early : Status → Bool) (c0 c : Conn) (ret : Int) :
    Prop where
  counted : ∃ n, Counted event n c0 c
  fresh : ret = 1 ∨ ret = -1 → early c.req.status = true → Counted event 0 c0 c

/-- The statuses at the end of a request are late, and the visits at the end of a turn are
not counted. -/
structure Fits (event : Visit → Bool) (early : Status → Bool) : Prop where
  done : early .done = false
  timedOut : early .timedOut = false
  dead : early .dead = false
  buffRead : early .buffRead = false
  filterFlush : ∀ v, v.site = .filterFlush → event v = false
  timeout : ∀ v, v.site = .timeout → event v = false
  workResp : ∀ v, v.site = .workResp → event v = false

section Once

variable {event : Visit → Bool} {early : Status → Bool} {c0 c c' : Conn} (e : Config)

theorem OnceAfter.start (c : Conn) : OnceAfter event early c c :=
  ⟨⟨0, .start c⟩, fun _ _ => .start c⟩

theorem HandledOnce.late {ret : Int} {n : Nat} (h : Counted event n c0 c)
    (hs : early c.req.status = false) : HandledOnce event early c0 c ret := by
  refine ⟨⟨n, h⟩, fun _ hearly => ?_⟩
  rw [hs] at hearly
  cases hearly

theorem HandledOnce.unseen {ret : Int} (h : Counted event 0 c0 c) :
    HandledOnce event early c0 c ret :=
  ⟨⟨0, h⟩, fun _ _ => h⟩

theorem HandledOnce.ends {n : Nat} (h : Counted event n c0 c) :
    HandledOnce event early c0 c 0 :=
  ⟨⟨n, h⟩, fun hret => by omega⟩

theorem TurnEnd.onceAfter (hf : Fits event early) {ret : Int} (h : TurnEnd c ret c')
    (hc : HandledOnce event early c0 c ret) : OnceAfter event early c0 c' := by
  obtain ⟨n, hn⟩ := hc.counted
  have hlate : ∀ {st : Status}, early st = false → c'.req.status = st → c'.trace = c.trace →
      OnceAfter event early c0 c' := by
    intro st hst hs ht
    refine ⟨⟨n, hn.same ht⟩, fun _ hearly => ?_⟩
    rw [hs, hst] at hearly
    cases hearly
  have hquiet : ∀ v : Visit, v.site = .filterFlush → v.quiet event := by
    intro v hv
    refine ⟨?_, hf.filterFlush v hv⟩
    rw [hv]
    nofun
  cases h with
  | blocked hret _ hs _ ht =>
    refine ⟨⟨n, hn.same ht⟩, fun _ hearly => ?_⟩
    rw [hs] at hearly
    exact (hc.fresh (.inr hret) hearly).same ht
  | goesOn hret _ hs _ ht =>
    refine ⟨⟨n, hn.same ht⟩, fun _ hearly => ?_⟩
    rw [hs] at hearly
    exact (hc.fresh (.inl hret) hearly).same ht
  | dies _ _ hs _ ht => exact hlate hf.dead hs ht
  | flushing _ _ hs _ ht =>
    rcases hs with hs | hs
    · exact hlate hf.done hs ht
    · exact hlate hf.dead hs ht
  | closed _ hp ht =>
    exact ⟨⟨n, hn.passed ht hquiet⟩, fun hne _ => absurd hp hne⟩
  | recycled _ c1 _ ht _ _ _ _ _ _ htrace =>
    have hzero := (hn.passed ht hquiet).sanitize rfl htrace
    exact ⟨⟨0, hzero⟩, fun _ _ => hzero⟩

/-- A flush leaves the count as it is. -/
theorem OnceAfter.idled (hf : Fits event early) (h : OnceAfter event early c0 c)
    (hp : c.place = .ready) (hidle : Idled c c') :
    (∃ n, Counted event n c0 c') ∧ (early c'.req.status = true → Counted event 0 c0 c') := by
  obtain ⟨n, hn⟩ := h.counted
  have hne : c.place ≠ .free := by
    rw [hp]
    decide
  refine ⟨⟨n, hn.same hidle.trace⟩, fun hearly => ?_⟩
  rcases hidle.status with hs | hs
  · rw [hs] at hearly
    exact (h.fresh hne hearly).same hidle.trace
  · rw [hs, hf.dead] at hearly
    cases hearly

/-- A turn of `process_requests`, given what its handler does. -/
theorem processRequest_onceAfter (hf : Fits event early) (h : OnceAfter event early c0 c)
    (hp : c.place = .ready)
    (hhandle : ∀ n, Counted event n c0 (c.dispatched e) →
      (early (c.dispatched e).req.status = true → Counted event 0 c0 (c.dispatched e)) →
      (c.dispatched e).visits (exec (processStatus e) (c.dispatched e)) ⊆
        c.visits (exec (processRequest e) c) →
      HandledOnce event early c0 (exec (processStatus e) (c.dispatched e))
        (value (processStatus e) (c.dispatched e))) :
    OnceAfter event early c0 (exec (processRequest e) c) := by
  rcases processRequest_run e c with ⟨hv, hrun⟩ | ⟨-, hrun⟩
  · obtain ⟨⟨n, h1⟩, hfresh⟩ := h.idled hf hp (dispatched_idled e c)
    have hhandled := hhandle n h1 hfresh (processRequest_visits e hv)
    rw [hrun]
    exact (settle_turnEnd e _ _).onceAfter hf hhandled
  · obtain ⟨⟨n, h1⟩, hfresh⟩ := h.idled hf hp (topFlush_idles e c)
    rw [hrun]
    exact (settle_turnEnd e _ _).onceAfter hf ⟨⟨n, h1⟩, fun _ => hfresh⟩

theorem selectStep_onceAfter (hf : Fits event early) (h : OnceAfter event early c0 c)
    (hp : c.place = .block) (w : World) (readyR readyW : Nat → Bool) :
    OnceAfter event early c0 (exec (do
      selectFds readyR readyW
      fdsetUpdate e) { c with sys := w }) := by
  obtain ⟨n, hn⟩ := h.counted
  have hne : c.place ≠ .free := by
    rw [hp]
    decide
  rcases select_outcome e readyR readyW { c with sys := w } with hw | ⟨v, hv, hw⟩
  · refine ⟨⟨n, hn.same hw.trace⟩, fun _ hearly => ?_⟩
    rw [hw.req] at hearly
    exact (h.fresh hne hearly).same hw.trace
  · have hpass : Passed (· = .timeout) c _ :=
      ⟨[v], hw.trace, fun u hu => by rw [List.mem_singleton.mp hu]; exact hv⟩
    refine ⟨⟨n, hn.passed hpass ?_⟩, fun _ hearly => ?_⟩
    · intro u hu
      refine ⟨?_, hf.timeout u hu⟩
      rw [hu]
      nofun
    · rw [hw.req, hf.timedOut] at hearly
      cases hearly

theorem resultsStep_onceAfter (hf : Fits event early) (h : OnceAfter event early c0 c)
    (rs : List (Int × List Byte)) : OnceAfter event early c0 (exec (cgiWorkResps rs) c) := by
  obtain ⟨n, hn⟩ := h.counted
  have hscan := cgiWorkResps_scanned (T := fun st => early st = false) (S := (· = .workResp))
    hf.buffRead rfl rs c
  have hquiet : ∀ v : Visit, v.site = .workResp → v.quiet event := by
    intro v hv
    refine ⟨?_, hf.workResp v hv⟩
    rw [hv]
    nofun
  refine ⟨⟨n, hn.passed hscan.passed hquiet⟩, fun hne hearly => ?_⟩
  rw [hscan.place] at hne
  rcases hscan.status with hst | hst
  · rw [hst] at hearly
    exact (h.fresh hne hearly).passed hscan.passed hquiet
  · rw [hst] at hearly
    cases hearly

end Once

end Crotalus
