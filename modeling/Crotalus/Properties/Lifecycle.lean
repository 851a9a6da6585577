import Crotalus.Framework.Run
import Crotalus.Spec.Lifecycle

namespace Crotalus

open Stateful Run

/-! The statuses of a request over its whole life, and how often its connection is used again. -/

/-- Workers answer a request that waits for them, or report that they failed. -/
def Ev.expected (c : Conn) : Ev → Prop
  | .results rs => c.req.status.buffered=true ∨ ∀ r∈rs,r.1≠0
  | _ => True

section Progress

variable {e : Config} {T : Status → Prop} {c c' c'' : Conn}

theorem cgiWorkResps_failed {rs : List (Int × List Byte)} (h : ∀ r∈rs,r.1≠0) (c : Conn) :
    exec (cgiWorkResps rs) c=c := by
  induction rs with
  | nil => rfl
  | cons r rs ih =>
    have hone : exec (cgiWorkResp r.1 r.2) c=c := by
      simp only [cgiWorkResp,if_pos (h r List.mem_cons_self),exec_pure]
    show exec (cgiWorkResps rs) (exec (cgiWorkResp r.1 r.2) c)=c
    rw [hone]
    exact ih fun r' hr => h r' (List.mem_cons_of_mem r hr)

/-- An event moves a request on, or ends it. -/
theorem step_stepped (e : Config) (c : Conn) (ev : Ev) (h : ev.expected c) :
    Stepped (·∈c.req.status.leadsTo) c (step e c ev) := by
  cases ev with
  | process w =>
    simp only [step]
    split
    · have hstart : Moved (·∈c.req.status.leadsTo) c { c with sys := w, waits := none } :=
        .same rfl rfl rfl rfl
      have hturn := processRequest_stepped e { c with sys := w, waits := none }
      exact (hturn.imp fun st hst => hst.1).after hstart
    · exact .within (.refl c)
  | select w readyR readyW =>
    simp only [step]
    split
    · have hstart : Moved (·∈c.req.status.leadsTo) c { c with sys := w } := .same rfl rfl rfl rfl
      apply Stepped.within
      apply hstart.trans
      apply (select_moved e readyR readyW { c with sys := w }).imp
      intro st hst
      rw [hst]
      exact c.req.status.leadsTo_dead.2
    · exact .within (.refl c)
  | results rs =>
    apply Stepped.within
    rcases h with hb|hfail
    · exact cgiWorkResps_moved (Status.buffered_leads hb) rs c
    · rw [step,cgiWorkResps_failed hfail]
      exact .refl c

/-- The status is one that leads on from that of `c`, unless the request has ended. -/
theorem Stepped.progress (h : Stepped (·∈c.req.status.leadsTo) c c')
    (hsame : Passed (· ≠ .sanitize) c c') : c'.req.status∈c.req.status.leadsTo := by
  cases h with
  | within h => exact h.status.elim (fun h => h ▸ c.req.status.leadsTo_self) id
  | recycled c1 h _ _ _ _ ht =>
    obtain ⟨vs,htrace,-⟩ := h.passed
    obtain ⟨vs',htrace',hall⟩ := hsame
    have hvs : vs++[⟨.sanitize,c1.req,c1.sys⟩]=vs' := by
      apply (List.append_right_inj c.trace).mp
      rw [← List.append_assoc,← htrace,← ht,htrace']
    have hmem : (⟨.sanitize,c1.req,c1.sys⟩ : Visit)∈vs' := by
      rw [← hvs]
      exact List.mem_append_right _ List.mem_cons_self
    exact absurd rfl (hall _ hmem)

theorem Stepped.grows (h : Stepped T c c') : ∃ vs,c'.trace=c.trace++vs := by
  cases h with
  | within h =>
    obtain ⟨vs,ht,-⟩ := h.passed
    exact ⟨vs,ht⟩
  | recycled c1 h _ _ _ _ ht =>
    obtain ⟨vs,ht',-⟩ := h.passed
    exact ⟨vs++[⟨.sanitize,c1.req,c1.sys⟩],by rw [ht,ht',List.append_assoc]⟩

theorem trace_grows {evs : List Ev} (hok : AllSteps (step e) Ev.expected c evs) :
    ∃ vs,(final (step e) c evs).trace=c.trace++vs := by
  have hinv : ∀ t ev,(∃ vs,t.trace=c.trace++vs) → ev.expected t →
      ∃ vs,(step e t ev).trace=c.trace++vs := by
    rintro t ev ⟨vs,hvs⟩ hev
    obtain ⟨vs',hvs'⟩ := (step_stepped e t ev hev).grows
    exact ⟨vs++vs',by rw [hvs',hvs,List.append_assoc]⟩
  exact invariant_final hinv ⟨[],(List.append_nil _).symm⟩ hok

/-- What is passed on the whole way is passed on each part of it. -/
theorem Passed.split {S : Site → Prop} (h : Passed S c c'') (hgrows : ∃ vs,c'.trace=c.trace++vs)
    (hgrows' : ∃ vs,c''.trace=c'.trace++vs) : Passed S c c' ∧ Passed S c' c'' := by
  obtain ⟨vs,ht,hall⟩ := h
  obtain ⟨vs1,ht1⟩ := hgrows
  obtain ⟨vs2,ht2⟩ := hgrows'
  have hvs : vs1++vs2=vs := by
    apply (List.append_right_inj c.trace).mp
    rw [← List.append_assoc,← ht1,← ht2,ht]
  constructor
  · exact ⟨vs1,ht1,fun v hv => hall v (hvs ▸ List.mem_append_left vs2 hv)⟩
  · exact ⟨vs2,ht2,fun v hv => hall v (hvs ▸ List.mem_append_right vs1 hv)⟩

/-- A request only goes forward: through its header, the body of a POST and one way of answering,
which it never leaves for another, to its end, whatever events come in whatever order. -/
theorem request_goesForward (e : Config) (c : Conn) (evs : List Ev)
    (hok : AllSteps (step e) Ev.expected c evs)
    (hsame : Passed (· ≠ .sanitize) c (final (step e) c evs)) :
    (final (step e) c evs).req.status∈c.req.status.leadsTo := by
  induction evs generalizing c with
  | nil => exact c.req.status.leadsTo_self
  | cons ev evs ih =>
    have hone := step_stepped e c ev hok.1
    obtain ⟨hfirst,hrest⟩ := hsame.split hone.grows (trace_grows hok.2)
    exact Status.leadsTo_trans (hone.progress hfirst) (ih (step e c ev) hok.2 hrest)

end Progress

/-- A connection whose client asks for a file that is not there, and two turns of it. -/
def asking : Conn := { req := { fd := 5, clientStream := str "GET / HTTP/1.1\r\n\r\n" } }

def turns : List Ev := [.process {},.process { sock := [.done 4096] }]

theorem asking_passed : Passed (· ≠ .sanitize) asking (final (step {}) asking turns) := by
  have hall : ((final (step {}) asking turns).trace.all fun v => v.site≠.sanitize)=true := by
    decide +kernel
  refine ⟨(final (step {}) asking turns).trace,(List.nil_append _).symm,fun v hv => ?_⟩
  exact of_decide_eq_true (List.all_eq_true.mp hall v hv)

theorem request_goesForward_asking :
    (final (step {}) asking turns).req.status∈asking.req.status.leadsTo :=
  request_goesForward {} asking turns ⟨trivial,trivial,trivial⟩ asking_passed

/-! The connection over its requests. -/

/-- The requests that ended on the way: each one allowed for another, and `kacount` has been
lowered for each of them. -/
structure Reused (c c' : Conn) : Prop where
  fd : c'.req.fd=c.req.fd
  visits : ∃ vs,c'.trace=c.trace++vs ∧
    vs.countP (fun v => v.site = .sanitize)+c'.req.kacount=c.req.kacount ∧
    ∀ v∈vs,v.site=.sanitize → v.req.keepsAlive=true

section Reused

variable {e : Config} {T : Status → Prop} {c c' c'' : Conn}

theorem Reused.refl (c : Conn) : Reused c c :=
  ⟨rfl,[],(List.append_nil _).symm,Nat.zero_add _,fun _ hv => absurd hv List.not_mem_nil⟩

theorem Reused.trans (h : Reused c c') (h' : Reused c' c'') : Reused c c'' := by
  obtain ⟨hfd,vs,ht,hcount,hall⟩ := h
  obtain ⟨hfd',vs',ht',hcount',hall'⟩ := h'
  refine ⟨hfd'.trans hfd,vs++vs',by rw [ht',ht,List.append_assoc],?_,fun v hv => ?_⟩
  · rw [List.countP_append]
    omega
  · exact (List.mem_append.mp hv).elim (hall v) (hall' v)

theorem Moved.reused (h : Moved T c c') : Reused c c' := by
  obtain ⟨vs,ht,hall⟩ := h.passed
  refine ⟨h.fd,vs,ht,?_,fun v hv hs => absurd hs (hall v hv)⟩
  have hnone : vs.countP (fun v => v.site = .sanitize)=0 := by
    apply List.countP_eq_zero.mpr
    intro v hv
    simpa using hall v hv
  rw [hnone,Nat.zero_add]
  exact h.kacount

theorem Stepped.reused (h : Stepped T c c') : Reused c c' := by
  cases h with
  | within h => exact h.reused
  | recycled c1 h hka hk hfd _ ht =>
    have hlast : Reused c1 c' := by
      refine ⟨hfd,[⟨.sanitize,c1.req,c1.sys⟩],ht,?_,fun v hv _ => ?_⟩
      · rw [← hk,Nat.add_comm]
        rfl
      · rw [List.mem_singleton.mp hv]
        exact hka
    exact h.reused.trans hlast

theorem step_reused (e : Config) (c : Conn) (ev : Ev) : Reused c (step e c ev) := by
  cases ev with
  | results rs => exact (cgiWorkResps_moved (T := fun _ => True) trivial rs c).reused
  | process w => exact (step_stepped e c (.process w) trivial).reused
  | select w readyR readyW => exact (step_stepped e c (.select w readyR readyW) trivial).reused

theorem accepted_kacount (h : Accepted e c) : c.req.kacount=e.kaMax := by
  obtain ⟨c0,now,fd,localIp,remoteIp,port,h|h⟩ := h
  · rw [h]
    rfl
  · have hw := refuseConn_works (T := fun _ => True) (S := (· ≠ .sanitize)) e trivial trivial
      (fun h => by cases h) (acceptConn e now fd localIp remoteIp port c0)
    rw [h,hw.moved.kacount]
    rfl

/-- From when a connection is accepted, in every run, the requests that have ended and those that
`kacount` still allows are `KeepAliveMax` together, each one that ended allowed for the next,
and the descriptor stays the same. -/
theorem keepAlive_bounded (e : Config) (c : Conn) (evs : List Ev) (h : Accepted e c) :
    (final (step e) c evs).req.fd=c.req.fd ∧ ∃ vs,(final (step e) c evs).trace=c.trace++vs ∧
      vs.countP (fun v => v.site = .sanitize)+(final (step e) c evs).req.kacount=e.kaMax ∧
        ∀ v∈vs,v.site=.sanitize → v.req.keepsAlive=true := by
  have hinv : ∀ t ev,Reused c t → True → Reused c (step e t ev) :=
    fun t ev ht _ => ht.trans (step_reused e t ev)
  have hrun : Reused c (final (step e) c evs) :=
    invariant_final hinv (.refl c) (allSteps_true c evs)
  rw [← accepted_kacount h]
  exact ⟨hrun.fd,hrun.visits⟩

end Reused

def firstAccepted : Conn := acceptConn {} 0 5 [] [] 0 {}

theorem keepAlive_bounded_first :
    (final (step {}) firstAccepted turns).req.fd=firstAccepted.req.fd ∧
      ∃ vs,(final (step {}) firstAccepted turns).trace=firstAccepted.trace++vs ∧
        vs.countP (fun v => v.site = .sanitize)+
          (final (step {}) firstAccepted turns).req.kacount=Config.kaMax {} ∧
          ∀ v∈vs,v.site=.sanitize → v.req.keepsAlive=true :=
  keepAlive_bounded {} firstAccepted turns ⟨{},0,5,[],[],0,.inl rfl⟩

end Crotalus
