import Crotalus.Spec.Queue

namespace Crotalus

open Stateful Linked

namespace Queues

/-! The queues and the counter of connections over whole runs of the main loop. -/

/-- The queues are the lists `q`, which hold each allocated struct once, and the counter counts
the requests that are ready or blocked. -/
structure Accounts (max : Nat) (q : Place → List Nat) (s : Queues) : Prop where
  lists : ∀ p,IsList s.links (s.head p) (q p)
  nodup : ∀ p,(q p).Nodup
  apart : ∀ p p',p≠p' → ∀ i∈q p,i∉q p'
  all : ∀ i,i∈s.allocated ↔ ∃ p,i∈q p
  count : s.totalConnections=(q .ready).length+(q .block).length
  bound : s.totalConnections ≤ max+1

/-- In the next round both loops come to their end and visit each request that was on their
queue once. -/
def VisitsOnce (max fuel : Nat) (p : Pass) (s : Queues) : Prop :=
  ∃ s1,prepare p max fuel s=some s1 ∧ ∃ q1 s2,Accounts max q1 s1 ∧
    fdsetUpdate p fuel s1=some (q1 .block,s2) ∧ ∃ q2 visited s3,Accounts max q2 s2 ∧
      processRequests p.conf max fuel s2=some (visited,s3) ∧ visited.Nodup ∧
        ∀ i∈q2 .ready,i∈visited

section Runs

variable {G : Conn → Prop} {max fuel : Nat} {q : Place → List Nat} {s : Queues} {p : Pass}

theorem Inv.accounts (h : Inv G max [] none q s) : Accounts max q s := by
  refine ⟨h.listed.lists,fun p => h.listed.list_nodup,fun p p' hp i hi => h.listed.apart hi hp,
    fun i => ?_,h.count,h.bound⟩
  have honce := h.listed.once i
  rw [List.count_nil,Nat.zero_add] at honce
  rw [← List.count_pos_iff,← honce]
  constructor
  · intro hpos
    unfold listedTimes at hpos
    by_cases hr : 0 < (q .ready).count i
    · exact ⟨.ready,List.count_pos_iff.mp hr⟩
    by_cases hb : 0 < (q .block).count i
    · exact ⟨.block,List.count_pos_iff.mp hb⟩
    · exact ⟨.free,List.count_pos_iff.mp (by omega)⟩
  · rintro ⟨p,hp⟩
    have hle := count_le_listedTimes (q := q) (p := p) i
    have hpos := List.count_pos_iff.mpr hp
    omega

theorem askAccept_inv (h : Inv G max [] none q s) :
    Inv G max [] none q (askAccept p max s) ∧
      ((askAccept p max s).listening=true → (askAccept p max s).totalConnections ≤ max) := by
  unfold askAccept
  dsimp only
  generalize (if p.sigterm=true ∧ s.sigtermFlag=0 then 1 else s.sigtermFlag) = flag
  by_cases hflag : flag=0
  · rw [if_pos hflag]
    exact ⟨⟨h.listed.congr rfl rfl rfl rfl,h.conns,h.count,h.room,h.bound,h.size⟩,
      fun h => of_decide_eq_true h⟩
  · rw [if_neg hflag]
    exact ⟨⟨h.listed.congr rfl rfl rfl rfl,h.conns,h.count,h.room,h.bound,h.size⟩,
      fun h => (by cases h)⟩

/-- The signals, the question for connections and `select` leave the queues alone. -/
theorem prepare_inv (h : Inv G max [] none q s) (hfuel : max+1 ≤ fuel) :
    ∃ t q',prepare p max fuel s=some t ∧ Inv G max [] none q' t := by
  have hsig : ∃ t q',sighupRun p fuel s=some t ∧ Inv G max [] none q' t := by
    unfold sighupRun
    split
    · obtain ⟨t,hrun,ht⟩ := freeRequests_inv h hfuel
      exact ⟨t,_,hrun,ht⟩
    · exact ⟨s,q,rfl,h⟩
  obtain ⟨t,q',hrun,ht⟩ := hsig
  refine ⟨_,q',by rw [prepare,hrun]; rfl,?_⟩
  let t0 : Queues := { t with accepts := p.accepts, turns := p.turns }
  have ht0 : Inv G max [] none q' t0 :=
    ⟨ht.listed.congr rfl rfl rfl rfl,ht.conns,ht.count,ht.room,ht.bound,ht.size⟩
  obtain ⟨ht1,hlisten⟩ := askAccept_inv (p := p) ht0
  let t1 := askAccept p max t0
  change Inv G max [] none q' (if t1.exited=true then _ else if p.interrupted=true then _ else _)
  split_ifs
  · exact ht1
  · exact ⟨ht1.listed.congr rfl rfl rfl rfl,ht1.conns,ht1.count,fun h => (by cases h),ht1.bound,
      ht1.size⟩
  · refine ⟨ht1.listed.congr rfl rfl rfl rfl,ht1.conns,ht1.count,fun h => hlisten ?_,ht1.bound,
      ht1.size⟩
    -- connections are pending only when the server asked for some
    exact (Bool.and_eq_true_iff.mp (of_decide_eq_true h).2).1

/-- Both loops of a round. -/
theorem sweep_inv (hacc : ∀ c,Accepted p.conf c → G c) (hstep : ∀ c ev,G c → G (step p.conf c ev))
    (h : Inv G max [] none q s) (hfuel : max+1 ≤ fuel) :
    ∃ q2 s2 visited q3 s3,fdsetUpdate p fuel s=some (q .block,s2) ∧ Inv G max [] none q2 s2 ∧
      processRequests p.conf max fuel s2=some (visited,s3) ∧ Inv G max [] none q3 s3 ∧
        visited.Nodup ∧ ∀ i∈q2 .ready,i∈visited := by
  obtain ⟨s2,q2,hupdate,h2⟩ := fdsetUpdate_inv hstep h hfuel
  obtain ⟨new,s3,q3,hprocess,hnodup,h3⟩ := processRequests_inv hacc hstep h2 hfuel
  exact ⟨q2,s2,new++q2 .ready,q3,s3,hupdate,h2,hprocess,h3,hnodup,
    fun i hi => List.mem_append_right new hi⟩

theorem serve_inv (hacc : ∀ c,Accepted p.conf c → G c) (hstep : ∀ c ev,G c → G (step p.conf c ev))
    (h : Inv G max [] none q s) (hfuel : max+1 ≤ fuel) :
    ∃ t q',serve p max fuel s=some t ∧ Inv G max [] none q' t := by
  obtain ⟨q2,s2,visited,q3,s3,hupdate,-,hprocess,h3,-,-⟩ := sweep_inv hacc hstep h hfuel
  unfold serve
  split
  · exact ⟨s,q,rfl,h⟩
  · exact ⟨s3,q3,by rw [hupdate,Option.bind_some,hprocess]; rfl,h3⟩

theorem loop_inv (hfuel : max+1 ≤ fuel) {ps : List Pass}
    (hacc : ∀ p∈ps,∀ c,Accepted p.conf c → G c)
    (hstep : ∀ p∈ps,∀ c ev,G c → G (step p.conf c ev)) (h : Inv G max [] none q s) :
    ∃ t q',loop max fuel ps s=some t ∧ Inv G max [] none q' t := by
  induction ps generalizing q s with
  | nil => exact ⟨s,q,rfl,h⟩
  | cons p ps ih =>
    unfold loop
    split
    · exact ⟨s,q,rfl,h⟩
    obtain ⟨s1,q1,hprepare,h1⟩ := prepare_inv (p := p) h hfuel
    obtain ⟨s2,q2,hserve,h2⟩ :=
      serve_inv (hacc p List.mem_cons_self) (hstep p List.mem_cons_self) h1 hfuel
    obtain ⟨t,q',hloop,ht⟩ := ih (fun p hp => hacc p (List.mem_cons_of_mem _ hp))
      (fun p hp => hstep p (List.mem_cons_of_mem _ hp)) h2
    exact ⟨t,q',by rw [hprepare,Option.bind_some,hserve,Option.bind_some,hloop],ht⟩

theorem start_inv (links : Links Nat) (conns : Nat → Conn) :
    Inv G max [] none (fun _ => []) (start links conns) :=
  ⟨⟨fun _ => ⟨rfl,trivial⟩,fun _ => rfl,List.nodup_nil,fun _ hi => (by cases hi)⟩,
    fun _ _ _ hi => (by cases hi),rfl,fun h => (by cases h),Nat.zero_le _,Nat.zero_le _⟩

/-- What a connection has when it is accepted and keeps in each of its turns, every connection
on the ready and the blocked queue has, whatever happens to the others. -/
theorem loop_lifts (hfuel : max+1 ≤ fuel) {ps : List Pass}
    (hacc : ∀ p∈ps,∀ c,Accepted p.conf c → G c)
    (hstep : ∀ p∈ps,∀ c ev,G c → G (step p.conf c ev)) (links : Links Nat) (conns : Nat → Conn) :
    ∃ t q',loop max fuel ps (start links conns)=some t ∧ Accounts max q' t ∧
      ∀ p,p≠.free → ∀ i∈q' p,(t.conns i).place=p ∧ G (t.conns i) := by
  obtain ⟨t,q',hrun,ht⟩ := loop_inv hfuel hacc hstep (start_inv links conns)
  exact ⟨t,q',hrun,ht.accounts,fun p hp i hi => ht.conns p hp i hi fun h => (by cases h)⟩

/-- In every state that a run of the main loop reaches the queues are well formed and the counter
agrees with them, and in any further round both loops visit their requests once. -/
theorem queues_accounted (max fuel : Nat) (hfuel : max+1 ≤ fuel) (links : Links Nat)
    (conns : Nat → Conn) (ps : List Pass) :
    ∃ s,loop max fuel ps (start links conns)=some s ∧ (∃ q,Accounts max q s) ∧
      ∀ p,VisitsOnce max fuel p s := by
  obtain ⟨s,q,hrun,h⟩ := loop_inv (G := fun _ => True) hfuel
    (fun _ _ _ _ => trivial) (fun _ _ _ _ _ => trivial) (start_inv links conns)
  refine ⟨s,hrun,⟨q,h.accounts⟩,fun p => ?_⟩
  obtain ⟨s1,q1,hprepare,h1⟩ := prepare_inv (p := p) h hfuel
  obtain ⟨q2,s2,visited,q3,s3,hupdate,h2,hprocess,h3,hnodup,hall⟩ :=
    sweep_inv (p := p) (fun _ _ => trivial) (fun _ _ _ => trivial) h1 hfuel
  exact ⟨s1,hprepare,q1,s2,h1.accounts,hupdate,q2,visited,s3,h2.accounts,hprocess,hnodup,hall⟩

end Runs

/-- A round with a connection, in a server without a struct. -/
def firstConn : Pass := { serverReady := true, accepts := [some { fd := 7 }] }

def emptyServer : Queues := start ⟨fun _ => none,fun _ => none⟩ fun _ => {}

theorem queues_accounted_firstConn :
    (loop 1 2 [firstConn] emptyServer).map (fun s => s.totalConnections)=some 1 ∧
      ∃ s,loop 1 2 [firstConn] emptyServer=some s ∧ (∃ q,Accounts 1 q s) ∧
        ∀ p,VisitsOnce 1 2 p s :=
  ⟨by decide +kernel,queues_accounted 1 2 (by decide) _ _ [firstConn]⟩

end Queues

end Crotalus
