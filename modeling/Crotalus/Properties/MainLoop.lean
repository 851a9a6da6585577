import Crotalus.Framework.Run
import Crotalus.Properties.Queues
import Crotalus.Spec.Lifecycle

namespace Crotalus

open Stateful Linked Run

namespace Queues

/-! What whole runs of the main loop mean for a connection. -/

/-- A step of a connection under the settings in force. -/
def stepUnder (c : Conn) (x : Config × Ev) : Conn := step x.1 c x.2

/-- A state that a connection reaches alone, from its acceptance on, under settings of `ok`. -/
def Alone (ok : Config → Prop) (c : Conn) : Prop :=
  ∃ e c0 evs,ok e ∧ Accepted e c0 ∧ (∀ x∈evs,ok x.1) ∧ c=final stepUnder c0 evs

theorem Alone.step {ok : Config → Prop} {c : Conn} (h : Alone ok c) {e : Config} (he : ok e)
    (ev : Ev) : Alone ok (step e c ev) := by
  obtain ⟨e0,c0,evs,he0,hacc,hevs,hc⟩ := h
  refine ⟨e0,c0,evs++[(e,ev)],he0,hacc,?_,?_⟩
  · intro x hx
    rcases List.mem_append.mp hx with hx|hx
    · exact hevs x hx
    · rw [List.mem_singleton.mp hx]
      exact he
  · rw [hc,final,final,List.foldl_append]
    rfl

/-- The main loop only interleaves its connections: whatever it does, each one that is ready or
blocked is in a state of a run of its own. -/
theorem loop_interleaves (max fuel : Nat) (hfuel : max+1 ≤ fuel) (links : Links Nat)
    (conns : Nat → Conn) (ps : List Pass) :
    ∃ s q,loop max fuel ps (start links conns)=some s ∧ Accounts max q s ∧
      ∀ p,p≠.free → ∀ i∈q p,(s.conns i).place=p ∧ Alone (fun e => ∃ p∈ps,p.conf=e) (s.conns i) := by
  apply loop_lifts hfuel
  · intro p hp c hc
    exact ⟨p.conf,c,[],⟨p,hp,rfl⟩,hc,fun x hx => absurd hx List.not_mem_nil,rfl⟩
  · intro p hp c ev hc
    exact hc.step ⟨p,hp,rfl⟩ ev

theorem loop_interleaves_firstConn :
    ∃ s q,loop 1 2 [firstConn] emptyServer=some s ∧ Accounts 1 q s ∧
      ∀ p,p≠.free → ∀ i∈q p,(s.conns i).place=p ∧
        Alone (fun e => ∃ p∈[firstConn],p.conf=e) (s.conns i) :=
  loop_interleaves 1 2 (by decide) _ _ [firstConn]

/-! The end of the server. -/

/-- What a server that takes no connections leaves alone. -/
structure Unopened (s t : Queues) : Prop where
  mallocs : t.mallocs=s.mallocs
  accepts : t.accepts=s.accepts
  flag : t.sigtermFlag=s.sigtermFlag
  exited : t.exited=s.exited
  pending : t.pendingRequests=s.pendingRequests
  total : t.totalConnections ≤ s.totalConnections

section Unopened

variable {s t u : Queues} {max fuel : Nat} {p : Pass} {x : Nat}

theorem Unopened.refl (s : Queues) : Unopened s s := ⟨rfl,rfl,rfl,rfl,rfl,Nat.le_refl _⟩

theorem Unopened.trans (h : Unopened s t) (h' : Unopened t u) : Unopened s u :=
  ⟨h'.mallocs.trans h.mallocs,h'.accepts.trans h.accepts,h'.flag.trans h.flag,
    h'.exited.trans h.exited,h'.pending.trans h.pending,h'.total.trans h.total⟩

end Unopened

end Queues

end Crotalus
