import Crotalus.Properties.Queues
import Crotalus.Spec.Lifecycle

namespace Crotalus

open Stateful Linked

/-! Requests that run out of time, over whole runs of the main loop. -/

section Connection

variable {e : Config} {c : Conn}

end Connection

namespace Queues

section Update

variable {p : Pass} {c : Conn}

theorem passed_place (hc : c.place=.block) :
    (passed p c).place=.block ∨ (passed p c).place=.ready := by
  rcases select_outcome p.conf p.readyR p.readyW { c with sys := p.sys } with hw|⟨v,-,hw⟩
  all_goals exact hw.place.imp (fun h => h.trans hc) id

end Update

section Rounds

variable {max : Nat} {q : Place → List Nat} {s t : Queues} {x : Nat} {front rest : List Nat}

/-- What becomes of the queues when the request of a turn is settled. -/
theorem Settled.lists {c : Conn} (h : Listed [] q s) (hq : q .ready=front++x::rest)
    (hs : Settled x s c t) : ∃ q' front',Listed [] q' t ∧ q' .ready=front'++rest ∧
      (∀ i,i∈front' ∨ i∈q' .block → i=x ∨ i∈front ∨ i∈q .block) ∧
      t.conns=(s.setConn x c).conns := by
  have hblock : ∀ p xs,p≠.block → putList (putList q .ready (front++rest)) p xs .block=q .block :=
    fun p xs hp => (putList_other _ _ (Ne.symm hp)).trans (putList_other q _ fun h => by cases h)
  have hready : ∀ p xs,p≠.ready → putList (putList q .ready (front++rest)) p xs .ready=front++rest :=
    fun p xs hp => (putList_other _ _ (Ne.symm hp)).trans (putList_same q _ _)
  cases hs with
  | stays =>
    refine ⟨q,front++[x],h.congr rfl rfl rfl rfl,by simp [hq],fun i hi => ?_,rfl⟩
    rcases hi with hi|hi
    · rcases List.mem_append.mp hi with hi|hi
      · exact .inr (.inl hi)
      · exact .inl (List.mem_singleton.mp hi)
    · exact .inr (.inr hi)
  | parks =>
    refine ⟨_,front,((h.dequeue hq).enqueue (p := .block)).congr rfl rfl rfl rfl,
      hready .block _ (fun h => by cases h),fun i hi => ?_,rfl⟩
    rw [putList_same,putList_other q _ (fun h => by cases h)] at hi
    rcases hi with hi|hi
    · exact .inr (.inl hi)
    · exact (List.mem_cons.mp hi).imp_right .inr
  | frees =>
    refine ⟨_,front,((h.dequeue hq).enqueue (p := .free)).congr rfl rfl rfl rfl,
      hready .free _ (fun h => by cases h),fun i hi => ?_,rfl⟩
    rw [hblock .free _ (fun h => by cases h)] at hi
    exact .inr hi

/-- The lists on the queues are those that their links spell. -/
theorem Listed.unique {held held' : List Nat} {q' : Place → List Nat} (h : Listed held q s)
    (h' : Listed held' q' s) : q=q' := by
  funext p
  exact (h.lists p).unique (h'.lists p)

end Rounds

end Queues

end Crotalus
