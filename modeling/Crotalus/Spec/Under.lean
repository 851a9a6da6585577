import Crotalus.Spec.ReadWalk
import Crotalus.Spec.Turn

namespace Crotalus

open Stateful

/-! Invariants that hold as long as the visits of a run meet a condition. -/

/-- A condition on visits that the parts of a run inherit from the whole. -/
structure Splits (ok : List Visit → Prop) : Prop where
  left {l l' : List Visit} (h : ok (l ++ l')) : ok l
  right {l l' : List Visit} (h : ok (l ++ l')) : ok l'

theorem Splits.all : Splits (fun _ => True) := ⟨fun _ => trivial, fun _ => trivial⟩

theorem Splits.each (p : Visit → Prop) : Splits (fun vs => ∀ v ∈ vs, p v) :=
  ⟨fun h v hv => h v (List.mem_append_left _ hv), fun h v hv => h v (List.mem_append_right _ hv)⟩

/-- From `c` to `c'` the invariant `I` survives visits that meet `ok`. -/
structure Under (ok : List Visit → Prop) (I : Conn → Prop) (c c' : Conn) : Prop where
  passed : Passed (fun _ => True) c c'
  keeps (h : ok (c.visits c')) (hi : I c) : I c'

section Under

variable {ok : List Visit → Prop} {I : Conn → Prop} {c c' c'' : Conn}

theorem Under.refl (c : Conn) : Under ok I c c := ⟨.refl c, fun _ hi => hi⟩

theorem Under.trans (hs : Splits ok) (h : Under ok I c c') (h' : Under ok I c' c'') :
    Under ok I c c'' := by
  refine ⟨h.passed.trans h'.passed, fun hok hi => ?_⟩
  rw [visits_trans h.passed h'.passed] at hok
  exact h'.keeps (hs.right hok) (h.keeps (hs.left hok) hi)

/-- No visit, and the invariant survives anyway. -/
theorem Under.still (ht : c'.trace = c.trace) (hi : I c → I c') : Under ok I c c' :=
  ⟨.same ht, fun _ => hi⟩

/-- It survives whatever is visited. -/
theorem Under.passing (hp : Passed (fun _ => True) c c') (hi : I c → I c') : Under ok I c c' :=
  ⟨hp, fun _ => hi⟩

/-- One visit, which the invariant can rest on. -/
theorem Under.visiting {v : Visit} (ht : c'.trace = c.trace ++ [v]) (hi : ok [v] → I c → I c') :
    Under ok I c c' :=
  ⟨⟨_, ht, fun _ _ => trivial⟩, fun hok => hi (by rwa [visits_of_append ht] at hok)⟩

/-- Of the condition only what is left of it is needed. -/
theorem Under.mono {ok' : List Visit → Prop} (h : Under ok I c c') (hok : ∀ vs, ok' vs → ok vs) :
    Under ok' I c c' :=
  ⟨h.passed, fun hvs => h.keeps (hok _ hvs)⟩

end Under

end Crotalus
