import Crotalus.Framework.Stateful

namespace Stateful

universe u
variable {σ α β γ : Type u} {t : σ → σ} {hidden : σ → γ}

/-! Programs that neither look at a part of the state nor change it. -/

/-- What `t` forgets of the state has no influence on the value of the program, nor on what
`t` leaves of the state behind it; and the program leaves the hidden part alone. -/
def Blind (t : σ → σ) (hidden : σ → γ) (m : StateM σ α) : Prop :=
  ∀ s,value m (t s)=value m s ∧ t (exec m (t s))=t (exec m s) ∧ hidden (exec m s)=hidden s

/-- Two runs from states that differ only in what is forgotten. -/
theorem Blind.agree {m : StateM σ α} (h : Blind t hidden m) {s s' : σ} (hs : t s=t s') :
    value m s=value m s' ∧ t (exec m s)=t (exec m s') := by
  obtain ⟨hv,he,-⟩ := h s
  obtain ⟨hv',he',-⟩ := h s'
  rw [hs] at hv he
  exact ⟨hv.symm.trans hv',he.symm.trans he'⟩

theorem Blind.keeps {m : StateM σ α} (h : Blind t hidden m) : Keeps hidden m := fun s => (h s).2.2

theorem Blind.bind {m : StateM σ α} {f : α → StateM σ β} (hm : Blind t hidden m)
    (hf : ∀ a,Blind t hidden (f a)) : Blind t hidden (m >>= f) := by
  intro s
  obtain ⟨hv,he,hk⟩ := hm s
  obtain ⟨hv',he'⟩ := (hf (value m s)).agree he
  rw [value_bind,exec_bind,hv]
  exact ⟨hv',he',((hf _).keeps _).trans hk⟩

/-- The part of the state that the program reads is none of what is forgotten. -/
theorem Blind.read {f : σ → StateM σ α} (hf : ∀ s,f (t s)=f s) (h : ∀ s,Blind t hidden (f s)) :
    Blind t hidden (get >>= f) := by
  intro s
  rw [value_bind,exec_bind,value_get,exec_get,hf]
  exact h s s

theorem Blind.modify {f : σ → σ} (h : ∀ s,t (f (t s))=t (f s)) (hk : ∀ s,hidden (f s)=hidden s) :
    Blind t hidden (modify f : StateM σ PUnit) := fun s => ⟨rfl,h s,hk s⟩

theorem Blind.ite {p : Prop} [Decidable p] {m n : StateM σ α} (hm : Blind t hidden m)
    (hn : Blind t hidden n) : Blind t hidden (if p then m else n) := by
  split
  · exact hm
  · exact hn

section Idempotent

variable (ht : ∀ s,t (t s)=t s)
include ht

theorem Blind.pure (a : α) : Blind t hidden (Pure.pure a : StateM σ α) := fun s => ⟨rfl,ht s,rfl⟩

/-- It is enough that `t` can be applied before the program as well as behind it. -/
theorem Blind.of_commutes {m : StateM σ α}
    (h : ∀ s,value m (t s)=value m s ∧ exec m (t s)=t (exec m s) ∧ hidden (exec m s)=hidden s) :
    Blind t hidden m := by
  intro s
  obtain ⟨hv,he,hk⟩ := h s
  exact ⟨hv,by rw [he,ht],hk⟩

end Idempotent

end Stateful
