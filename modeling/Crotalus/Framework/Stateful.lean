import Mathlib.Logic.Basic

namespace Stateful

universe u
variable {σ α β : Type u}

/-- The state a program leaves, and the value it returns. -/
def exec (m : StateM σ α) (s : σ) : σ := (m.run s).2
def value (m : StateM σ α) (s : σ) : α := (m.run s).1

@[simp] theorem exec_pure (a : α) (s : σ) : exec (pure a : StateM σ α) s = s := (rfl)
@[simp] theorem value_pure (a : α) (s : σ) : value (pure a : StateM σ α) s = a := (rfl)
@[simp] theorem exec_bind (m : StateM σ α) (f : α → StateM σ β) (s : σ) :
    exec (m >>= f) s = exec (f (value m s)) (exec m s) := (rfl)
@[simp] theorem value_bind (m : StateM σ α) (f : α → StateM σ β) (s : σ) :
    value (m >>= f) s = value (f (value m s)) (exec m s) := (rfl)
@[simp] theorem exec_map (f : α → β) (m : StateM σ α) (s : σ) :
    exec (f <$> m) s = exec m s := (rfl)
@[simp] theorem value_map (f : α → β) (m : StateM σ α) (s : σ) :
    value (f <$> m) s = f (value m s) := (rfl)
@[simp] theorem exec_get (s : σ) : exec (get : StateM σ σ) s = s := (rfl)
@[simp] theorem value_get (s : σ) : value (get : StateM σ σ) s = s := (rfl)
@[simp] theorem exec_set (s t : σ) : exec (set t : StateM σ PUnit) s = t := (rfl)
@[simp] theorem exec_modify (f : σ → σ) (s : σ) :
    exec (modify f : StateM σ PUnit) s = f s := (rfl)

@[simp] theorem exec_ite (c : Prop) [Decidable c] (m n : StateM σ α) (s : σ) :
    exec (if c then m else n) s = if c then exec m s else exec n s := by
  split <;> rfl

@[simp] theorem value_ite (c : Prop) [Decidable c] (m n : StateM σ α) (s : σ) :
    value (if c then m else n) s = if c then value m s else value n s := by
  split <;> rfl

/-! Two-state relations: what a program may do to the state it starts from. -/

def Rel (R : σ → σ → Prop) (m : StateM σ α) : Prop := ∀ s, R s (exec m s)

/-- Some run of the program returns this value. -/
def Returns (m : StateM σ α) (a : α) : Prop := ∃ s, value m s = a

section Rel

variable {R : σ → σ → Prop}

theorem Rel.pure (hr : ∀ s, R s s) (a : α) : Rel R (pure a : StateM σ α) :=
  fun s => hr s

theorem Rel.seq (ht : ∀ {s t u}, R s t → R t u → R s u) {m : StateM σ α}
    {f : α → StateM σ β}
    (hm : Rel R m) (hf : ∀ a, Returns m a → Rel R (f a)) : Rel R (m >>= f) :=
  fun s => ht (hm s) (hf _ ⟨s,rfl⟩ _)

theorem Rel.map {m : StateM σ α} (f : α → β) (hm : Rel R m) : Rel R (f <$> m) := hm

theorem Rel.read {f : σ → StateM σ α} (hf : ∀ s, Rel R (f s)) : Rel R (get >>= f) :=
  fun s => hf s s

theorem Rel.modify {f : σ → σ} (hf : ∀ s, R s (f s)) :
    Rel R (modify f : StateM σ PUnit) := hf

theorem Rel.ite {c : Prop} [Decidable c] {m n : StateM σ α}
    (hm : Rel R m) (hn : Rel R n) : Rel R (if c then m else n) := by
  split
  · exact hm
  · exact hn

end Rel

/-! Parts of the state that a program leaves alone. -/

/-- The program does not change what `f` reads of the state. -/
def Keeps {γ : Type u} (f : σ → γ) (m : StateM σ α) : Prop := Rel (fun s t => f t=f s) m

section Keeps

variable {γ : Type u} {f : σ → γ}

theorem Keeps.pure (a : α) : Keeps f (pure a : StateM σ α) := fun _ => rfl

theorem Keeps.bind {m : StateM σ α} {g : α → StateM σ β} (hm : Keeps f m)
    (hg : ∀ a, Keeps f (g a)) : Keeps f (m >>= g) :=
  fun s => (hg _ _).trans (hm s)

theorem Keeps.get : Keeps f (get : StateM σ σ) := fun _ => rfl

theorem Keeps.modify {g : σ → σ} (h : ∀ s, f (g s)=f s) :
    Keeps f (modify g : StateM σ PUnit) := h

theorem Keeps.ite {c : Prop} [Decidable c] {m n : StateM σ α} (hm : Keeps f m)
    (hn : Keeps f n) : Keeps f (if c then m else n) :=
  Rel.ite hm hn

end Keeps

/-! Assertions before and after, for steps whose effect depends on where they start. -/

def Triple (P : σ → Prop) (m : StateM σ α) (Q : α → σ → Prop) : Prop :=
  ∀ s, P s → Q (value m s) (exec m s)

section Triple

variable {P P' : σ → Prop} {Q Q' : α → σ → Prop} {T : β → σ → Prop}

theorem Triple.seq {m : StateM σ α} {f : α → StateM σ β}
    (hm : Triple P m Q) (hf : ∀ a, Triple (Q a) (f a) T) : Triple P (m >>= f) T :=
  fun s hs => hf _ _ (hm s hs)

theorem Triple.conseq {m : StateM σ α} (hm : Triple P m Q)
    (hp : ∀ s, P' s → P s) (hq : ∀ a s, Q a s → Q' a s) : Triple P' m Q' :=
  fun s hs => hq _ _ (hm s (hp s hs))

theorem Triple.pure {a : α} (h : ∀ s, P s → Q a s) : Triple P (pure a : StateM σ α) Q := h

theorem Triple.read {f : σ → StateM σ α}
    (hf : ∀ t, Triple (fun s => s = t ∧ P s) (f t) Q) : Triple P (get >>= f) Q :=
  fun s hs => hf s s ⟨rfl,hs⟩

theorem Triple.run {m : StateM σ α} {f : α → StateM σ β}
    (hf : ∀ s,P s → ∀ a,value m s = a → T (value (f a) (exec m s)) (exec (f a) (exec m s))) :
    Triple P (m >>= f) T :=
  fun s hs => hf s hs _ rfl

theorem Triple.modify {f : σ → σ} {Q : PUnit → σ → Prop} (h : ∀ s, P s → Q ⟨⟩ (f s)) :
    Triple P (modify f : StateM σ PUnit) Q := h

theorem Triple.ite {c : Prop} [Decidable c] {m n : StateM σ α}
    (hm : c → Triple P m Q) (hn : ¬c → Triple P n Q) :
    Triple P (if c then m else n) Q := by
  split
  · exact hm ‹_›
  · exact hn ‹_›

end Triple

end Stateful
