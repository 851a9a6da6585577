import Mathlib.Data.List.Basic

namespace Count

universe u
variable {α : Type u} {reset event : α → Bool} {n : Nat} {as bs : List α}

/-- The events since the last reset, counted on from `n`. -/
def since (reset event : α → Bool) : Nat → List α → Nat
  | n,[] => n
  | n,a::as => since reset event (if reset a then 0 else if event a then n+1 else n) as

/-- At no point there have been two events since the last reset. -/
def AtMostOnce (reset event : α → Bool) (n : Nat) (as : List α) : Prop :=
  ∀ k, since reset event n (as.take k)≤1

theorem since_append : since reset event n (as++bs)=since reset event (since reset event n as) bs := by
  induction as generalizing n with
  | nil => rfl
  | cons a as ih => exact ih

theorem since_quiet (h : ∀ a∈as, reset a=false ∧ event a=false) : since reset event n as=n := by
  induction as with
  | nil => rfl
  | cons a as ih =>
    obtain ⟨hr,he⟩ := h a (List.mem_cons_self ..)
    simp only [since,hr,he,Bool.false_eq_true,if_false]
    exact ih fun b hb => h b (List.mem_cons_of_mem _ hb)

theorem AtMostOnce.last (h : AtMostOnce reset event n as) : since reset event n as≤1 := by
  have hall := h as.length
  rwa [List.take_length] at hall

theorem AtMostOnce.append (h : AtMostOnce reset event n as)
    (h' : AtMostOnce reset event (since reset event n as) bs) :
    AtMostOnce reset event n (as++bs) := by
  intro k
  rw [List.take_append]
  by_cases hk : k≤as.length
  · rw [Nat.sub_eq_zero_of_le hk,List.take_zero,List.append_nil]
    exact h k
  · rw [List.take_of_length_le (by omega),since_append]
    exact h' _

theorem AtMostOnce.quiet (hn : n≤1) (h : ∀ a∈as, reset a=false ∧ event a=false) :
    AtMostOnce reset event n as := by
  intro k
  rw [since_quiet fun a ha => h a (List.mem_of_mem_take ha)]
  exact hn

/-- One more element of the list. -/
theorem AtMostOnce.single {a : α} (hn : n≤1) (h : since reset event n [a]≤1) :
    AtMostOnce reset event n [a] := by
  intro k
  cases k with
  | zero => exact hn
  | succ k =>
    rw [List.take_succ_cons,List.take_nil]
    exact h

end Count
