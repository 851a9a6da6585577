import Mathlib.Data.List.Basic

namespace Run

universe u v
variable {σ : Type u} {ι : Type v}

/-- States a run passes through: before the first input and after each input. -/
def states (step : σ → ι → σ) : σ → List ι → List σ
  | s,[] => [s]
  | s,i::is => s::states step (step s i) is

def final (step : σ → ι → σ) (s : σ) (is : List ι) : σ := is.foldl step s

/-- Every step of the run starts in a state and takes an input that `ok` admits. -/
def AllSteps (step : σ → ι → σ) (ok : σ → ι → Prop) : σ → List ι → Prop
  | _,[] => True
  | s,i::is => ok s i ∧ AllSteps step ok (step s i) is

variable {step : σ → ι → σ} {ok : σ → ι → Prop} {I : σ → Prop}

/-- An invariant of the admitted steps holds in every state of a run made of them. -/
theorem invariant (hstep : ∀ s i, I s → ok s i → I (step s i)) {s : σ} {is : List ι}
    (h0 : I s) (hok : AllSteps step ok s is) : ∀ t∈states step s is,I t := by
  induction is generalizing s with
  | nil =>
    intro t ht
    rw [List.mem_singleton.mp ht]
    exact h0
  | cons i is ih =>
    intro t ht
    rcases List.mem_cons.mp ht with rfl|ht
    · exact h0
    · exact ih (hstep s i h0 hok.1) hok.2 t ht

theorem invariant_final (hstep : ∀ s i, I s → ok s i → I (step s i)) {s : σ}
    {is : List ι} (h0 : I s) (hok : AllSteps step ok s is) : I (final step s is) := by
  induction is generalizing s with
  | nil => exact h0
  | cons i is ih => exact ih (hstep s i h0 hok.1) hok.2

/-- What an invariant gives of each step, all steps of the run have. -/
theorem allSteps {Q : σ → ι → Prop} (hstep : ∀ s i, I s → ok s i → I (step s i))
    (hq : ∀ s i, I s → ok s i → Q s i) {s : σ} {is : List ι} (h0 : I s)
    (hok : AllSteps step ok s is) : AllSteps step Q s is := by
  induction is generalizing s with
  | nil => trivial
  | cons i is ih => exact ⟨hq s i h0 hok.1,ih (hstep s i h0 hok.1) hok.2⟩

theorem AllSteps.imp {ok' : σ → ι → Prop} (h : ∀ s i, ok s i → ok' s i) {s : σ} {is : List ι}
    (hok : AllSteps step ok s is) : AllSteps step ok' s is := by
  induction is generalizing s with
  | nil => trivial
  | cons i is ih => exact ⟨h s i hok.1,ih hok.2⟩

theorem allSteps_true (s : σ) (is : List ι) : AllSteps step (fun _ _ => True) s is := by
  induction is generalizing s with
  | nil => trivial
  | cons i is ih => exact ⟨trivial,ih (step s i)⟩

/-- A condition on the inputs alone. -/
theorem allSteps_mem {q : ι → Prop} (s : σ) {is : List ι} (h : ∀ i∈is,q i) :
    AllSteps step (fun _ i => q i) s is := by
  induction is generalizing s with
  | nil => trivial
  | cons i is ih =>
    exact ⟨h i List.mem_cons_self,ih (step s i) fun j hj => h j (List.mem_cons_of_mem i hj)⟩

/-- Steps that lower a measure until a goal is met meet it; once met it stays. -/
theorem reaches {q : ι → Prop} (goal : σ → Prop) (μ : σ → Nat)
    (hstep : ∀ s i, I s → q i → goal (step s i) ∨ I (step s i) ∧ μ (step s i) < μ s)
    (hstay : ∀ s i, goal s → goal (step s i)) {s : σ} {is : List ι} (h0 : I s)
    (hq : ∀ i∈is,q i) (hlen : μ s < is.length) : goal (final step s is) := by
  have hkeep : ∀ (js : List ι) (t : σ), goal t → goal (final step t js) := by
    intro js
    induction js with
    | nil => exact fun t ht => ht
    | cons j js ih => exact fun t ht => ih (step t j) (hstay t j ht)
  induction is generalizing s with
  | nil => exact absurd hlen (Nat.not_lt_zero _)
  | cons i is ih =>
    rcases hstep s i h0 (hq i List.mem_cons_self) with hg|⟨hi,hlt⟩
    · exact hkeep is _ hg
    · rw [List.length_cons] at hlen
      exact ih hi (fun j hj => hq j (List.mem_cons_of_mem i hj)) (by omega)

/-- The same where only some of the inputs are sure to lower the measure and none raises it: as
many of them as the measure counts are enough, whatever comes between them. -/
theorem reaches_among {ok : ι → Prop} {q : ι → Bool} (goal : σ → Prop) (μ : σ → Nat)
    (hstep : ∀ s i, I s → ok i → goal (step s i) ∨
      I (step s i) ∧ μ (step s i) ≤ μ s ∧ (q i=true → μ (step s i) < μ s))
    (hstay : ∀ s i, goal s → goal (step s i)) {s : σ} {is : List ι} (h0 : goal s ∨ I s)
    (hok : ∀ i∈is,ok i) (hlen : ¬goal s → μ s < (is.filter q).length) :
    goal (final step s is) := by
  induction is generalizing s with
  | nil =>
    by_contra hno
    exact absurd (hlen hno) (Nat.not_lt_zero _)
  | cons i is ih =>
    have hoks : ∀ j∈is,ok j := fun j hj => hok j (List.mem_cons_of_mem i hj)
    rcases h0 with hg|hi
    · exact ih (.inl (hstay s i hg)) hoks fun hno => absurd (hstay s i hg) hno
    · rcases hstep s i hi (hok i List.mem_cons_self) with hg|⟨hi',hle,hlt⟩
      · exact ih (.inl hg) hoks fun hno => absurd hg hno
      · apply ih (.inr hi') hoks
        intro hno
        by_cases hgs : goal s
        · exact absurd (hstay s i hgs) hno
        have hmany := hlen hgs
        by_cases hq : q i=true
        · rw [List.filter_cons_of_pos hq,List.length_cons] at hmany
          have := hlt hq
          omega
        · rw [List.filter_cons_of_neg hq] at hmany
          omega

theorem final_mem_states (s : σ) (is : List ι) : final step s is∈states step s is := by
  induction is generalizing s with
  | nil => exact List.mem_singleton.mpr rfl
  | cons i is ih => exact List.mem_cons_of_mem _ (ih (step s i))

end Run
