import Mathlib.Data.List.Basic

namespace Percent

universe u
variable {α : Type u} (mark : α) (charOf : α → α → Option α)

/-! Texts with escapes: a mark and two characters that stand for one. What two characters
stand for, if for anything, is left open. -/

/-- Each mark is followed by two characters that stand for one. -/
def WellFormed (w : List α) : Prop :=
  ∀ i,w[i]?=some mark → ∃ a b,w[i+1]?=some a ∧ w[i+2]?=some b ∧ (charOf a b).isSome=true

/-- The text with each escape replaced by its character. -/
def decode [DecidableEq α] : List α → List α
  | [] => []
  | c::w =>
    if c=mark then
      match w with
      | a::b::w => (charOf a b).toList++decode w
      | _ => []
    else c::decode w

variable {mark charOf}

theorem decode_plain [DecidableEq α] {c : α} (hc : c≠mark) (w : List α) :
    decode mark charOf (c::w)=c::decode mark charOf w := by
  match w with
  | [] => simp only [decode,if_neg hc]
  | [d] => simp only [decode,if_neg hc]
  | a::b::w => simp only [decode,if_neg hc]

theorem decode_escape [DecidableEq α] (a b : α) (w : List α) :
    decode mark charOf (mark::a::b::w)=(charOf a b).toList++decode mark charOf w := by
  rw [decode,if_pos rfl]

theorem wellFormed_nil : WellFormed mark charOf [] := fun i h => by
  rw [List.getElem?_nil] at h
  cases h

theorem wellFormed_plain {c : α} (hc : c≠mark) {w : List α} :
    WellFormed mark charOf (c::w) ↔ WellFormed mark charOf w := by
  constructor
  · exact fun h i hi => h (i+1) hi
  · intro h i hi
    cases i with
    | zero => exact absurd (Option.some.inj hi) hc
    | succ i => exact h i hi

theorem WellFormed.two {w : List α} (h : WellFormed mark charOf (mark::w)) :
    ∃ a b rest,w=a::b::rest ∧ (charOf a b).isSome=true := by
  obtain ⟨a,b,ha,hb,hchar⟩ := h 0 rfl
  match w with
  | [] => cases ha
  | [c] => cases hb
  | c::d::rest =>
    obtain rfl := Option.some.inj ha
    obtain rfl := Option.some.inj hb
    exact ⟨c,d,rest,rfl,hchar⟩

/-- The two characters are no marks themselves, so escapes never overlap. -/
theorem wellFormed_escape (hmark : ∀ a b,(charOf a b).isSome=true → a≠mark ∧ b≠mark) {a b : α}
    {w : List α} : WellFormed mark charOf (mark::a::b::w) ↔
      (charOf a b).isSome=true ∧ WellFormed mark charOf w := by
  constructor
  · intro h
    obtain ⟨c,d,rest,heq,hchar⟩ := h.two
    obtain ⟨rfl,rfl,rfl⟩ : a=c ∧ b=d ∧ w=rest := by
      simpa only [List.cons.injEq] using heq
    exact ⟨hchar,fun i hi => h (i+3) hi⟩
  · rintro ⟨hchar,h⟩ i hi
    obtain ⟨ha,hb⟩ := hmark a b hchar
    match i with
    | 0 => exact ⟨a,b,rfl,rfl,hchar⟩
    | 1 => exact absurd (Option.some.inj hi) ha
    | 2 => exact absurd (Option.some.inj hi) hb
    | i+3 => exact h i hi

end Percent
