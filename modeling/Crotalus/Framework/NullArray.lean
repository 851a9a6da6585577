import Mathlib.Data.List.Basic

namespace NullArray

/-! Arrays of entries that an empty entry ends, filled from a cursor. -/

universe u
variable {α : Type u}

/-- The entries from position `i` on, of at most `k`, up to the first empty one. -/
def entries (m : Nat → Option α) : Nat → Nat → List α
  | 0,_ => []
  | k+1,i =>
    match m i with
    | none => []
    | some x => x::entries m k (i+1)

/-- From position `i` on, the array holds `xs`. -/
def Holds (m : Nat → Option α) (i : Nat) (xs : List α) : Prop :=
  ∀ j,j<xs.length → m (i+j)=xs[j]?

def put (m : Nat → Option α) (i : Nat) (x : Option α) : Nat → Option α :=
  fun j => if j=i then x else m j

/-- The start of the array replaced. -/
def copy (xs : List α) (m : Nat → Option α) : Nat → Option α :=
  fun i => if i<xs.length then xs[i]? else m i

@[simp] theorem put_same (m : Nat → Option α) (i : Nat) (x : Option α) : put m i x i=x :=
  if_pos rfl

theorem put_other {m : Nat → Option α} {i j : Nat} {x : Option α} (h : j≠i) :
    put m i x j=m j := if_neg h

theorem Holds.nil (m : Nat → Option α) (i : Nat) : Holds m i [] :=
  fun j hj => absurd hj (Nat.not_lt_zero j)

theorem Holds.put {m : Nat → Option α} {i : Nat} {xs : List α} (h : Holds m i xs) (x : α) :
    Holds (put m (i+xs.length) (some x)) i (xs++[x]) := by
  intro j hj
  rw [List.length_append,List.length_singleton] at hj
  rcases Nat.lt_succ_iff_lt_or_eq.mp hj with hlt|rfl
  · rw [put_other (by omega),h j hlt,List.getElem?_append_left hlt]
  · rw [put_same,List.getElem?_append_right (Nat.le_refl _),Nat.sub_self]
    rfl

theorem Holds.put_outside {m : Nat → Option α} {i k : Nat} {xs : List α} {x : Option α}
    (h : Holds m i xs) (hk : k < i ∨ i+xs.length≤k) : Holds (NullArray.put m k x) i xs := by
  intro j hj
  rw [put_other (by omega),h j hj]

theorem holds_copy (xs : List α) (m : Nat → Option α) : Holds (copy xs m) 0 xs := by
  intro j hj
  rw [Nat.zero_add]
  exact if_pos hj

/-- A copy leaves alone what is behind it. -/
theorem Holds.copy {m : Nat → Option α} {i : Nat} {xs ys : List α} (h : Holds m i ys)
    (hi : xs.length ≤ i) : Holds (copy xs m) i ys := by
  intro j hj
  rw [← h j hj]
  exact if_neg (by omega)

theorem Holds.append {m : Nat → Option α} {i : Nat} {xs ys : List α} (hx : Holds m i xs)
    (hy : Holds m (i+xs.length) ys) : Holds m i (xs++ys) := by
  intro j hj
  rw [List.length_append] at hj
  rcases Nat.lt_or_ge j xs.length with hlt|hge
  · rw [hx j hlt,List.getElem?_append_left hlt]
  · rw [List.getElem?_append_right hge,← hy (j-xs.length) (by omega)]
    congr 1
    omega

/-- An array that holds `xs` and then an empty entry is read as `xs`. -/
theorem Holds.entries {m : Nat → Option α} {i k : Nat} {xs : List α} (h : Holds m i xs)
    (hend : m (i+xs.length)=none) (hk : xs.length<k) : entries m k i=xs := by
  induction xs generalizing i k with
  | nil =>
    cases k with
    | zero => rfl
    | succ k =>
      have hnone : m i=none := hend
      simp only [NullArray.entries,hnone]
  | cons x xs ih =>
    cases k with
    | zero => exact absurd hk (Nat.not_lt_zero _)
    | succ k =>
      have hx : m i=some x := h 0 (Nat.succ_pos _)
      have hrest : Holds m (i+1) xs := by
        intro j hj
        rw [Nat.add_assoc,Nat.add_comm 1 j]
        exact h (j+1) (Nat.succ_lt_succ hj)
      have hend' : m (i+1+xs.length)=none := by
        rw [← hend,List.length_cons]
        congr 1
        omega
      simp only [NullArray.entries,hx,ih hrest hend' (Nat.lt_of_succ_lt_succ hk)]

/-- The cells that hold `xs`, taken one by one. -/
theorem Holds.filterMap {m : Nat → Option α} {i : Nat} {xs : List α} (h : Holds m i xs) :
    (List.range' i xs.length).filterMap m=xs := by
  induction xs generalizing i with
  | nil => rfl
  | cons x xs ih =>
    have hx : m i=some x := h 0 (Nat.succ_pos _)
    have hrest : Holds m (i+1) xs := by
      intro j hj
      rw [Nat.add_assoc,Nat.add_comm 1 j]
      exact h (j+1) (Nat.succ_lt_succ hj)
    rw [List.length_cons,List.range'_succ,List.filterMap_cons_some hx,ih hrest]

end NullArray
