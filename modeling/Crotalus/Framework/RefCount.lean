import Mathlib.Data.Fintype.Card
import Mathlib.Data.List.Basic

namespace RefCount

universe u v
variable {α : Type u} {ι : Type v} [DecidableEq ι] {ptr : α → Option ι} {as : List α} {i : ι}

/-- How many of the owners point at `i`. -/
def holders (ptr : α → Option ι) (as : List α) (i : ι) : Nat :=
  as.countP fun a => ptr a=some i

/-- One for an owner that points at `i`. -/
def points (ptr : α → Option ι) (a : α) (i : ι) : Nat := if ptr a=some i then 1 else 0

theorem holders_append (a : α) : holders ptr (as++[a]) i=holders ptr as i+points ptr a i := by
  simp [holders,points,List.countP_append,List.countP_cons]

/-- Replacing one owner: its own share goes, that of the new one comes. -/
theorem holders_set {k : Nat} {a b : α} (hk : as[k]?=some a) :
    holders ptr (as.set k b) i+points ptr a i=holders ptr as i+points ptr b i := by
  induction as generalizing k with
  | nil => simp at hk
  | cons c as ih =>
    cases k with
    | zero =>
      obtain rfl : c=a := by simpa using hk
      simp only [holders,points,List.set_cons_zero,List.countP_cons,decide_eq_true_eq]
      omega
    | succ k =>
      have htail := ih (k := k) (by simpa using hk)
      simp only [holders,points,List.set_cons_succ,List.countP_cons,decide_eq_true_eq] at htail ⊢
      omega

theorem holders_set_same {k : Nat} {a b : α} (hk : as[k]?=some a) (h : ptr b=ptr a) :
    holders ptr (as.set k b) i=holders ptr as i := by
  have hset : holders ptr (as.set k b) i+points ptr a i=holders ptr as i+points ptr b i :=
    holders_set hk
  simp only [points,h] at hset
  omega

theorem holders_pos {a : α} (ha : a∈as) (h : ptr a=some i) : 0<holders ptr as i :=
  List.countP_pos_iff.mpr ⟨a,ha,by simpa using h⟩

theorem exists_of_holders_pos (h : 0<holders ptr as i) : ∃ a∈as,ptr a=some i := by
  obtain ⟨a,ha,hp⟩ := List.countP_pos_iff.mp h
  exact ⟨a,ha,by simpa using hp⟩

section Used

variable [Fintype ι] {count count' : ι → Nat}

/-- How many counters are not zero. -/
def used (count : ι → Nat) : Nat := (Finset.univ.filter fun i => 0 < count i).card

omit [DecidableEq ι] in
theorem used_congr (h : ∀ i, 0 < count' i ↔ 0 < count i) : used count'=used count := by
  unfold used
  congr 1
  ext i
  simp [h i]

/-- A counter that leaves zero is one more in use. -/
theorem used_start (hi : count i=0) (hi' : 0 < count' i)
    (h : ∀ j, j≠i → count' j=count j) : used count'=used count+1 := by
  have hset : (Finset.univ.filter fun j => 0 < count' j)=
      insert i (Finset.univ.filter fun j => 0 < count j) := by
    ext j
    by_cases hj : j=i
    · subst hj
      simp [hi']
    · simp [h j hj,hj]
  unfold used
  rw [hset,Finset.card_insert_of_notMem (by simp [hi])]

theorem used_stop (hi : 0 < count i) (hi' : count' i=0)
    (h : ∀ j, j≠i → count' j=count j) : used count=used count'+1 :=
  used_start hi' hi fun j hj => (h j hj).symm

end Used

end RefCount
