import Mathlib.Data.List.Basic
import Mathlib.Tactic.Ring

namespace ByteMem

universe u
variable {β : Type u}

/-- Bytes `bs` written at position `i`; everything else keeps its value. -/
def store (m : Nat → β) (i : Nat) (bs : List β) : Nat → β :=
  fun j => if i≤j then (bs[j-i]?).getD (m j) else m j

/-- The `n` cells from position `i` on. -/
def slice (m : Nat → β) (i : Nat) : Nat → List β
  | 0 => []
  | n+1 => m i::slice m (i+1) n

@[simp] theorem length_slice (m : Nat → β) (i n : Nat) : (slice m i n).length = n := by
  induction n generalizing i with
  | zero => rfl
  | succ n ih => simp [slice,ih]

theorem getElem?_slice (m : Nat → β) {i n j : Nat} (h : j < n) :
    (slice m i n)[j]? = some (m (i+j)) := by
  induction n generalizing i j with
  | zero => exact absurd h (Nat.not_lt_zero j)
  | succ n ih =>
    cases j with
    | zero => rfl
    | succ j =>
      rw [slice,List.getElem?_cons_succ,ih (Nat.lt_of_succ_lt_succ h),Nat.add_assoc,Nat.add_comm 1 j]

theorem slice_congr {m m' : Nat → β} {i n : Nat}
    (h : ∀ j,i≤j → j < i+n → m j = m' j) : slice m i n = slice m' i n := by
  induction n generalizing i with
  | zero => rfl
  | succ n ih =>
    rw [slice,slice,h i (le_refl i) (by omega)]
    exact congrArg (List.cons _) (ih fun j h1 h2 => h j (by omega) (by omega))

theorem slice_append (m : Nat → β) (i n k : Nat) :
    slice m i (n+k) = slice m i n++slice m (i+n) k := by
  induction n generalizing i with
  | zero => simp [slice]
  | succ n ih =>
    rw [show n+1+k=(n+k)+1 by omega,slice,slice,ih (i+1),List.cons_append,
      show i+1+n=i+(n+1) by omega]

theorem slice_take (m : Nat → β) (i n k : Nat) (h : k≤n) :
    (slice m i n).take k = slice m i k := by
  obtain ⟨d,rfl⟩ := Nat.exists_eq_add_of_le h
  rw [slice_append,List.take_left' (length_slice m i k)]

theorem slice_drop (m : Nat → β) (i n k : Nat) (h : k≤n) :
    (slice m i n).drop k = slice m (i+k) (n-k) := by
  obtain ⟨d,rfl⟩ := Nat.exists_eq_add_of_le h
  rw [slice_append,List.drop_left' (length_slice m i k),Nat.add_sub_cancel_left]

theorem store_below (m : Nat → β) (i j : Nat) (bs : List β) (h : j < i) :
    store m i bs j = m j := if_neg (by omega)

theorem store_above (m : Nat → β) (i j : Nat) (bs : List β) (h : i+bs.length≤j) :
    store m i bs j = m j := by
  unfold store
  rw [if_pos (by omega),List.getElem?_eq_none (by omega)]
  rfl

theorem store_mem (m : Nat → β) (i j : Nat) (bs : List β) (h : i≤j) (hj : j < i+bs.length) :
    store m i bs j∈bs := by
  unfold store
  rw [if_pos h,List.getElem?_eq_getElem (by omega)]
  exact List.getElem_mem _

theorem store_last (m : Nat → β) (i : Nat) (bs : List β) (b : β) :
    store m i (bs++[b]) (i+bs.length) = b := by
  unfold store
  rw [if_pos (Nat.le_add_right i _),Nat.add_sub_cancel_left,List.getElem?_append_right (Nat.le_refl _),
    Nat.sub_self]
  rfl

theorem slice_store_below (m : Nat → β) (i a n : Nat) (bs : List β) (h : a+n ≤ i) :
    slice (store m i bs) a n = slice m a n :=
  slice_congr fun j _ h2 => store_below m i j bs (by omega)

theorem slice_store (m : Nat → β) (i : Nat) (bs : List β) :
    slice (store m i bs) i bs.length = bs := by
  induction bs generalizing m i with
  | nil => rfl
  | cons b bs ih =>
    have tail : slice (store m i (b::bs)) (i+1) bs.length =
        slice (store m (i+1) bs) (i+1) bs.length := by
      apply slice_congr
      intro j h1 _
      unfold store
      rw [if_pos (by omega),if_pos h1]
      obtain ⟨d,rfl⟩ := Nat.exists_eq_add_of_le h1
      rw [show i+1+d-i=d+1 by omega,Nat.add_sub_cancel_left]
      rfl
    rw [List.length_cons,slice,tail,ih]
    simp [store]

/-- Appending behind a window extends the window. -/
theorem slice_store_append (m : Nat → β) (a i : Nat) (bs : List β) (h : a ≤ i) :
    slice (store m i bs) a (i+bs.length-a) = slice m a (i-a)++bs := by
  rw [show i+bs.length-a=(i-a)+bs.length by omega,slice_append,
    slice_store_below m i a _ bs (by omega),Nat.add_sub_cancel' h,slice_store]

theorem store_nil (m : Nat → β) (i : Nat) : store m i [] = m := by
  funext j
  simp [store]

theorem store_store_append (m : Nat → β) (i : Nat) (bs cs : List β) :
    store (store m i bs) (i+bs.length) cs = store m i (bs++cs) := by
  funext j
  rcases Nat.lt_or_ge j i with hlt|hge
  · rw [store_below _ _ _ _ hlt,store_below _ _ _ _ (by omega),store_below _ _ _ _ hlt]
  · obtain ⟨d,rfl⟩ := Nat.exists_eq_add_of_le hge
    unfold store
    rcases Nat.lt_or_ge d bs.length with hd|hd
    · rw [if_neg (by omega),if_pos hge,if_pos hge,Nat.add_sub_cancel_left,
        List.getElem?_append_left hd]
    · rw [if_pos (by omega),if_pos hge,if_pos hge,Nat.add_sub_cancel_left,
        List.getElem?_append_right hd,show i+d-(i+bs.length)=d-bs.length by omega,
        List.getElem?_eq_none hd]
      rfl

end ByteMem
