import Crotalus.Spec.Range

namespace Crotalus

/-! Decimals. -/

/-- The text is the number in decimal digits. -/
structure IsDecimal (t : Text) (n : Nat) : Prop where
  nonempty : t≠[]
  digits : Digits t
  value : digitsValue t=n

theorem digitsValue_append (s : Text) (c : Byte) :
    digitsValue (s++[c])=digitsValue s*10+(c.toNat-48) := by
  rw [digitsValue,List.foldl_append]
  rfl

theorem digit_toNat {n : Nat} (h : n<10) : (UInt8.ofNat (48+n)).toNat=48+n := by
  rw [UInt8.toNat_ofNat']
  omega

theorem digit_isDigit {n : Nat} (h : n<10) : isDigit (UInt8.ofNat (48+n))=true := by
  have hn := digit_toNat h
  simp only [isDigit,UInt8.le_iff_toNat_le,hn,decide_eq_true_eq]
  exact ⟨Nat.le_add_right _ _,by change 48+n≤57; omega⟩

theorem isDecimal_digit {n : Nat} (h : n<10) : IsDecimal [UInt8.ofNat (48+n)] n := by
  refine ⟨List.cons_ne_nil _ _,fun c hc => ?_,?_⟩
  · rw [List.mem_singleton.mp hc]
    exact digit_isDigit h
  · change 0*10+((UInt8.ofNat (48+n)).toNat-48)=n
    rw [digit_toNat h]
    omega

theorem IsDecimal.append {s : Text} {m n : Nat} (hs : IsDecimal s m) (h : n<10) :
    IsDecimal (s++[UInt8.ofNat (48+n)]) (m*10+n) := by
  refine ⟨by simp,fun c hc => ?_,?_⟩
  · rcases List.mem_append.mp hc with hc|hc
    · exact hs.digits c hc
    · rw [List.mem_singleton.mp hc]
      exact digit_isDigit h
  · rw [digitsValue_append,hs.value,digit_toNat h]
    omega

/-- The loop of `simple_itoa`, with room for all digits. -/
theorem digitsRev_decimal {k n : Nat} (h : n<10^(k+1)) :
    IsDecimal (digitsRev (k+1) n).reverse n := by
  induction k generalizing n with
  | zero =>
    have hlast : n/10=0 := by omega
    rw [digitsRev]
    rw [if_pos hlast,Nat.mod_eq_of_lt (by omega : n<10)]
    exact isDecimal_digit (by omega)
  | succ k ih =>
    rw [digitsRev]
    have hdigit : n%10<10 := Nat.mod_lt _ (by decide)
    by_cases hlast : n/10=0
    · rw [if_pos hlast,Nat.mod_eq_of_lt (by omega : n<10)]
      exact isDecimal_digit (by omega)
    · have hmore : n/10<10^(k+1) := by
        rw [Nat.pow_succ] at h
        omega
      rw [if_neg hlast,List.reverse_cons]
      have happ := (ih hmore).append hdigit
      have hn : n/10*10+n%10=n := by omega
      rw [hn] at happ
      exact happ

theorem simpleItoa_decimal (n : Nat) : IsDecimal (simpleItoa n) (u32 n) := by
  refine digitsRev_decimal (k := 20) ?_
  have hlt : u32 n<2^32 := Nat.mod_lt _ (by decide)
  omega

/-- `simple_itoa` prints a number exactly when it fits an `unsigned int`. -/
theorem simpleItoa_exact (n : Nat) : IsDecimal (simpleItoa n) n ↔ n<2^32 := by
  have hprint := simpleItoa_decimal n
  constructor
  · intro h
    have heq : u32 n=n := hprint.value.symm.trans h.value
    rw [← heq]
    exact Nat.mod_lt _ (by decide)
  · intro h
    have heq : u32 n=n := Nat.mod_eq_of_lt h
    rw [heq] at hprint
    exact hprint

end Crotalus
