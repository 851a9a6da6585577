import Mathlib.Data.List.Induction
import Mathlib.Data.List.TakeWhile
import Mathlib.Tactic.Ring
import Crotalus.Server.Read
import Crotalus.Spec.Decimal
import Crotalus.Spec.Sys

namespace Crotalus

/-! `simple_itoa` and `boa_atoi` as inverses. -/

/-- The decimal digits of the number without a leading zero. -/
structure Canonical (t : Text) (n : Nat) : Prop extends IsDecimal t n where
  leading : t.head?=some 48 → t=[48]

theorem digitsValue_concat (s t : Text) :
    digitsValue (s++t)=digitsValue s*10^t.length+digitsValue t := by
  induction t using List.reverseRecOn with
  | nil => simp [digitsValue]
  | append_singleton t c ih =>
    rw [← List.append_assoc,digitsValue_append,digitsValue_append,ih,List.length_append,
      List.length_singleton,Nat.pow_succ]
    ring

/-- More digits make no smaller number. -/
theorem digitsValue_append_ge (s t : Text) : digitsValue s*10^t.length ≤ digitsValue (s++t) := by
  rw [digitsValue_concat]
  exact Nat.le_add_right _ _

theorem digit_range {c : Byte} (h : isDigit c=true) : 48 ≤ c.toNat ∧ c.toNat ≤ 57 := by
  simp only [isDigit,decide_eq_true_eq,UInt8.le_iff_toNat_le] at h
  exact h

/-- A digit other than 0 at the front makes the number positive. -/
theorem digitsValue_pos {t : Text} (hne : t≠[]) (hd : Digits t) (h0 : t.head?≠some 48) :
    0<digitsValue t := by
  cases t with
  | nil => exact absurd rfl hne
  | cons c t =>
    have hc := digit_range (hd c List.mem_cons_self)
    have hc0 : c.toNat≠48 := fun h => h0 (congrArg some (UInt8.toNat_inj.mp h))
    have hone : digitsValue [c]=c.toNat-48 := by simp [digitsValue]
    have hge := digitsValue_append_ge [c] t
    rw [hone] at hge
    calc 0<(c.toNat-48)*10^t.length := Nat.mul_pos (by omega) (Nat.pow_pos (by decide))
      _ ≤ digitsValue ([c]++t) := hge

theorem Canonical.pos {t : Text} {n : Nat} (h : Canonical t n) (ht : t≠[48]) : 0<n := by
  have hpos := digitsValue_pos h.nonempty h.digits fun h0 => ht (h.leading h0)
  rwa [h.value] at hpos

/-- What is left of a decimal without its last digit. -/
theorem Canonical.init {s : Text} {c : Byte} {n : Nat} (h : Canonical (s++[c]) n) (hs : s≠[]) :
    Canonical s (n/10) ∧ 0<n/10 := by
  have hc := digit_range (h.digits c (by simp))
  have hval : digitsValue s=n/10 := by
    have hn := h.value
    rw [digitsValue_append] at hn
    omega
  have h0 : s.head?≠some 48 := by
    intro h0
    have hhead : (s++[c]).head?=some 48 := by rw [List.head?_append_of_ne_nil _ hs,h0]
    have hlen := congrArg List.length (h.leading hhead)
    have hpos := List.length_pos_of_ne_nil hs
    rw [List.length_append,List.length_singleton,List.length_singleton] at hlen
    omega
  have hd : Digits s := fun d hd => h.digits d (List.mem_append_left _ hd)
  refine ⟨⟨⟨hs,hd,hval⟩,fun h => absurd h h0⟩,?_⟩
  rw [← hval]
  exact digitsValue_pos hs hd h0

theorem Canonical.last {s : Text} {c : Byte} {n : Nat} (h : Canonical (s++[c]) n) :
    c=UInt8.ofNat (48+n%10) := by
  have hc := digit_range (h.digits c (by simp))
  have hn := h.value
  rw [digitsValue_append] at hn
  apply UInt8.toNat_inj.mp
  rw [digit_toNat (Nat.mod_lt _ (by decide))]
  omega

/-- A number has one decimal without a leading zero: what the loop of `simple_itoa` prints. -/
theorem Canonical.eq_digitsRev {k n : Nat} {t : Text} (h : Canonical t n) (hn : n<10^(k+1)) :
    t=(digitsRev (k+1) n).reverse := by
  induction k generalizing n t with
  | zero =>
    have hlast : n/10=0 := by omega
    rcases List.eq_nil_or_concat t with rfl|⟨s,c,rfl⟩
    · exact absurd rfl h.nonempty
    · rw [List.concat_eq_append] at h ⊢
      by_cases hs : s=[]
      · rw [digitsRev,if_pos hlast,hs,h.last]
        rfl
      · exact absurd hlast (h.init hs).2.ne'
  | succ k ih =>
    rcases List.eq_nil_or_concat t with rfl|⟨s,c,rfl⟩
    · exact absurd rfl h.nonempty
    · rw [List.concat_eq_append] at h ⊢
      rw [digitsRev]
      by_cases hs : s=[]
      · have hval := h.value
        have hc := digit_range (h.digits c (by simp))
        rw [digitsValue_append,hs] at hval
        have hlast : n/10=0 := by
          change 0*10+(c.toNat-48)=n at hval
          omega
        rw [if_pos hlast,hs,h.last]
        rfl
      · obtain ⟨hinit,hpos⟩ := h.init hs
        have hmore : n/10<10^(k+1) := by
          rw [Nat.pow_succ] at hn
          omega
        rw [if_neg hpos.ne',List.reverse_cons,← ih hinit hmore,h.last]

/-- The loop of `simple_itoa` prints no leading zero. -/
theorem digitsRev_leading {k n : Nat} (hn : n<10^(k+1))
    (h : (digitsRev (k+1) n).reverse.head?=some 48) : (digitsRev (k+1) n).reverse=[48] := by
  induction k generalizing n with
  | zero =>
    have hlast : n/10=0 := by omega
    rw [digitsRev,if_pos hlast] at h ⊢
    have hd : UInt8.ofNat (48+n%10)=48 := Option.some.inj h
    rw [hd]
    rfl
  | succ k ih =>
    rw [digitsRev] at h ⊢
    by_cases hlast : n/10=0
    · rw [if_pos hlast] at h ⊢
      have hd : UInt8.ofNat (48+n%10)=48 := Option.some.inj h
      rw [hd]
      rfl
    · have hmore : n/10<10^(k+1) := by
        rw [Nat.pow_succ] at hn
        omega
      have hdec := digitsRev_decimal hmore
      rw [if_neg hlast,List.reverse_cons,List.head?_append_of_ne_nil _ hdec.nonempty] at h
      have hval := hdec.value
      rw [ih hmore h] at hval
      exact absurd hval.symm hlast

theorem simpleItoa_canonical (n : Nat) : Canonical (simpleItoa n) (u32 n) := by
  have hlt : u32 n<2^32 := Nat.mod_lt _ (by decide)
  exact ⟨simpleItoa_decimal n,digitsRev_leading (k := 20) (by omega)⟩

theorem canonical_iff (t : Text) (n : Nat) : Canonical t (u32 n) ↔ t=simpleItoa n := by
  have hlt : u32 n<2^32 := Nat.mod_lt _ (by decide)
  constructor
  · exact fun h => h.eq_digitsRev (k := 20) (by omega)
  · intro h
    rw [h]
    exact simpleItoa_canonical n

theorem simpleItoa_value {n : Nat} (h : n<2^31) : digitsValue (simpleItoa n)=n := by
  have hval := (simpleItoa_decimal n).value
  rwa [u32,Nat.mod_eq_of_lt (by omega)] at hval

theorem atoi_digits {s : Text} (h : Digits s) : atoi s=i32 (min (digitsValue s) (2^63-1) : Nat) := by
  have htake : s.takeWhile isDigit=s := List.takeWhile_eq_self_iff.mpr h
  rw [atoi,htake]
  congr 1
  omega

/-- What `boa_atoi` accepts: a string of digits in front of what is printed for its value. -/
theorem boaAtoi_accepts {s : Text} {n : Nat} (h : boaAtoi s=n) :
    s≠[] ∧ atoi s=n ∧ s=(simpleItoa n).take s.length := by
  cases s with
  | nil => exact absurd h (by rw [boaAtoi]; omega)
  | cons b s =>
    rw [boaAtoi] at h
    by_cases hb : (!isDigit b)=true
    · rw [if_pos hb] at h
      omega
    by_cases hneg : atoi (b::s)<0
    · rw [if_neg hb,if_pos hneg] at h
      omega
    by_cases hsame : (simpleItoa (atoi (b::s)).toNat).take (b::s).length=b::s
    · rw [if_neg hb,if_neg hneg,if_pos hsame] at h
      rw [h,Int.toNat_natCast] at hsame
      exact ⟨List.cons_ne_nil _ _,h,hsame.symm⟩
    · rw [if_neg hb,if_neg hneg,if_neg hsame] at h
      omega

/-- A proper prefix of the digits printed for a number is not read as that number. -/
theorem take_simpleItoa {n m : Nat} (hn : n<2^31) (hm : 0 < m)
    (h : atoi ((simpleItoa n).take m)=n) : (simpleItoa n).take m=simpleItoa n := by
  have hsplit := List.take_append_drop m (simpleItoa n)
  have hdigits : Digits ((simpleItoa n).take m) := fun c hc =>
    (simpleItoa_decimal n).digits c (List.mem_of_mem_take hc)
  have hval := simpleItoa_value hn
  have hge := digitsValue_append_ge ((simpleItoa n).take m) ((simpleItoa n).drop m)
  rw [hsplit,hval] at hge
  have hpow : 0<10^((simpleItoa n).drop m).length := Nat.pow_pos (by decide)
  have hle : digitsValue ((simpleItoa n).take m) ≤ n :=
    (Nat.le_mul_of_pos_right _ hpow).trans hge
  have hsame : digitsValue ((simpleItoa n).take m)=n := by
    rw [atoi_digits hdigits,Nat.min_eq_left (by omega),i32_of_lt (by omega)] at h
    omega
  rw [hsame] at hge
  by_cases h0 : n=0
  · rw [h0]
    exact List.take_of_length_le hm
  · by_contra hne
    have hrest : (simpleItoa n).drop m≠[] := by
      intro hnil
      rw [hnil,List.append_nil] at hsplit
      exact hne hsplit
    have hlen : 10^1 ≤ 10^((simpleItoa n).drop m).length :=
      Nat.pow_le_pow_right (by decide) (List.length_pos_of_ne_nil hrest)
    have hten := Nat.mul_le_mul_left n hlen
    omega

theorem boaAtoi_simpleItoa {n : Nat} (hn : n<2^31) : boaAtoi (simpleItoa n)=n := by
  have hdec := simpleItoa_decimal n
  have hatoi : atoi (simpleItoa n)=n := by
    rw [atoi_digits hdec.digits,simpleItoa_value hn,Nat.min_eq_left (by omega),i32_of_lt hn]
  cases hs : simpleItoa n with
  | nil => exact absurd hs hdec.nonempty
  | cons b s =>
    have hb : ¬(!isDigit b)=true := by
      rw [hdec.digits b (hs ▸ List.mem_cons_self)]
      decide
    rw [hs] at hatoi
    have hneg : ¬atoi (b::s)<0 := by omega
    have hsame : (simpleItoa (atoi (b::s)).toNat).take (b::s).length=b::s := by
      rw [hatoi,Int.toNat_natCast,hs,List.take_length]
    rw [boaAtoi,if_neg hb,if_neg hneg,if_pos hsame]
    exact hatoi

theorem boaAtoi_eq_iff (s : Text) (n : Nat) : boaAtoi s=n ↔ n<2^31 ∧ s=simpleItoa n := by
  constructor
  · intro h
    obtain ⟨hne,hatoi,hfirst⟩ := boaAtoi_accepts h
    have hn : n<2^31 := by
      rw [atoi] at hatoi
      have hlt := Int.bmod_lt (x := min (digitsValue (s.takeWhile isDigit) : Int) (2^63-1))
        (m := 2^32) (by decide)
      rw [i32] at hatoi
      omega
    refine ⟨hn,?_⟩
    rw [hfirst] at hatoi
    rw [hfirst]
    exact take_simpleItoa hn (List.length_pos_of_ne_nil hne) hatoi
  · rintro ⟨hn,hs⟩
    rw [hs]
    exact boaAtoi_simpleItoa hn

theorem boaAtoi_range (s : Text) : boaAtoi s=-1 ∨ ∃ n : Nat,boaAtoi s=n := by
  cases s with
  | nil => exact .inl rfl
  | cons b s =>
    rw [boaAtoi]
    split
    · exact .inl rfl
    · rename_i hb
      by_cases hneg : atoi (b::s)<0
      · rw [if_pos hneg]
        exact .inl rfl
      · rw [if_neg hneg]
        split
        · exact .inr ⟨(atoi (b::s)).toNat,by omega⟩
        · exact .inl rfl

/-- `simple_itoa` prints the one decimal of every `unsigned int` that has no leading zero, and
`boa_atoi` reads exactly the decimals of the numbers up to `INT_MAX`; all else is -1. -/
theorem boaAtoi_exact (s : Text) (n : Nat) :
    (Canonical s (u32 n) ↔ s=simpleItoa n) ∧
      (boaAtoi s=n ↔ n<2^31 ∧ s=simpleItoa n) ∧
      (boaAtoi s=-1 ↔ ¬∃ m,m<2^31 ∧ s=simpleItoa m) := by
  refine ⟨canonical_iff s n,boaAtoi_eq_iff s n,?_⟩
  constructor
  · rintro h ⟨m,hm,hs⟩
    rw [hs,boaAtoi_simpleItoa hm] at h
    omega
  · intro hno
    rcases boaAtoi_range s with h|⟨m,hm⟩
    · exact h
    · exact absurd ⟨m,(boaAtoi_eq_iff s m).mp hm⟩ hno

/-- A wrapped value, a leading zero, a sign, what follows the digits: all refused. -/
example : boaAtoi (str "4294967297")=-1 ∧ boaAtoi (str "007")=-1 ∧ boaAtoi (str "+7")=-1 ∧
    boaAtoi (str "7 ")=-1 ∧ boaAtoi (str "2147483647")=2147483647 := by decide

/-- The length of a body is taken from a decimal alone. -/
theorem postLength_decimal (e : Config) (r : Request) (n : Nat) :
    postLength e r=some n ↔ r.contentLength=some (simpleItoa n) ∧ n<2^31 ∧
      (e.singlePostLimit=0 ∨ n ≤ e.singlePostLimit) := by
  rw [postLength]
  cases hc : r.contentLength with
  | none => simp
  | some t =>
    rcases boaAtoi_range t with ht|⟨m,ht⟩
    · have hno : ¬(t=simpleItoa n ∧ n<2^31) := fun h => by
        have hread := (boaAtoi_eq_iff t n).mpr ⟨h.2,h.1⟩
        omega
      simp only [Option.map_some,ht,Option.some.injEq]
      constructor
      · intro h
        cases h
      · exact fun h => absurd ⟨h.1,h.2.1⟩ hno
    · have hm := (boaAtoi_eq_iff t m).mp ht
      simp only [Option.map_some,ht,Option.some.injEq,if_neg (by omega : ¬(m : Int)<0)]
      constructor
      · intro h
        split at h
        · cases h
        · rename_i hlimit
          have hmn : m=n := by
            rw [Int.toNat_natCast] at h
            exact Option.some.inj h
          subst hmn
          exact ⟨hm.2,hm.1,by omega⟩
      · rintro ⟨ht',hn,hlimit⟩
        have hread := (boaAtoi_eq_iff t n).mpr ⟨hn,ht'⟩
        have hmn : m=n := by omega
        subst hmn
        rw [if_neg (by omega),Int.toNat_natCast]

end Crotalus
