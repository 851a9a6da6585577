import Mathlib.Data.List.TakeWhile
import Crotalus.Framework.Lines
import Crotalus.Server.Config

namespace Crotalus

open ByteMem Lines

/-! Scans of a buffer, and the lines that `fgets` reads into it. -/

section Scan

variable {m : Nat → Byte} {p : Byte → Bool} {k i : Nat} {a b : Text} {c : Byte}

theorem scanFor_none (h : ∀ x∈slice m i k,p x=false) : scanFor m p k i=none := by
  induction k generalizing i with
  | zero => rfl
  | succ k ih =>
    rw [slice,List.forall_mem_cons] at h
    rw [scanFor,if_neg (by rw [h.1]; exact Bool.false_ne_true)]
    exact ih h.2

/-- A scan stops behind the bytes it passes over. -/
theorem scanFor_some (h : slice m i k=a++c::b) (ha : ∀ x∈a,p x=false) (hc : p c=true) :
    scanFor m p k i=some (i+a.length) := by
  induction a generalizing i k with
  | nil =>
    cases k with
    | zero => cases h
    | succ k =>
      rw [slice,List.nil_append,List.cons.injEq] at h
      rw [scanFor,h.1,if_pos hc]
      rfl
  | cons x a ih =>
    cases k with
    | zero => cases h
    | succ k =>
      rw [slice,List.cons_append,List.cons.injEq] at h
      rw [List.forall_mem_cons] at ha
      rw [scanFor,h.1,if_neg (by rw [ha.1]; exact Bool.false_ne_true),ih h.2 ha.2,
        List.length_cons,Nat.add_assoc,Nat.add_comm 1]

/-- The bytes behind a position that a scan came to. -/
theorem slice_behind (h : slice m i k=a++b) :
    slice m i a.length=a ∧ slice m (i+a.length) (k-a.length)=b ∧ a.length+b.length=k := by
  have hlen : a.length+b.length=k := by
    rw [← List.length_append,← h,length_slice]
  have hle : a.length≤k := by omega
  refine ⟨?_,?_,hlen⟩
  · rw [← slice_take m i k a.length hle,h,List.take_left]
  · rw [← slice_drop m i k a.length hle,h,List.drop_left]

theorem slice_at (m : Nat → Byte) {n k : Nat} (h : n < k) :
    slice m 0 k=slice m 0 n++m n::slice m (n+1) (k-(n+1)) := by
  obtain ⟨d,rfl⟩ := Nat.exists_eq_add_of_le h
  rw [show n+1+d=n+(d+1) by omega,slice_append,slice,Nat.zero_add,
    show n+(d+1)-(n+1)=d by omega]

/-- Bytes that are overwritten by as many. -/
theorem slice_overwrite {d : Text} (b' : Text) (h : slice m i k=a++(b++d))
    (hlen : b'.length=b.length) :
    slice (store m (i+a.length) b') i k=a++(b'++d) := by
  obtain ⟨hfront,hrest,ha⟩ := slice_behind h
  obtain ⟨-,hd,hb⟩ := slice_behind hrest
  rw [List.length_append] at ha
  have hk : k=a.length+(b'.length+(k-a.length-b.length)) := by omega
  have habove : slice (store m (i+a.length) b') (i+a.length+b'.length) (k-a.length-b.length)=d := by
    rw [hlen]
    exact (slice_congr fun j hj _ => store_above m (i+a.length) j b' (by omega)).trans hd
  rw [hk,slice_append,slice_append,slice_store_below _ _ _ _ _ (le_refl _),hfront,slice_store,
    habove]

end Scan

section Lines

variable {n : Nat} {acc l t : Text}

/-- The pieces of a line, and those of what is behind it. -/
theorem fgetsFrom_append (h : 10∉l) (t : Text) :
    fgetsFrom n acc (l++10::t)=fgetsFrom n acc (l++[10])++fgets n t := by
  induction l generalizing acc with
  | nil =>
    rw [List.nil_append,List.nil_append,fgetsFrom,fgetsFrom,if_pos (.inl rfl),if_pos (.inl rfl)]
    rfl
  | cons b l ih =>
    rw [List.mem_cons,not_or] at h
    rw [List.cons_append,List.cons_append,fgetsFrom,fgetsFrom]
    split
    · rw [ih h.2]
      rfl
    · rw [ih h.2]

/-- A file is read line by line, and a line piece by piece. -/
theorem fgets_flatMap (n : Nat) (file : Text) :
    fgets n file=(Lines.split 10 file).flatMap (fgets n) := by
  induction hk : file.length using Nat.strong_induction_on generalizing file with
  | _ k ih =>
    rcases Lines.cases_line 10 file with rfl|⟨hnl,hne⟩|⟨l,t,hl,rfl⟩
    · rfl
    · rw [Lines.split_last hnl hne,List.flatMap_singleton]
    · rw [Lines.split_line hl,List.flatMap_cons,← ih t.length (by
        rw [← hk,List.length_append,List.length_cons]
        omega) t rfl]
      exact fgetsFrom_append hl t

theorem fgetsFrom_first (h : 10∉l.dropLast) (hn : acc.length+1 < n) (hne : acc++l≠[]) :
    fgetsFrom n acc l=
      (acc.reverse++l.take (n-1-acc.length))::fgets n (l.drop (n-1-acc.length)) := by
  induction l generalizing acc with
  | nil =>
    rw [List.append_nil] at hne
    rw [fgetsFrom,if_neg hne,List.take_nil,List.drop_nil,List.append_nil]
    rfl
  | cons b l ih =>
    rw [fgetsFrom]
    by_cases hb : b=10
    · have hl : l=[] := by
        by_contra hl
        rw [List.dropLast_cons_of_ne_nil hl,List.mem_cons,not_or] at h
        exact h.1 hb.symm
      subst hl
      rw [if_pos (.inl hb),List.reverse_cons,
        List.take_of_length_le (by rw [List.length_singleton]; omega),
        List.drop_of_length_le (by rw [List.length_singleton]; omega)]
      rfl
    · by_cases hfull : n≤acc.length+2
      · rw [if_pos (.inr hfull),show n-1-acc.length=1 by omega,List.reverse_cons]
        rfl
      · have hl : 10∉l.dropLast := by
          by_cases hl : l=[]
          · subst hl
            exact List.not_mem_nil
          · rw [List.dropLast_cons_of_ne_nil hl,List.mem_cons,not_or] at h
            exact h.2
        rw [if_neg (not_or.mpr ⟨hb,hfull⟩),
          ih hl (by rw [List.length_cons]; omega) (List.cons_ne_nil _ _),List.length_cons,
          show n-1-acc.length=n-1-(acc.length+1)+1 by omega,List.take_succ_cons,
          List.drop_succ_cons,List.reverse_cons,List.append_assoc]
        rfl

/-- The first piece of a line, and its others. -/
theorem fgets_first (h : 10∉l.dropLast) (hn : 1 < n) (hne : l≠[]) :
    fgets n l=l.take (n-1)::fgets n (l.drop (n-1)) := by
  have hfirst : fgetsFrom n [] l=
      ([].reverse++l.take (n-1-0))::fgets n (l.drop (n-1-0)) := fgetsFrom_first h hn hne
  exact hfirst

/-- A line is not empty, and ends at its first newline. -/
theorem split_lines (file : Text) : ∀ l∈Lines.split 10 file,l≠[] ∧ 10∉l.dropLast := by
  induction hk : file.length using Nat.strong_induction_on generalizing file with
  | _ k ih =>
    rcases Lines.cases_line 10 file with rfl|⟨hnl,hne⟩|⟨l,t,hl,rfl⟩
    · exact fun l hl => absurd hl List.not_mem_nil
    · rw [Lines.split_last hnl hne]
      intro l hl
      rw [List.mem_singleton] at hl
      exact hl ▸ ⟨hne,fun h => hnl (List.dropLast_subset file h)⟩
    · rw [Lines.split_line hl,List.forall_mem_cons,List.dropLast_concat]
      refine ⟨⟨by simp,hl⟩,ih t.length ?_ t rfl⟩
      rw [← hk,List.length_append,List.length_cons]
      omega

/-- Lines that fit are read one by one. -/
theorem fgets_lines (file : Text) (hn : 1 < n) (h : ∀ l∈Lines.split 10 file,l.length < n) :
    fgets n file=Lines.split 10 file := by
  have hone : ∀ l∈Lines.split 10 file,fgets n l=[l] := fun l hl => by
    have hlen := h l hl
    obtain ⟨hne,hnl⟩ := split_lines file l hl
    rw [fgets_first hnl hn hne,List.take_of_length_le (by omega),
      List.drop_of_length_le (by omega)]
    rfl
  rw [fgets_flatMap,List.flatMap_congr hone,List.flatMap_singleton']

end Lines

end Crotalus
