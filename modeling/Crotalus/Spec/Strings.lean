import Crotalus.Server.Settings

namespace Crotalus

/-! Strings that are compared and searched, and tables that are looked up by strings. -/

theorem strcaseEq_iff (s t : Text) : strcaseEq s t=true ↔ s.map lowerByte=t.map lowerByte :=
  decide_eq_true_iff

theorem strcaseEq_length {s t : Text} (h : strcaseEq s t=true) : s.length=t.length := by
  have hlen := congrArg List.length ((strcaseEq_iff s t).mp h)
  rwa [List.length_map,List.length_map] at hlen

theorem strrchr_none {b : Byte} {s : Text} (h : strrchr b s=none) : b∉s := by
  induction s with
  | nil => exact List.not_mem_nil
  | cons c s ih =>
    obtain ⟨hrest,hc⟩ := Option.or_eq_none_iff.mp h
    have hne : c≠b := by
      intro heq
      rw [if_pos heq] at hc
      cases hc
    rw [List.mem_cons,not_or]
    exact ⟨fun heq => hne heq.symm,ih (Option.map_eq_none_iff.mp hrest)⟩

/-- Nothing behind the last occurrence is another one. -/
theorem strrchr_some {b : Byte} {s : Text} {i : Nat} (h : strrchr b s=some i) :
    ∃ tail,s=s.take i++b::tail ∧ b∉tail := by
  induction s generalizing i with
  | nil => cases h
  | cons c s ih =>
    rw [strrchr] at h
    cases hs : strrchr b s with
    | none =>
      rw [hs,Option.map_none,Option.none_or] at h
      split at h
      · rename_i heq
        cases h
        exact ⟨s,by rw [heq]; rfl,strrchr_none hs⟩
      · cases h
    | some j =>
      rw [hs,Option.map_some,Option.some_or] at h
      cases h
      obtain ⟨tail,hsplit,hnot⟩ := ih hs
      exact ⟨tail,congrArg (c::·) hsplit,hnot⟩

theorem hashFind_cons (k v token : Text) (table : List (Text × Text)) :
    hashFind ((k,v)::table) token=if k=token then some v else hashFind table token := by
  unfold hashFind
  by_cases h : k=token
  · rw [List.find?_cons_of_pos (by simpa using h),if_pos h]
    rfl
  · rw [List.find?_cons_of_neg (by simpa using h),if_neg h]

theorem hashFind_append (table more : List (Text × Text)) (token : Text) :
    hashFind (table++more) token=(hashFind table token).or (hashFind more token) := by
  induction table with
  | nil => rfl
  | cons e table ih =>
    rw [List.cons_append,hashFind_cons,hashFind_cons,ih]
    split
    · rfl
    · rfl

end Crotalus
