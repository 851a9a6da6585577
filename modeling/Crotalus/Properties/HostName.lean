import Mathlib.Data.List.Chain
import Crotalus.Server.Uri

namespace Crotalus

/-! The check of a host name. -/

/-- A character that may stand inside a host name. -/
def isHostChar (c : Byte) : Bool := isAlnumHost c || c=45 || c=46

/-- Not two dots. -/
def NotDots (c d : Byte) : Prop := ¬(c=46 ∧ d=46)

instance : DecidableRel NotDots := fun _ _ => inferInstanceAs (Decidable ¬_)

/-- The rule that the comments of `check_host` state. -/
structure HostRule (r : Text) : Prop where
  short : 1≤r.length ∧ r.length≤63
  chars : ∀ c∈r,isHostChar c=true
  first : ∀ c∈r.head?,isAlnumHost c=true
  last : ∀ c∈r.getLast?,isAlnumHost c=true
  dots : r.IsChain NotDots

instance (r : Text) : Decidable (HostRule r) :=
  decidable_of_iff ((1≤r.length ∧ r.length≤63) ∧ r.all isHostChar=true ∧
      r.head?.all isAlnumHost=true ∧ r.getLast?.all isAlnumHost=true ∧ r.IsChain NotDots)
    ⟨fun h => ⟨h.1,List.all_eq_true.mp h.2.1,(Option.all_eq_true _ _).mp h.2.2.1,
        (Option.all_eq_true _ _).mp h.2.2.2.1,h.2.2.2.2⟩,
      fun h => ⟨h.short,List.all_eq_true.mpr h.chars,(Option.all_eq_true _ _).mpr h.first,
        (Option.all_eq_true _ _).mpr h.last,h.dots⟩⟩

/-- What the rule asks `check_host` to return. -/
def hostResult (r : Text) : Int := if HostRule r then r.length else -1

/-- The flag stands for the character before: unset, a dot may not follow. -/
theorem hostInterior_iff (ok : Bool) (s : Text) : hostInterior ok s=true ↔
    (∀ c∈s,isHostChar c=true) ∧ s.IsChain NotDots ∧ (ok=false → ∀ c∈s.head?,c≠46) := by
  induction s generalizing ok with
  | nil => simp [hostInterior]
  | cons c s ih =>
    rw [hostInterior,List.forall_mem_cons,List.isChain_cons]
    by_cases hplain : (isAlnumHost c || c=45)=true
    · have hdot : c≠46 := by
        rintro rfl
        exact absurd hplain (by decide)
      have hchar : isHostChar c=true := by rw [isHostChar,hplain]; rfl
      rw [if_pos hplain,ih]
      constructor
      · rintro ⟨hchars,hchain,-⟩
        exact ⟨⟨hchar,hchars⟩,⟨fun d _ hboth => hdot hboth.1,hchain⟩,
          fun _ d hd => Option.some.inj hd ▸ hdot⟩
      · rintro ⟨⟨-,hchars⟩,⟨-,hchain⟩,-⟩
        exact ⟨hchars,hchain,fun h => (by cases h)⟩
    · rw [if_neg hplain]
      by_cases hdot : c=46
      · subst hdot
        cases ok with
        | true =>
          rw [if_pos (by decide),ih]
          constructor
          · rintro ⟨hchars,hchain,hhead⟩
            exact ⟨⟨by decide,hchars⟩,⟨fun d hd hboth => hhead rfl d hd hboth.2,hchain⟩,
              fun h => (by cases h)⟩
          · rintro ⟨⟨-,hchars⟩,⟨hhead,hchain⟩,-⟩
            exact ⟨hchars,hchain,fun _ d hd heq => hhead d hd ⟨rfl,heq⟩⟩
        | false =>
          rw [if_neg (by decide)]
          exact ⟨fun h => (by cases h),fun h => absurd rfl (h.2.2 rfl 46 rfl)⟩
      · have hnone : (c=46 && ok)=true → False := by simp [hdot]
        rw [if_neg fun h => hnone (by simpa using h)]
        refine ⟨fun h => (by cases h),fun h => absurd h.1.1 ?_⟩
        rw [isHostChar,Bool.eq_false_iff.mpr hplain]
        simpa using hdot

/-- What the loop accepts: a name of the rule, but for a dot in second place. -/
theorem checkHost_eq (r : Text) :
    checkHost r=if HostRule r ∧ r[1]?≠some 46 then (r.length : Int) else -1 := by
  cases r with
  | nil =>
    rw [if_neg fun h => absurd h.1.short.1 (by decide)]
    rfl
  | cons c s =>
    have hlast : (c::s).getLast?=some ((c::s).getLastD 0) := by
      rw [List.getLastD_eq_getLast?,List.getLast?_cons,Option.getD_some]
    have hsecond : (c::s)[1]?=s.head? := by rw [List.getElem?_cons_succ,List.head?_eq_getElem?]
    simp only [checkHost,Bool.not_eq_true']
    by_cases hfirst : isAlnumHost c=false
    · rw [if_pos hfirst,if_neg]
      rintro ⟨hrule,-⟩
      exact absurd (hrule.first c rfl) (by rw [hfirst]; decide)
    rw [if_neg hfirst]
    rw [Bool.not_eq_false] at hfirst
    by_cases hlong : (c::s).length > 63
    · rw [if_pos hlong,if_neg]
      rintro ⟨hrule,-⟩
      exact absurd hrule.short.2 (by omega)
    rw [if_neg hlong]
    by_cases hinner : hostInterior false s=false
    · rw [if_pos hinner,if_neg]
      rintro ⟨hrule,hdot⟩
      rw [hsecond] at hdot
      have htrue := (hostInterior_iff false s).mpr
        ⟨fun d hd => hrule.chars d (List.mem_cons_of_mem c hd),hrule.dots.tail,
          fun _ d hd heq => hdot (heq ▸ hd)⟩
      exact absurd hinner (by rw [htrue]; decide)
    rw [if_neg hinner]
    rw [Bool.not_eq_false,hostInterior_iff] at hinner
    obtain ⟨hchars,hchain,hhead⟩ := hinner
    by_cases hend : isAlnumHost ((c::s).getLastD 0)=false
    · rw [if_pos hend,if_neg]
      rintro ⟨hrule,-⟩
      exact absurd (hrule.last _ hlast) (by rw [hend]; decide)
    rw [if_neg hend]
    rw [Bool.not_eq_false] at hend
    have hdot : c≠46 := by
      rintro rfl
      exact absurd hfirst (by decide)
    rw [if_pos]
    refine ⟨⟨⟨Nat.succ_pos _,Nat.le_of_not_lt hlong⟩,?_,?_,?_,?_⟩,?_⟩
    · rw [List.forall_mem_cons]
      exact ⟨by rw [isHostChar,hfirst]; rfl,hchars⟩
    · exact fun d hd => Option.some.inj hd ▸ hfirst
    · exact fun d hd => Option.some.inj (hlast.symm.trans hd) ▸ hend
    · exact List.isChain_cons.mpr ⟨fun d _ hboth => hdot hboth.1,hchain⟩
    · rw [hsecond]
      exact fun h => hhead rfl 46 h rfl

/-- The check follows the rule except on names whose first label is a single character with
another label behind it. -/
theorem checkHost_rule_iff (r : Text) :
    checkHost r=hostResult r ↔ ¬(HostRule r ∧ r[1]?=some 46) := by
  rw [checkHost_eq,hostResult]
  by_cases hrule : HostRule r
  · by_cases hdot : r[1]?=some 46
    · rw [if_neg fun h => h.2 hdot,if_pos hrule]
      exact ⟨fun h => absurd h (by omega),fun h => absurd ⟨hrule,hdot⟩ h⟩
    · rw [if_pos ⟨hrule,hdot⟩,if_pos hrule]
      exact ⟨fun _ h => hdot h.2,fun _ => rfl⟩
  · rw [if_neg fun h => hrule h.1,if_neg hrule]
    exact ⟨fun _ h => hrule h.1,fun _ => rfl⟩

/-- The flag starts as if a dot came in front of the second character. -/
theorem checkHost_single : HostRule (str "a.example") ∧ checkHost (str "a.example")= -1 ∧
    hostResult (str "a.example")=9 := by decide +kernel

end Crotalus
