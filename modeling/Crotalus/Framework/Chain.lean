import Mathlib.Data.List.Basic
import Mathlib.Logic.Function.Basic

namespace Chain

universe u v
variable {α : Type u} {κ : Type v}

/-! Searches of a list for the first hit of two tests. -/

/-- A second test changes nothing exactly when the first hit passes it. -/
theorem find?_and_iff {p s : α → Bool} {as : List α} :
    as.find? (fun a => s a && p a)=as.find? p ↔ ∀ a,as.find? p=some a → s a=true := by
  constructor
  · intro heq a ha
    rw [← heq] at ha
    have hboth := List.find?_some ha
    exact (Bool.and_eq_true _ _ ▸ hboth).1
  · intro hs
    induction as with
    | nil => rfl
    | cons a as ih =>
      cases hp : p a with
      | true =>
        have ha : s a=true := hs a (List.find?_cons_of_pos hp)
        rw [List.find?_cons_of_pos hp,List.find?_cons_of_pos (by rw [ha,hp]; rfl)]
      | false =>
        have hneg : ¬p a=true := by rw [hp]; exact Bool.false_ne_true
        rw [List.find?_cons_of_neg hneg] at hs ⊢
        rw [List.find?_cons_of_neg (by rw [hp,Bool.and_false]; exact Bool.false_ne_true)]
        exact ih hs

/-- A weaker test finds what a stronger one finds exactly when each entry that passes only
the weaker comes behind one that passes both. -/
theorem find?_weaker_iff {p q : α → Bool} (hqp : ∀ a,q a=true → p a=true) {as : List α} :
    as.find? p=as.find? q ↔
      ∀ l a r,as=l++a::r → p a=true → q a=false → ∃ b∈l,q b=true := by
  constructor
  · intro heq l a r hsplit hp hq
    have hsome : (as.find? q).isSome=true := by
      rw [← heq,List.find?_isSome]
      exact ⟨a,by rw [hsplit]; exact List.mem_append_right _ List.mem_cons_self,hp⟩
    obtain ⟨b,hb⟩ := Option.isSome_iff_exists.mp hsome
    have hbq := List.find?_some hb
    rw [← heq,hsplit,List.find?_append] at hb
    cases hl : l.find? p with
    | none =>
      -- the entry itself would be the first hit
      rw [hl,Option.none_or,List.find?_cons_of_pos hp] at hb
      rw [← Option.some.inj hb,hq] at hbq
      exact absurd hbq Bool.false_ne_true
    | some c =>
      rw [hl,Option.some_or] at hb
      obtain rfl := Option.some.inj hb
      exact ⟨c,List.mem_of_find?_eq_some hl,hbq⟩
  · intro hcov
    have hboth : (fun a => q a && p a)=q := funext fun a => by
      cases hq : q a with
      | true => rw [hqp a hq]; rfl
      | false => rfl
    rw [← hboth,eq_comm,find?_and_iff]
    intro a ha
    obtain ⟨hp,l,r,hsplit,hfirst⟩ := List.find?_eq_some_iff_append.mp ha
    by_contra hq
    obtain ⟨b,hb,hbq⟩ := hcov l a r hsplit hp (Bool.not_eq_true _ ▸ hq)
    have hbp := hfirst b hb
    rw [hqp b hbq] at hbp
    exact absurd hbp Bool.false_ne_true

/-! Chained hash tables: a chain for each slot, in the order of the insertions. -/

variable {key : α → κ} {slot : κ → Nat} {table : Nat → List α} {as : List α}

/-- A test of the keys finds in a chain the first hit among the entries `as` of its slot. -/
def Holds (key : α → κ) (slot : κ → Nat) (table : Nat → List α) (as : List α) : Prop :=
  ∀ (i : Nat) (p : κ → Bool),(table i).find? (fun a => p (key a))=
    as.find? fun a => decide (slot (key a)=i) && p (key a)

theorem holds_empty : Holds key slot (fun _ => []) [] := fun _ _ => rfl

theorem Holds.push (h : Holds key slot table as) (a : α) :
    Holds key slot (Function.update table (slot (key a)) (table (slot (key a))++[a]))
      (as++[a]) := by
  intro i p
  rw [List.find?_append]
  by_cases hi : slot (key a)=i
  · subst hi
    rw [Function.update_self,List.find?_append,h]
    refine congrArg _ ?_
    rw [List.find?_singleton,List.find?_singleton,decide_eq_true rfl,Bool.true_and]
  · rw [Function.update_of_ne (Ne.symm hi),h,List.find?_singleton,decide_eq_false hi,
      Bool.false_and,if_neg Bool.false_ne_true,Option.or_none]

/-- Leaving out an entry whose key an earlier one has is not seen. -/
theorem Holds.again (h : Holds key slot table as) {a b : α} (hb : b∈as) (hkey : key b=key a) :
    Holds key slot table (as++[a]) := by
  intro i p
  rw [h,List.find?_append]
  cases hfind : as.find? (fun c => decide (slot (key c)=i) && p (key c)) with
  | some c => rfl
  | none =>
    have hno := List.find?_eq_none.mp hfind b hb
    rw [hkey] at hno
    rw [List.find?_singleton,if_neg hno]
    rfl

theorem Holds.mem [DecidableEq κ] (h : Holds key slot table as) {i : Nat} {b : α}
    (hb : b∈table i) : ∃ c∈as,key c=key b := by
  have hsome : ((table i).find? fun a => decide (key a=key b)).isSome=true :=
    List.find?_isSome.mpr ⟨b,hb,decide_eq_true rfl⟩
  rw [h i fun k => decide (k=key b),List.find?_isSome] at hsome
  obtain ⟨c,hc,hboth⟩ := hsome
  exact ⟨c,hc,of_decide_eq_true (Bool.and_eq_true _ _ ▸ hboth).2⟩

/-- A search of one chain is a search of everything exactly when the first hit is of its
slot. -/
theorem Holds.lookup (h : Holds key slot table as) {i : Nat} {p : κ → Bool} :
    (table i).find? (fun a => p (key a))=as.find? (fun a => p (key a)) ↔
      ∀ a,as.find? (fun a => p (key a))=some a → slot (key a)=i := by
  rw [h,find?_and_iff]
  exact forall₂_congr fun a _ => decide_eq_true_iff

end Chain
