import Mathlib.Data.List.Nodup
import Mathlib.Data.List.Perm.Subperm
import Mathlib.Logic.Function.Basic

namespace Singly

/-! Singly linked lists: nodes with one link each, in which several lists can lie at once. -/

universe u
variable {ι : Type u} {next next' : ι → Option ι} {p q : Option ι} {x y : ι} {xs ys : List ι}

/-- From `p`, the links lead through `xs` to `q`. -/
def Leads (next : ι → Option ι) : Option ι → List ι → Option ι → Prop
  | p,[],q => p=q
  | p,x::xs,q => p=some x ∧ Leads next (next x) xs q

/-- Links outside of a list do not matter to it. -/
theorem Leads.congr (h : Leads next p xs q) (hx : ∀ x∈xs,next' x=next x) :
    Leads next' p xs q := by
  induction xs generalizing p with
  | nil => exact h
  | cons x xs ih =>
    refine ⟨h.1,?_⟩
    rw [hx x List.mem_cons_self]
    exact ih h.2 fun y hy => hx y (List.mem_cons_of_mem x hy)

theorem leads_append : Leads next p (xs++ys) q ↔ ∃ r,Leads next p xs r ∧ Leads next r ys q := by
  induction xs generalizing p with
  | nil =>
    constructor
    · exact fun h => ⟨p,rfl,h⟩
    · rintro ⟨r,rfl,h⟩
      exact h
  | cons x xs ih =>
    constructor
    · rintro ⟨hp,h⟩
      obtain ⟨r,hxs,hys⟩ := ih.mp h
      exact ⟨r,⟨hp,hxs⟩,hys⟩
    · rintro ⟨r,⟨hp,hxs⟩,hys⟩
      exact ⟨hp,ih.mpr ⟨r,hxs,hys⟩⟩

/-- A list that ends is determined by its start. -/
theorem Leads.unique (h : Leads next p xs none) (h' : Leads next p ys none) : xs=ys := by
  induction xs generalizing p ys with
  | nil =>
    cases ys with
    | nil => rfl
    | cons y ys =>
      obtain ⟨hp,-⟩ := h'
      cases h.symm.trans hp
  | cons x xs ih =>
    obtain ⟨hp,h⟩ := h
    cases ys with
    | nil => cases hp.symm.trans h'
    | cons y ys =>
      obtain ⟨hp',h'⟩ := h'
      obtain rfl := Option.some.inj (hp.symm.trans hp')
      rw [ih h h']

/-- A list that ends has no cycle. -/
theorem Leads.nodup (h : Leads next p xs none) : xs.Nodup := by
  induction xs generalizing p with
  | nil => exact List.nodup_nil
  | cons x xs ih =>
    refine List.nodup_cons.mpr ⟨fun hx => ?_,ih h.2⟩
    obtain ⟨front,back,rfl⟩ := List.append_of_mem hx
    obtain ⟨r,-,hr,hback⟩ := leads_append.mp h.2
    have hlen := congrArg List.length (hback.unique h.2)
    rw [List.length_append,List.length_cons] at hlen
    omega

/-- Nodes from a bounded stock make a list of bounded length. -/
theorem Leads.length_le {next : Nat → Option Nat} {p : Option Nat} {xs : List Nat} {n : Nat}
    (h : Leads next p xs none) (hn : ∀ x∈xs,x < n) : xs.length ≤ n := by
  have hsub := List.subperm_of_subset h.nodup fun x hx => List.mem_range.mpr (hn x hx)
  rw [← List.length_range (n := n)]
  exact hsub.length_le

section Update

variable [DecidableEq ι]

theorem Leads.update (h : Leads next p xs q) (hy : y∉xs) (r : Option ι) :
    Leads (Function.update next y r) p xs q := by
  refine h.congr fun x hx => ?_
  rw [Function.update_of_ne]
  rintro rfl
  exact hy hx

/-- A node put in front. -/
theorem Leads.push (h : Leads next p xs q) (hx : x∉xs) :
    Leads (Function.update next x p) (some x) (x::xs) q := by
  refine ⟨rfl,?_⟩
  rw [Function.update_self]
  exact h.update hx p

/-- The last link redirected. -/
theorem Leads.redirect (h : Leads next p (xs++[x]) q) (hx : x∉xs) (r : Option ι) :
    Leads (Function.update next x r) p (xs++[x]) r := by
  obtain ⟨s,hxs,hs,-⟩ := leads_append.mp h
  exact leads_append.mpr ⟨s,hxs.update hx r,hs,Function.update_self ..⟩

end Update

end Singly
