import Crotalus.Framework.Stateful
import Mathlib.Data.List.Nodup

namespace Linked

open Stateful

/-! Doubly linked lists whose links lie in the nodes, so that several lists can share the
nodes, and loops that follow the links. -/

universe u
variable {ι σ : Type u}

structure Links (ι : Type u) where
  next : ι → Option ι
  prev : ι → Option ι

/-- The nodes `xs` one behind the other, with `p` in front of them and `q` behind. -/
def Threaded (k : Links ι) : Option ι → List ι → Option ι → Prop
  | _,[],_ => True
  | p,x::xs,q => k.prev x=p ∧ k.next x=xs.head?.or q ∧ Threaded k (some x) xs q

/-- A whole list, seen from its head. -/
structure IsList (k : Links ι) (head : Option ι) (xs : List ι) : Prop where
  head : head=xs.head?
  threaded : Threaded k none xs none

section Links

variable [DecidableEq ι]

/-- A link behind a node; without a node nothing happens. -/
def Links.setNext (k : Links ι) (x y : Option ι) : Links ι :=
  { k with next := fun z => if some z=x then y else k.next z }

def Links.setPrev (k : Links ι) (x y : Option ι) : Links ι :=
  { k with prev := fun z => if some z=x then y else k.prev z }

variable {k : Links ι} {x y : Option ι} {z : ι}

@[simp] theorem setNext_prev : (k.setNext x y).prev=k.prev := rfl
@[simp] theorem setPrev_next : (k.setPrev x y).next=k.next := rfl

theorem setNext_same (h : some z=x) : (k.setNext x y).next z=y := if_pos h
theorem setPrev_same (h : some z=x) : (k.setPrev x y).prev z=y := if_pos h

theorem setNext_other (h : some z≠x) : (k.setNext x y).next z=k.next z := if_neg h
theorem setPrev_other (h : some z≠x) : (k.setPrev x y).prev z=k.prev z := if_neg h

end Links

section Threaded

variable {k k' : Links ι} {p q : Option ι} {x : ι} {xs ys : List ι}

theorem Threaded.congr (h : Threaded k p xs q)
    (hx : ∀ x∈xs,k'.next x=k.next x ∧ k'.prev x=k.prev x) : Threaded k' p xs q := by
  induction xs generalizing p with
  | nil => trivial
  | cons x xs ih =>
    obtain ⟨hp,hn,hrest⟩ := h
    obtain ⟨hn',hp'⟩ := hx x List.mem_cons_self
    exact ⟨hp'.trans hp,hn'.trans hn,ih hrest fun y hy => hx y (List.mem_cons_of_mem x hy)⟩

theorem threaded_append : Threaded k p (xs++ys) q ↔
    Threaded k p xs (ys.head?.or q) ∧ Threaded k (xs.getLast?.or p) ys q := by
  induction xs generalizing p with
  | nil => simp [Threaded]
  | cons x xs ih =>
    have hlast : (x::xs).getLast?.or p=xs.getLast?.or (some x) := by
      cases xs with
      | nil => rfl
      | cons y ys => simp [List.getLast?_cons]
    have hhead : (xs++ys).head?.or q=xs.head?.or (ys.head?.or q) := by
      rw [List.head?_append,Option.or_assoc]
    rw [List.cons_append,Threaded,Threaded,ih,hlast,hhead]
    tauto

variable [DecidableEq ι]

/-- Only the first node of a stretch sees what lies in front of it. -/
theorem Threaded.start (h : Threaded k p xs q) (hd : xs.Nodup) {p' : Option ι}
    (hnext : ∀ z∈xs,k'.next z=k.next z)
    (hprev : ∀ z∈xs,k'.prev z=if some z=xs.head? then p' else k.prev z) :
    Threaded k' p' xs q := by
  cases xs with
  | nil => trivial
  | cons x xs =>
    obtain ⟨hp,hn,hrest⟩ := h
    have hx := List.mem_cons_self (a := x) (l := xs)
    refine ⟨(hprev x hx).trans (if_pos rfl),(hnext x hx).trans hn,hrest.congr fun y hy => ?_⟩
    have hne : ¬some y=(x::xs).head? := by
      rintro heq
      obtain rfl := Option.some.inj heq
      exact (List.nodup_cons.mp hd).1 hy
    have hmem := List.mem_cons_of_mem x hy
    exact ⟨hnext y hmem,(hprev y hmem).trans (if_neg hne)⟩

/-- Only the last node of a stretch sees what lies behind it. -/
theorem Threaded.stop (h : Threaded k p xs q) (hd : xs.Nodup) {q' : Option ι}
    (hnext : ∀ z∈xs,k'.next z=if some z=xs.getLast? then q' else k.next z)
    (hprev : ∀ z∈xs,k'.prev z=k.prev z) : Threaded k' p xs q' := by
  rcases List.eq_nil_or_concat xs with rfl|⟨ys,y,rfl⟩
  · trivial
  · have hlast : (ys++[y]).getLast?=some y := List.getLast?_concat
    rw [List.concat_eq_append] at h hd hnext hprev ⊢
    rw [hlast] at hnext
    rw [threaded_append] at h ⊢
    have hy : y∈ys++[y] := List.mem_append_right ys List.mem_cons_self
    refine ⟨h.1.congr fun z hz => ?_,(hprev y hy).trans h.2.1,(hnext y hy).trans (if_pos rfl),
      trivial⟩
    have hne : ¬some z=some y := by
      rintro heq
      obtain rfl := Option.some.inj heq
      exact (List.nodup_append.mp hd).2.2 z hz z List.mem_cons_self rfl
    have hmem := List.mem_append_left [y] hz
    exact ⟨(hnext z hmem).trans (if_neg hne),hprev z hmem⟩

omit [DecidableEq ι] in
theorem Threaded.links (h : Threaded k none (xs++x::ys) none) :
    k.prev x=xs.getLast? ∧ k.next x=ys.head? := by
  obtain ⟨-,hprev,hnext,-⟩ := threaded_append.mp h
  rw [Option.or_none] at hprev hnext
  exact ⟨hprev,hnext⟩

end Threaded

section IsList

variable {k k' : Links ι} {head : Option ι} {x : ι} {xs ys : List ι}

/-- The neighbours of a node lie in its list. -/
theorem IsList.neighbours (h : IsList k head xs) (hx : x∈xs) {z : ι}
    (hz : some z=k.prev x ∨ some z=k.next x) : z∈xs := by
  obtain ⟨as,bs,rfl⟩ := List.append_of_mem hx
  obtain ⟨hprev,hnext⟩ := h.threaded.links
  rw [hprev,hnext] at hz
  rcases hz with hz|hz
  · exact List.mem_append_left _ (List.mem_of_getLast? hz.symm)
  · exact List.mem_append_right _ (List.mem_cons_of_mem x (List.mem_of_head? hz.symm))

/-- The links spell one list only. -/
theorem Threaded.unique {p p' : Option ι} (h : Threaded k p xs none) (h' : Threaded k p' ys none)
    (hhead : xs.head?=ys.head?) : xs=ys := by
  induction xs generalizing p p' ys with
  | nil => exact (List.head?_eq_none_iff.mp hhead.symm).symm
  | cons x xs ih =>
    obtain ⟨ys',rfl⟩ : ∃ ys',ys=x::ys' := ⟨_,List.eq_cons_of_mem_head? hhead.symm⟩
    obtain ⟨-,hnext,hrest⟩ := h
    obtain ⟨-,hnext',hrest'⟩ := h'
    rw [Option.or_none] at hnext hnext'
    rw [ih hrest hrest' (hnext.symm.trans hnext')]

theorem IsList.unique (h : IsList k head xs) (h' : IsList k head ys) : xs=ys :=
  h.threaded.unique h'.threaded (h.head.symm.trans h'.head)

theorem IsList.congr (h : IsList k head xs)
    (hx : ∀ x∈xs,k'.next x=k.next x ∧ k'.prev x=k.prev x) : IsList k' head xs :=
  ⟨h.head,h.threaded.congr hx⟩

variable [DecidableEq ι]

/-- A node leaves its list when its neighbours are linked to each other. -/
theorem IsList.unlink (h : IsList k head (xs++x::ys)) (hd : (xs++x::ys).Nodup)
    (hnext : ∀ z,z≠x → k'.next z=if some z=k.prev x then k.next x else k.next z)
    (hprev : ∀ z,z≠x → k'.prev z=if some z=k.next x then k.prev x else k.prev z) :
    IsList k' (if head=some x then k.next x else head) (xs++ys) := by
  obtain ⟨hpx,hnx⟩ := h.threaded.links
  obtain ⟨hxs,hys,hapart⟩ := List.nodup_append.mp hd
  obtain ⟨hx,hys⟩ := List.nodup_cons.mp hys
  have hne : ∀ z∈xs,z≠x := fun z hz => hapart z hz x List.mem_cons_self
  have hne' : ∀ z∈ys,z≠x := fun z hz heq => hx (heq ▸ hz)
  have hcross : ∀ z∈xs,z∉ys := fun z hz hz' => hapart z hz z (List.mem_cons_of_mem x hz') rfl
  have hsplit := threaded_append.mp h.threaded
  rw [hpx,hnx] at hnext hprev
  constructor
  · rw [h.head,hnx]
    cases xs with
    | nil => simp
    | cons y xs =>
      have hyx : ¬some y=some x := fun heq => hne y List.mem_cons_self (Option.some.inj heq)
      simp [hyx]
  · refine threaded_append.mpr ⟨?_,?_⟩
    · rw [Option.or_none]
      refine hsplit.1.stop hxs (fun z hz => hnext z (hne z hz)) fun z hz => ?_
      rw [hprev z (hne z hz),if_neg]
      intro heq
      exact hcross z hz (List.mem_of_head? heq.symm)
    · rw [Option.or_none]
      refine hsplit.2.2.2.start hys (fun z hz => ?_) fun z hz => hprev z (hne' z hz)
      rw [hnext z (hne' z hz),if_neg]
      intro heq
      exact hcross z (List.mem_of_getLast? heq.symm) hz

/-- A node in front of a list. -/
theorem IsList.push (h : IsList k head xs) (hd : xs.Nodup) (hx : x∉xs)
    (hnextx : k'.next x=head) (hprevx : k'.prev x=none)
    (hnext : ∀ z,z≠x → k'.next z=k.next z)
    (hprev : ∀ z,z≠x → k'.prev z=if some z=head then some x else k.prev z) :
    IsList k' (some x) (x::xs) := by
  have hne : ∀ z∈xs,z≠x := fun z hz heq => hx (heq ▸ hz)
  rw [h.head] at hprev
  refine ⟨rfl,hprevx,?_,?_⟩
  · rw [hnextx,h.head,Option.or_none]
  · exact h.threaded.start hd (fun z hz => hnext z (hne z hz)) fun z hz => hprev z (hne z hz)

end IsList

section Loops

variable (body : ι → StateM σ (Option ι))

/-- A loop over nodes whose body says where it goes on, and the nodes it has visited: `none`
when it has not come to its end. -/
def forEach : Nat → Option ι → σ → Option (List ι × σ)
  | _,none,s => some ([],s)
  | 0,some _,_ => none
  | n+1,some x,s =>
    (forEach n (value (body x) s) (exec (body x) s)).map fun r => (x::r.1,r.2)

variable {body} {P : List ι → σ → Prop}

/-- A loop whose body always goes on with the rest of a list visits just that list. -/
theorem forEach_visits
    (hstep : ∀ x xs s,P (x::xs) s → value (body x) s=xs.head? ∧ P xs (exec (body x) s))
    {xs : List ι} {s : σ} {n : Nat} (h : P xs s) (hn : xs.length ≤ n) :
    ∃ t,forEach body n xs.head? s=some (xs,t) ∧ P [] t := by
  induction xs generalizing s n with
  | nil =>
    refine ⟨s,?_,h⟩
    cases n <;> rfl
  | cons x xs ih =>
    obtain ⟨m,rfl⟩ : ∃ m,n=m+1 := ⟨n-1,by rw [List.length_cons] at hn; omega⟩
    obtain ⟨hval,hnext⟩ := hstep x xs s h
    obtain ⟨t,hrun,ht⟩ := ih hnext (Nat.le_of_succ_le_succ hn)
    refine ⟨t,?_,ht⟩
    rw [List.head?_cons,forEach,hval,hrun]
    rfl

end Loops

end Linked
