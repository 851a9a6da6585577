import Crotalus.Server.RangePool

namespace Crotalus

open Singly

/-! Who owns the nodes of the ranges. -/

inductive Owner where
  | pool | caller | request (req : Nat) | gone
  deriving DecidableEq, Repr

namespace RangeHeap

variable {w w' : RangeHeap} {owner owner' : Nat → Owner} {o : Owner} {p : Option Nat}
  {x r req : Nat} {xs ps : List Nat}

/-- The list from `p` holds the nodes of an owner. -/
structure Part (w : RangeHeap) (owner : Nat → Owner) (o : Owner) (p : Option Nat)
    (xs : List Nat) : Prop where
  leads : Leads w.next p xs none
  mem : ∀ x,x∈xs ↔ x < w.allocs ∧ owner x=o

/-- Each node that was allocated is where its owner keeps it. -/
structure Owned (w : RangeHeap) (owner : Nat → Owner) : Prop where
  pool : ∃ xs,Part w owner .pool w.rangePool xs
  lists : ∀ req,∃ xs,Part w owner (.request req) (w.ranges req) xs
  nodup : w.held.Nodup
  held : ∀ x,x∈w.held ↔ x < w.allocs ∧ owner x=.caller
  links : ∀ x∈w.held,w.next x=none
  freed : ∀ x,x∈w.freed ↔ x < w.allocs ∧ owner x=.gone

theorem owned_start : Owned {} fun _ => .gone where
  pool := ⟨[],rfl,fun x => (by simp)⟩
  lists _ := ⟨[],rfl,fun x => (by simp)⟩
  nodup := List.nodup_nil
  held x := by simp
  links x hx := absurd hx List.not_mem_nil
  freed x := by simp

/-- A list that an operation leaves alone. -/
theorem Part.keep (h : Part w owner o p xs) (hnext : ∀ x∈xs,w'.next x=w.next x)
    (hmem : ∀ x,x < w'.allocs ∧ owner' x=o ↔ x < w.allocs ∧ owner x=o) :
    Part w' owner' o p xs where
  leads := h.leads.congr hnext
  mem x := (h.mem x).trans (hmem x).symm

theorem Part.length (h : Part w owner o p xs) : xs.length≤w.allocs :=
  h.leads.length_le fun x hx => ((h.mem x).mp hx).1

/-- Two lists of different owners have no node in common. -/
theorem Part.other {o' : Owner} {q : Option Nat} {ys : List Nat} (hx : Part w owner o p xs)
    (hy : Part w owner o' q ys) (ho : o≠o') (hmem : x∈xs) : x∉ys := by
  intro hmem'
  exact ho ((((hx.mem x).mp hmem).2).symm.trans ((hy.mem x).mp hmem').2)

/-! The updates. -/

@[simp] theorem setNext_next (y : Option Nat) :
    (w.setNext x y).next=Function.update w.next x y := by
  funext z
  by_cases hz : z=x
  · subst hz
    simp [next,setNext]
  · simp [next,setNext,Function.update_of_ne hz]

@[simp] theorem setRange_next (range : Range) : (w.setRange x range).next=w.next := by
  funext z
  by_cases hz : z=x
  · subst hz
    simp [next,setRange]
  · simp [next,setRange,Function.update_of_ne hz]

@[simp] theorem setNext_range (y : Option Nat) : (w.setNext x y).range=w.range := by
  funext z
  by_cases hz : z=x
  · subst hz
    simp [range,setNext]
  · simp [range,setNext,Function.update_of_ne hz]

@[simp] theorem setRange_range (a : Range) :
    (w.setRange x a).range=Function.update w.range x a := by
  funext z
  by_cases hz : z=x
  · subst hz
    simp [range,setRange]
  · simp [range,setRange,Function.update_of_ne hz]

theorem push_next : (w.rangePoolPush r).next=Function.update w.next r w.rangePool := setNext_next _

theorem push_range : (w.rangePoolPush r).range=w.range := setNext_range _

theorem pop_next : w.rangePoolPop.next=Function.update w.next w.popNode none := by
  funext z
  by_cases hz : z=w.popNode
  · subst hz
    simp [next,rangePoolPop]
  · simp [next,rangePoolPop,Function.update_of_ne hz]

/-- What a range says does not matter to the lists. -/
theorem Owned.setRange (h : Owned w owner) (x : Nat) (a : Range) : Owned (w.setRange x a) owner := by
  have hpart : ∀ {o p ys},Part w owner o p ys → Part (w.setRange x a) owner o p ys :=
    fun hp => hp.keep (fun z _ => by rw [setRange_next]) fun _ => Iff.rfl
  obtain ⟨ps,hps⟩ := h.pool
  exact {
    pool := ⟨ps,hpart hps⟩
    lists := fun req => (h.lists req).imp fun _ => hpart
    nodup := h.nodup
    held := h.held
    links := fun z hz => by rw [setRange_next]; exact h.links z hz
    freed := h.freed }

theorem Owned.countRange (h : Owned w owner) (req : Nat) : Owned (w.countRange req) owner := by
  have hpart : ∀ {o p ys},Part w owner o p ys → Part (w.countRange req) owner o p ys :=
    fun hp => hp.keep (fun _ _ => rfl) fun _ => Iff.rfl
  obtain ⟨ps,hps⟩ := h.pool
  exact {
    pool := ⟨ps,hpart hps⟩
    lists := fun j => (h.lists j).imp fun _ => hpart
    nodup := h.nodup
    held := h.held
    links := h.links
    freed := h.freed }

/-! The pool. -/

/-- The node that is taken is the first of the pool, or one that was not there. -/
theorem Owned.popNode (h : Owned w owner) :
    w.popNode < w.rangePoolPop.allocs ∧ (w.popNode < w.allocs → owner w.popNode=.pool) ∧
      (∀ y,y≠w.popNode → (y < w.rangePoolPop.allocs ↔ y < w.allocs)) ∧
      ∃ xs,Leads w.next w.rangePoolPop.rangePool xs none ∧ w.popNode∉xs ∧
        ∀ y,y∈xs ↔ y≠w.popNode ∧ y < w.allocs ∧ owner y=.pool := by
  obtain ⟨xs,hxs⟩ := h.pool
  cases hpool : w.rangePool with
  | none =>
    have hnode : w.popNode=w.allocs := by rw [RangeHeap.popNode,hpool]; rfl
    have hallocs : w.rangePoolPop.allocs=w.allocs+1 := by rw [rangePoolPop,hpool]
    have hrest : w.rangePoolPop.rangePool=none := by rw [rangePoolPop,hpool]
    have hnil : xs=[] := by
      have hleads := hxs.leads
      rw [hpool] at hleads
      cases xs with
      | nil => rfl
      | cons y ys => cases hleads.1
    subst hnil
    rw [hnode,hallocs,hrest]
    refine ⟨Nat.lt_succ_self _,fun hlt => absurd hlt (Nat.lt_irrefl _),fun y hy => by omega,
      [],rfl,List.not_mem_nil,fun y => ?_⟩
    refine ⟨fun hy => absurd hy List.not_mem_nil,fun hy => ?_⟩
    exact (hxs.mem y).mpr hy.2
  | some r =>
    have hnode : w.popNode=r := by rw [RangeHeap.popNode,hpool]; rfl
    have hallocs : w.rangePoolPop.allocs=w.allocs := by rw [rangePoolPop,hpool]
    have hrest : w.rangePoolPop.rangePool=w.next r := by rw [rangePoolPop,hpool]
    have hleads := hxs.leads
    rw [hpool] at hleads
    cases xs with
    | nil => cases hleads
    | cons y ys =>
      obtain ⟨heq,htail⟩ := hleads
      obtain rfl := Option.some.inj heq
      have hnotin : r∉ys := (List.nodup_cons.mp hxs.leads.nodup).1
      obtain ⟨hlt,howner⟩ := (hxs.mem r).mp List.mem_cons_self
      rw [hnode,hallocs,hrest]
      refine ⟨hlt,fun _ => howner,fun _ _ => Iff.rfl,ys,htail,hnotin,fun y => ?_⟩
      rw [← hxs.mem y,List.mem_cons]
      constructor
      · exact fun hy => ⟨fun heq => hnotin (heq ▸ hy),.inr hy⟩
      · exact fun hy => hy.2.resolve_left hy.1

theorem rangePoolPop_ranges : w.rangePoolPop.ranges=w.ranges := by
  unfold rangePoolPop
  cases w.rangePool <;> rfl

theorem rangePoolPop_held : w.rangePoolPop.held=w.held := by
  unfold rangePoolPop
  cases w.rangePool <;> rfl

theorem rangePoolPop_freed : w.rangePoolPop.freed=w.freed := by
  unfold rangePoolPop
  cases w.rangePool <;> rfl

/-- An owner that did not have the node keeps what it has. -/
theorem Owned.popped_mem (h : Owned w owner) (o : Owner) {o' : Owner} (hpool : o'≠.pool)
    (ho : o'≠o) (x : Nat) : x < w.rangePoolPop.allocs ∧ Function.update owner w.popNode o x=o' ↔
      x < w.allocs ∧ owner x=o' := by
  obtain ⟨hlt,howner,hother,-⟩ := h.popNode
  by_cases hx : x=w.popNode
  · subst hx
    rw [Function.update_self]
    exact ⟨fun hy => absurd hy.2.symm ho,fun hy => absurd ((howner hy.1).symm.trans hy.2).symm hpool⟩
  · rw [Function.update_of_ne hx,hother x hx]

/-- The owner that gets the node has it besides. -/
theorem Owned.popped_new (h : Owned w owner) (o : Owner) (x : Nat) :
    x < w.rangePoolPop.allocs ∧ Function.update owner w.popNode o x=o ↔
      (x < w.allocs ∧ owner x=o) ∨ x=w.popNode := by
  obtain ⟨hlt,howner,hother,-⟩ := h.popNode
  by_cases hx : x=w.popNode
  · subst hx
    rw [Function.update_self]
    exact ⟨fun _ => .inr rfl,fun _ => ⟨hlt,rfl⟩⟩
  · rw [Function.update_of_ne hx,hother x hx,or_iff_left hx]

theorem Owned.popped_pool (h : Owned w owner) {o : Owner} (ho : o≠.pool) :
    ∃ xs,Part w.rangePoolPop (Function.update owner w.popNode o) .pool w.rangePoolPop.rangePool
      xs := by
  obtain ⟨hlt,-,hother,xs,hleads,hnotin,hmem⟩ := h.popNode
  refine ⟨xs,?_,fun x => ?_⟩
  · rw [pop_next]
    exact hleads.update hnotin none
  · rw [hmem]
    by_cases hx : x=w.popNode
    · subst hx
      rw [Function.update_self]
      exact ⟨fun hy => absurd rfl hy.1,fun hy => absurd hy.2 ho⟩
    · rw [Function.update_of_ne hx,hother x hx]
      exact ⟨And.right,fun hy => ⟨hx,hy⟩⟩

theorem Owned.popped_list (h : Owned w owner) {o : Owner} (ho : ∀ req,o≠.request req) (req : Nat) :
    ∃ xs,Part w.rangePoolPop (Function.update owner w.popNode o) (.request req)
      (w.rangePoolPop.ranges req) xs := by
  obtain ⟨xs,hxs⟩ := h.lists req
  rw [rangePoolPop_ranges]
  refine ⟨xs,hxs.keep (fun x hx => ?_) fun x =>
    h.popped_mem o (fun heq => (by cases heq)) (ho req).symm x⟩
  rw [pop_next,Function.update_of_ne]
  rintro rfl
  obtain ⟨hlt,howner⟩ := (hxs.mem _).mp hx
  cases (h.popNode.2.1 hlt).symm.trans howner

theorem Owned.popNode_notHeld (h : Owned w owner) : w.popNode∉w.held := by
  intro hx
  obtain ⟨hlt,howner⟩ := (h.held _).mp hx
  cases (h.popNode.2.1 hlt).symm.trans howner

/-- A node taken for a caller. -/
theorem Owned.pop (h : Owned w owner) : Owned (w.rangePoolPop.setHeld (w.held++[w.popNode]))
    (Function.update owner w.popNode .caller) := by
  obtain ⟨ps,hps⟩ := h.popped_pool (o := .caller) (fun heq => (by cases heq))
  exact {
    pool := ⟨ps,hps.leads,hps.mem⟩
    lists := fun req => by
      obtain ⟨xs,hxs⟩ := h.popped_list (o := .caller) (fun _ heq => (by cases heq)) req
      exact ⟨xs,hxs.leads,hxs.mem⟩
    nodup := by
      refine List.nodup_append.mpr ⟨h.nodup,List.pairwise_singleton ..,fun x hx y hy heq => ?_⟩
      rw [List.mem_singleton.mp hy] at heq
      exact h.popNode_notHeld (heq ▸ hx)
    held := fun x => by
      change x∈w.held++[w.popNode] ↔ _
      rw [List.mem_append,List.mem_singleton,h.held]
      exact (h.popped_new .caller x).symm
    links := fun x hx => by
      change w.rangePoolPop.next x=none
      rw [pop_next]
      by_cases heq : x=w.popNode
      · rw [heq,Function.update_self]
      · rw [Function.update_of_ne heq]
        exact h.links x ((List.mem_append.mp hx).resolve_right fun hy =>
          heq (List.mem_singleton.mp hy))
    freed := fun x => by
      change x∈w.rangePoolPop.freed ↔ _
      rw [rangePoolPop_freed,h.freed]
      exact (h.popped_mem .caller (fun heq => (by cases heq)) (fun heq => (by cases heq)) x).symm }

/-- A node taken to be freed. -/
theorem Owned.popFree (h : Owned w owner) :
    Owned { w.rangePoolPop with freed := w.freed++[w.popNode] }
      (Function.update owner w.popNode .gone) := by
  obtain ⟨ps,hps⟩ := h.popped_pool (o := .gone) (fun heq => (by cases heq))
  exact {
    pool := ⟨ps,hps.leads,hps.mem⟩
    lists := fun req => by
      obtain ⟨xs,hxs⟩ := h.popped_list (o := .gone) (fun _ heq => (by cases heq)) req
      exact ⟨xs,hxs.leads,hxs.mem⟩
    nodup := by
      change w.rangePoolPop.held.Nodup
      rw [rangePoolPop_held]
      exact h.nodup
    held := fun x => by
      change x∈w.rangePoolPop.held ↔ _
      rw [rangePoolPop_held,h.held]
      exact (h.popped_mem .gone (fun heq => (by cases heq)) (fun heq => (by cases heq)) x).symm
    links := fun x hx => by
      change x∈w.rangePoolPop.held at hx
      rw [rangePoolPop_held] at hx
      have hne : x≠w.popNode := by
        rintro rfl
        exact h.popNode_notHeld hx
      change w.rangePoolPop.next x=none
      rw [pop_next,Function.update_of_ne hne]
      exact h.links x hx
    freed := fun x => by
      rw [List.mem_append,List.mem_singleton,h.freed]
      exact (h.popped_new .gone x).symm }

/-! What a caller holds, given away. -/

theorem Owned.given_mem (h : Owned w owner) (hr : r∈w.held) {o' : Owner} (o : Owner)
    (hcaller : o'≠.caller) (ho : o'≠o) (x : Nat) :
    x < w.allocs ∧ Function.update owner r o x=o' ↔ x < w.allocs ∧ owner x=o' := by
  by_cases hx : x=r
  · subst hx
    rw [Function.update_self]
    have howner := ((h.held x).mp hr).2
    exact ⟨fun hy => absurd hy.2.symm ho,fun hy => absurd (howner.symm.trans hy.2).symm hcaller⟩
  · rw [Function.update_of_ne hx]

theorem Owned.given_new (h : Owned w owner) (hr : r∈w.held) (o : Owner) (x : Nat) :
    x < w.allocs ∧ Function.update owner r o x=o ↔ x=r ∨ (x < w.allocs ∧ owner x=o) := by
  by_cases hx : x=r
  · subst hx
    rw [Function.update_self]
    exact ⟨fun _ => .inl rfl,fun _ => ⟨((h.held x).mp hr).1,rfl⟩⟩
  · rw [Function.update_of_ne hx,or_iff_right hx]

/-- What the caller still holds. -/
theorem Owned.given_held (h : Owned w owner) {o : Owner} (ho : o≠.caller) (x : Nat) :
    x∈w.held.erase r ↔ x < w.allocs ∧ Function.update owner r o x=.caller := by
  rw [h.nodup.mem_erase_iff,h.held]
  by_cases hx : x=r
  · subst hx
    rw [Function.update_self]
    exact ⟨fun hy => absurd rfl hy.1,fun hy => absurd hy.2 ho⟩
  · rw [Function.update_of_ne hx,and_iff_right hx]

theorem Owned.notIn (h : Owned w owner) (hr : r∈w.held) (hxs : Part w owner o p xs)
    (ho : o≠.caller) : r∉xs := fun hx =>
  ho (((hxs.mem r).mp hx).2.symm.trans ((h.held r).mp hr).2)

/-- A caller's node pushed. -/
theorem Owned.push (h : Owned w owner) (hr : r∈w.held) :
    Owned ((w.rangePoolPush r).setHeld (w.held.erase r)) (Function.update owner r .pool) := by
  obtain ⟨ps,hps⟩ := h.pool
  have hpool := h.notIn hr hps (fun heq => (by cases heq))
  exact {
    pool := by
      refine ⟨r::ps,?_,fun x => ?_⟩
      · change Leads (w.rangePoolPush r).next (some r) _ _
        rw [push_next]
        exact hps.leads.push hpool
      · rw [List.mem_cons,hps.mem]
        exact (h.given_new hr .pool x).symm
    lists := fun req => by
      obtain ⟨xs,hxs⟩ := h.lists req
      have hnotin := h.notIn hr hxs (fun heq => (by cases heq))
      refine ⟨xs,?_,fun x => (hxs.mem x).trans ?_⟩
      · change Leads (w.rangePoolPush r).next (w.ranges req) _ _
        rw [push_next]
        exact hxs.leads.update hnotin _
      · exact (h.given_mem hr .pool (fun heq => (by cases heq)) (fun heq => (by cases heq)) x).symm
    nodup := h.nodup.erase r
    held := h.given_held fun heq => (by cases heq)
    links := fun x hx => by
      obtain ⟨hne,hmem⟩ := h.nodup.mem_erase_iff.mp hx
      change (w.rangePoolPush r).next x=none
      rw [push_next,Function.update_of_ne hne]
      exact h.links x hmem
    freed := fun x => (h.freed x).trans
      (h.given_mem hr .pool (fun heq => (by cases heq)) (fun heq => (by cases heq)) x).symm }

variable (w') in
/-- A caller's node put behind the nodes of a request, `w'` being the heap with the link. -/
theorem Owned.give (h : Owned w owner) (hr : r∈w.held)
    (hxs : Part w owner (.request req) (w.ranges req) xs)
    (hleads : Leads w'.next (w'.ranges req) (xs++[r]) none)
    (hother : ∀ x,x∉xs → w'.next x=w.next x) (hranges : ∀ j,j≠req → w'.ranges j=w.ranges j)
    (hpool : w'.rangePool=w.rangePool) (hallocs : w'.allocs=w.allocs)
    (hheld : w'.held=w.held.erase r) (hfreed : w'.freed=w.freed) :
    Owned w' (Function.update owner r (.request req)) := by
  have hmem : ∀ {o'},o'≠.caller → o'≠.request req → ∀ x,
      x < w'.allocs ∧ Function.update owner r (.request req) x=o' ↔ x < w.allocs ∧ owner x=o' := by
    intro o' hcaller ho x
    rw [hallocs]
    exact h.given_mem hr _ hcaller ho x
  obtain ⟨ps,hps⟩ := h.pool
  exact {
    pool := by
      rw [hpool]
      exact ⟨ps,hps.keep (fun x hx => hother x (hps.other hxs (fun heq => (by cases heq)) hx))
        (hmem (fun heq => (by cases heq)) (fun heq => (by cases heq)))⟩
    lists := fun j => by
      by_cases hj : j=req
      · subst hj
        refine ⟨xs++[r],hleads,fun x => ?_⟩
        rw [List.mem_append,List.mem_singleton,hallocs,h.given_new hr,hxs.mem,or_comm]
      · obtain ⟨ys,hys⟩ := h.lists j
        have hne : Owner.request j≠.request req := fun heq => hj (Owner.request.inj heq)
        rw [hranges j hj]
        exact ⟨ys,hys.keep (fun x hx => hother x (hys.other hxs hne hx))
          (hmem (fun heq => (by cases heq)) hne)⟩
    nodup := by
      rw [hheld]
      exact h.nodup.erase r
    held := fun x => by
      rw [hheld,hallocs]
      exact h.given_held (fun heq => (by cases heq)) x
    links := fun x hx => by
      rw [hheld] at hx
      have hmem := List.mem_of_mem_erase hx
      rw [hother x (h.notIn hmem hxs fun heq => (by cases heq))]
      exact h.links x hmem
    freed := fun x => by
      rw [hfreed,h.freed]
      exact (hmem (fun heq => (by cases heq)) (fun heq => (by cases heq)) x).symm }

/-! Nodes of a request moved to the pool. -/

/-- The memory but for the links and the ranges of the nodes, the pool and the lists. -/
structure Beside (w w' : RangeHeap) : Prop where
  allocs : w'.allocs=w.allocs
  held : w'.held=w.held
  freed : w'.freed=w.freed

theorem Beside.refl (w : RangeHeap) : Beside w w := ⟨rfl,rfl,rfl⟩

variable (w') in
/-- The nodes of a request keep their place in its list, or go to the pool. -/
theorem Owned.relink (h : Owned w owner) (kept dropped : List Nat)
    (hxs : Part w owner (.request req) (w.ranges req) xs) (hps : Part w owner .pool w.rangePool ps)
    (hkept : Leads w'.next (w'.ranges req) kept none)
    (hpool : Leads w'.next w'.rangePool (dropped++ps) none)
    (hsplit : ∀ x,x∈xs ↔ x∈kept ∨ x∈dropped) (hapart : ∀ x∈kept,x∉dropped)
    (hother : ∀ x,x∉xs → x∉ps → w'.next x=w.next x)
    (hranges : ∀ j,j≠req → w'.ranges j=w.ranges j) (hbeside : Beside w w') :
    Owned w' fun x => if x∈dropped then .pool else owner x := by
  have hdropped : ∀ x∈dropped,x < w.allocs ∧ owner x=.request req := fun x hx =>
    (hxs.mem x).mp ((hsplit x).mpr (.inr hx))
  have hmem : ∀ {o'},o'≠.pool → o'≠.request req → ∀ x,
      (x < w'.allocs ∧ (if x∈dropped then .pool else owner x)=o') ↔ x < w.allocs ∧ owner x=o' := by
    intro o' hpool ho x
    rw [hbeside.allocs]
    by_cases hx : x∈dropped
    · rw [if_pos hx]
      exact ⟨fun hy => absurd hy.2.symm hpool,
        fun hy => absurd ((hdropped x hx).2.symm.trans hy.2).symm ho⟩
    · rw [if_neg hx]
  exact {
    pool := by
      refine ⟨dropped++ps,hpool,fun x => ?_⟩
      rw [List.mem_append,hbeside.allocs,hps.mem]
      by_cases hx : x∈dropped
      · rw [if_pos hx]
        exact ⟨fun _ => ⟨(hdropped x hx).1,rfl⟩,fun _ => .inl hx⟩
      · rw [if_neg hx,or_iff_right hx]
    lists := fun j => by
      by_cases hj : j=req
      · subst hj
        refine ⟨kept,hkept,fun x => ?_⟩
        rw [hbeside.allocs]
        by_cases hx : x∈dropped
        · rw [if_pos hx]
          exact ⟨fun hy => absurd hx (hapart x hy),fun hy => (by cases hy.2)⟩
        · rw [if_neg hx,← hxs.mem,hsplit,or_iff_left hx]
      · obtain ⟨ys,hys⟩ := h.lists j
        have hne : Owner.request j≠.request req := fun heq => hj (Owner.request.inj heq)
        rw [hranges j hj]
        exact ⟨ys,hys.keep (fun x hx => hother x (hys.other hxs hne hx)
          (hys.other hps (fun heq => (by cases heq)) hx)) (hmem (fun heq => (by cases heq)) hne)⟩
    nodup := by
      rw [hbeside.held]
      exact h.nodup
    held := fun x => by
      rw [hbeside.held,h.held]
      exact (hmem (fun heq => (by cases heq)) (fun heq => (by cases heq)) x).symm
    links := fun x hx => by
      rw [hbeside.held] at hx
      rw [hother x (h.notIn hx hxs fun heq => (by cases heq))
        (h.notIn hx hps fun heq => (by cases heq))]
      exact h.links x hx
    freed := fun x => by
      rw [hbeside.freed,h.freed]
      exact (hmem (fun heq => (by cases heq)) (fun heq => (by cases heq)) x).symm }

/-- All nodes of a list pushed, the last one ending in front. -/
theorem pushLoop_leads {k : Nat} (hxs : Leads w.next p xs none)
    (hps : Leads w.next w.rangePool ps none) (happart : ∀ x∈xs,x∉ps) (hk : xs.length≤k) :
    ∃ w',pushLoop k w p=some w' ∧ Leads w'.next w'.rangePool (xs.reverse++ps) none ∧
      (∀ x,x∉xs → w'.next x=w.next x) ∧ w'.range=w.range ∧ w'.ranges=w.ranges ∧ Beside w w' := by
  induction xs generalizing p k w ps with
  | nil =>
    obtain rfl : p=none := hxs
    refine ⟨w,?_,hps,fun _ _ => rfl,rfl,rfl,.refl w⟩
    cases k <;> rfl
  | cons r xs ih =>
    have hnotin : r∉xs := (List.nodup_cons.mp hxs.nodup).1
    obtain ⟨rfl,hxs⟩ := hxs
    cases k with
    | zero => exact absurd hk (Nat.not_succ_le_zero _)
    | succ k =>
      have hxs' : Leads (w.rangePoolPush r).next (w.next r) xs none := by
        rw [push_next]
        exact hxs.update hnotin _
      have hps' : Leads (w.rangePoolPush r).next (w.rangePoolPush r).rangePool (r::ps) none := by
        rw [push_next]
        exact hps.push (happart r List.mem_cons_self)
      have happart' : ∀ x∈xs,x∉r::ps := by
        intro x hx
        rw [List.mem_cons,not_or]
        exact ⟨fun heq => hnotin (heq ▸ hx),happart x (List.mem_cons_of_mem r hx)⟩
      obtain ⟨w',hloop,hpool,hnext,hrange,hranges,hbeside⟩ :=
        ih hxs' hps' happart' (Nat.le_of_succ_le_succ hk)
      refine ⟨w',hloop,?_,fun x hx => ?_,hrange.trans push_range,hranges,
        hbeside.allocs,hbeside.held,hbeside.freed⟩
      · rw [List.reverse_cons,List.append_assoc]
        exact hpool
      · rw [List.mem_cons,not_or] at hx
        rw [hnext x hx.2,push_next,Function.update_of_ne hx.1]

/-! The loop of `ranges_fixup`. -/

/-- The loop keeps the node in the list. -/
def keeps (filesize : Nat) (w : RangeHeap) (x : Nat) : Bool :=
  !(fixupRange filesize (w.range x)).isInvalid

/-- What the loop makes of the nodes `rs` that it has before it, behind the nodes `ds` that it
kept. -/
structure FixedUp (filesize req : Nat) (w w' : RangeHeap) (ds rs ps : List Nat) : Prop where
  kept : Leads w'.next (w'.ranges req) (ds++rs.filter (keeps filesize w)) none
  pool : Leads w'.next w'.rangePool
    ((rs.filter fun x => !keeps filesize w x).reverse++ps) none
  other : ∀ x,x∉ds → x∉rs → w'.next x=w.next x
  range : ∀ x,w'.range x=if x∈rs then fixupRange filesize (w.range x) else w.range x
  ranges : ∀ j,j≠req → w'.ranges j=w.ranges j
  beside : Beside w w'

/-- The heap behind a turn that drops the node `r`. -/
def dropNode (filesize : Nat) (w : RangeHeap) (prev : Option Nat) (r : Nat) : RangeHeap :=
  let w' := w.setRange r (fixupRange filesize (w.range r))
  let w' := match prev with
    | some prev => w'.setNext prev (w.next r)
    | none => w'
  w'.rangePoolPush r

/-- The heap behind a turn that keeps it. -/
def keepNode (filesize req : Nat) (w : RangeHeap) (prev : Option Nat) (r : Nat) : RangeHeap :=
  let w' := w.setRange r (fixupRange filesize (w.range r))
  if prev=none then w'.setRanges req (some r) else w'

theorem fixupLoop_drop {filesize k : Nat} {prev : Option Nat} (h : keeps filesize w r=false) :
    fixupLoop filesize req (k+1) w prev (some r)=
      fixupLoop filesize req k (dropNode filesize w prev r) prev (w.next r) := by
  have hrange : (w.setRange r (fixupRange filesize (w.range r))).range r=
      fixupRange filesize (w.range r) := by rw [setRange_range,Function.update_self]
  have hnext : (w.setRange r (fixupRange filesize (w.range r))).next r=w.next r := by
    rw [setRange_next]
  have hinvalid : (fixupRange filesize (w.range r)).isInvalid=true := by
    rw [keeps,Bool.not_eq_false'] at h
    exact h
  simp only [fixupLoop,hrange,if_pos hinvalid,hnext]
  rfl

theorem fixupLoop_keep {filesize k : Nat} {prev : Option Nat} (h : keeps filesize w r=true) :
    fixupLoop filesize req (k+1) w prev (some r)=
      fixupLoop filesize req k (keepNode filesize req w prev r) (some r) (w.next r) := by
  have hrange : (w.setRange r (fixupRange filesize (w.range r))).range r=
      fixupRange filesize (w.range r) := by rw [setRange_range,Function.update_self]
  have hnext : (if prev=none then
      (w.setRange r (fixupRange filesize (w.range r))).setRanges req (some r)
      else w.setRange r (fixupRange filesize (w.range r))).next r=w.next r := by
    split
    · exact congrFun (setRange_next _) r
    · exact congrFun (setRange_next _) r
  have hvalid : ¬(fixupRange filesize (w.range r)).isInvalid=true := by
    rw [keeps,Bool.not_eq_true'] at h
    rw [h]
    exact Bool.false_ne_true
  simp only [fixupLoop,hrange,if_neg hvalid,hnext]
  rfl

theorem dropNode_range (filesize : Nat) (w : RangeHeap) (prev : Option Nat) (r : Nat) :
    (dropNode filesize w prev r).range=
      Function.update w.range r (fixupRange filesize (w.range r)) := by
  cases prev with
  | none => exact push_range.trans (setRange_range _)
  | some y => exact push_range.trans ((setNext_range _).trans (setRange_range _))

theorem dropNode_rest (filesize : Nat) (w : RangeHeap) (prev : Option Nat) (r : Nat) :
    (dropNode filesize w prev r).ranges=w.ranges ∧
      (dropNode filesize w prev r).rangePool=some r ∧ Beside w (dropNode filesize w prev r) := by
  cases prev with
  | none => exact ⟨rfl,rfl,rfl,rfl,rfl⟩
  | some y => exact ⟨rfl,rfl,rfl,rfl,rfl⟩

/-- The link of the node goes to the pool, and the one of the node in front behind it. -/
theorem dropNode_next (filesize : Nat) (w : RangeHeap) (prev : Option Nat) (r : Nat) :
    (dropNode filesize w prev r).next=Function.update
      (prev.elim w.next fun y => Function.update w.next y (w.next r)) r w.rangePool := by
  cases prev with
  | none =>
    refine push_next.trans ?_
    rw [setRange_next]
    rfl
  | some y =>
    refine push_next.trans ?_
    rw [setNext_next,setRange_next]
    rfl

theorem dropNode_other {filesize : Nat} {prev : Option Nat} (hr : x≠r) (hprev : some x≠prev) :
    (dropNode filesize w prev r).next x=w.next x := by
  rw [dropNode_next,Function.update_of_ne hr]
  cases prev with
  | none => rfl
  | some y => exact Function.update_of_ne (fun heq => hprev (congrArg some heq)) ..

theorem keepNode_next (filesize req : Nat) (w : RangeHeap) (prev : Option Nat) (r : Nat) :
    (keepNode filesize req w prev r).next=w.next := by
  unfold keepNode
  dsimp only
  split
  · exact setRange_next _
  · exact setRange_next _

theorem keepNode_range (filesize req : Nat) (w : RangeHeap) (prev : Option Nat) (r : Nat) :
    (keepNode filesize req w prev r).range=
      Function.update w.range r (fixupRange filesize (w.range r)) := by
  unfold keepNode
  dsimp only
  split
  · exact setRange_range _
  · exact setRange_range _

theorem keepNode_rest (filesize req : Nat) (w : RangeHeap) (prev : Option Nat) (r : Nat) :
    (∀ j,j≠req → (keepNode filesize req w prev r).ranges j=w.ranges j) ∧
      (keepNode filesize req w prev r).rangePool=w.rangePool ∧
      Beside w (keepNode filesize req w prev r) := by
  unfold keepNode
  dsimp only
  split
  · exact ⟨fun j hj => Function.update_of_ne hj ..,rfl,rfl,rfl,rfl⟩
  · exact ⟨fun _ _ => rfl,rfl,rfl,rfl,rfl⟩

/-- Nodes whose ranges are still as they were are kept or not as before. -/
theorem keeps_congr {filesize : Nat} (h : w'.range x=w.range x) :
    keeps filesize w' x=keeps filesize w x := by
  rw [keeps,keeps,h]

/-- The first of several nodes has its ends written, and so have the others. -/
theorem range_cons {filesize : Nat} {w1 : RangeHeap} {rs : List Nat} (hr : r∉rs)
    (hrange : w1.range=Function.update w.range r (fixupRange filesize (w.range r)))
    (h : ∀ x,w'.range x=if x∈rs then fixupRange filesize (w1.range x) else w1.range x) (x : Nat) :
    w'.range x=if x∈r::rs then fixupRange filesize (w.range x) else w.range x := by
  rw [h,hrange]
  by_cases heq : x=r
  · subst heq
    rw [if_neg hr,Function.update_self,if_pos List.mem_cons_self]
  · rw [Function.update_of_ne heq]
    exact if_congr (by rw [List.mem_cons,or_iff_right heq]) rfl rfl

/-- The nodes behind the first are kept or dropped as they would be without it. -/
theorem keeps_behind {filesize : Nat} {w1 : RangeHeap} {rs : List Nat} (hr : r∉rs)
    (hrange : w1.range=Function.update w.range r (fixupRange filesize (w.range r))) :
    rs.filter (keeps filesize w1)=rs.filter (keeps filesize w) ∧
      (rs.filter fun x => !keeps filesize w1 x)=rs.filter fun x => !keeps filesize w x := by
  have hkeeps : ∀ x∈rs,keeps filesize w1 x=keeps filesize w x := by
    intro x hx
    refine keeps_congr ?_
    rw [hrange,Function.update_of_ne]
    rintro rfl
    exact hr hx
  exact ⟨List.filter_congr hkeeps,List.filter_congr fun x hx => by rw [hkeeps x hx]⟩

theorem Beside.trans {w1 : RangeHeap} (h : Beside w w1) (h' : Beside w1 w') : Beside w w' :=
  ⟨h'.allocs.trans h.allocs,h'.held.trans h.held,h'.freed.trans h.freed⟩

section Turn

variable {filesize k : Nat} {prev : Option Nat} {ds rs : List Nat}

/-- What the loop makes of the nodes behind a kept one is what it makes of all of them. -/
theorem FixedUp.keep (hrrs : r∉rs) (hkeep : keeps filesize w r=true)
    (h : FixedUp filesize req (keepNode filesize req w prev r) w' (ds++[r]) rs ps) :
    FixedUp filesize req w w' ds (r::rs) ps := by
  have hrange := keepNode_range filesize req w prev r
  obtain ⟨hranges,-,hbeside⟩ := keepNode_rest filesize req w prev r
  obtain ⟨hkept,hdropped⟩ := keeps_behind hrrs hrange
  exact {
    kept := by
      rw [List.filter_cons_of_pos hkeep,← hkept,List.append_cons]
      exact h.kept
    pool := by
      rw [List.filter_cons_of_neg (by rw [hkeep]; decide),← hdropped]
      exact h.pool
    other := fun x hx hxr => by
      rw [List.mem_cons,not_or] at hxr
      rw [h.other x _ hxr.2,keepNode_next]
      rw [List.mem_append,List.mem_singleton,not_or]
      exact ⟨hx,hxr.1⟩
    range := range_cons hrrs hrange h.range
    ranges := fun j hj => (h.ranges j hj).trans (hranges j hj)
    beside := hbeside.trans h.beside }

/-- The same behind a dropped one, which goes to the pool first. -/
theorem FixedUp.drop (hrrs : r∉rs) (hkeep : keeps filesize w r=false)
    (hprev : ∀ x∉ds,some x≠prev)
    (h : FixedUp filesize req (dropNode filesize w prev r) w' ds rs (r::ps)) :
    FixedUp filesize req w w' ds (r::rs) ps := by
  have hrange := dropNode_range filesize w prev r
  obtain ⟨hranges,-,hbeside⟩ := dropNode_rest filesize w prev r
  obtain ⟨hkept,hdropped⟩ := keeps_behind hrrs hrange
  exact {
    kept := by
      rw [List.filter_cons_of_neg (by rw [hkeep]; decide),← hkept]
      exact h.kept
    pool := by
      rw [List.filter_cons_of_pos (by rw [hkeep]; rfl),← hdropped,List.reverse_cons,
        List.append_assoc]
      exact h.pool
    other := fun x hx hxr => by
      rw [List.mem_cons,not_or] at hxr
      rw [h.other x hx hxr.2,dropNode_other hxr.1 (hprev x hx)]
    range := range_cons hrrs hrange h.range
    ranges := fun j hj => by rw [h.ranges j hj,hranges]
    beside := hbeside.trans h.beside }

/-- The kept nodes, with the first one as the head, lead on behind one more. -/
theorem keepNode_leads (hprev : ds.getLast?=prev)
    (hds : Leads w.next (w.ranges req) ds (if ds=[] then none else some r)) :
    Leads (keepNode filesize req w prev r).next ((keepNode filesize req w prev r).ranges req)
      (ds++[r]) (if ds++[r]=[] then none else w.next r) := by
  rw [keepNode_next,if_neg (List.append_ne_nil_of_right_ne_nil _ (List.cons_ne_nil _ _))]
  by_cases hnil : ds=[]
  · subst hnil
    obtain rfl : none=prev := hprev
    exact ⟨Function.update_self ..,rfl⟩
  · have hsome : prev≠none := fun heq => hnil (List.getLast?_eq_none_iff.mp (hprev.trans heq))
    rw [if_neg hnil] at hds
    refine leads_append.mpr ⟨some r,?_,rfl,rfl⟩
    rw [keepNode,if_neg hsome]
    exact hds

/-- They lead to what is behind a dropped one. -/
theorem dropNode_leads (hprev : ds.getLast?=prev) (hnodup : ds.Nodup) (hrds : r∉ds)
    (hds : Leads w.next (w.ranges req) ds (if ds=[] then none else some r)) :
    Leads (dropNode filesize w prev r).next ((dropNode filesize w prev r).ranges req) ds
      (if ds=[] then none else w.next r) := by
  rw [dropNode_next,(dropNode_rest filesize w prev r).1]
  rcases List.eq_nil_or_concat' ds with rfl|⟨front,d,rfl⟩
  · exact hds
  · have hne : front++[d]≠[] := List.append_ne_nil_of_right_ne_nil _ (List.cons_ne_nil _ _)
    rw [List.getLast?_concat] at hprev
    subst hprev
    rw [if_neg hne] at hds ⊢
    refine (hds.redirect (fun hd => ?_) _).update hrds _
    exact (List.nodup_append.mp hnodup).2.2 d hd d (List.mem_singleton_self d) rfl

/-- The loop, between the nodes it kept, of which `prev` is the last, and those before it. -/
theorem fixupLoop_leads (hprev : ds.getLast?=prev)
    (hds : Leads w.next (w.ranges req) ds (if ds=[] then none else p))
    (hrs : Leads w.next p rs none) (hps : Leads w.next w.rangePool ps none)
    (hnodup : (ds++(rs++ps)).Nodup) (hk : rs.length≤k) :
    ∃ w',fixupLoop filesize req k w prev p=some w' ∧ FixedUp filesize req w w' ds rs ps := by
  induction rs generalizing ds ps prev p k w with
  | nil =>
    obtain rfl : p=none := hrs
    refine ⟨w,by cases k <;> rfl,?_,hps,fun _ _ _ => rfl,fun _ => rfl,fun _ _ => rfl,.refl w⟩
    rw [ite_self] at hds
    rw [List.filter_nil,List.append_nil]
    exact hds
  | cons r rs ih =>
    obtain ⟨rfl,hrs⟩ := hrs
    cases k with
    | zero => exact absurd hk (Nat.not_succ_le_zero _)
    | succ k =>
      have hk' : rs.length≤k := Nat.le_of_succ_le_succ hk
      rw [List.cons_append] at hnodup
      have hmiddle := List.nodup_middle.mp hnodup
      obtain ⟨hrds,hrrs,hrps⟩ : r∉ds ∧ r∉rs ∧ r∉ps := by
        rw [List.nodup_cons,List.mem_append,List.mem_append,not_or,not_or] at hmiddle
        exact hmiddle.1
      cases hkeep : keeps filesize w r with
      | true =>
        have hnext := keepNode_next filesize req w prev r
        have hps' : Leads (keepNode filesize req w prev r).next
            (keepNode filesize req w prev r).rangePool ps none := by
          rw [hnext,(keepNode_rest filesize req w prev r).2.1]
          exact hps
        obtain ⟨w',hloop,hfixed⟩ := ih (List.getLast?_concat ..) (keepNode_leads hprev hds)
          (hnext ▸ hrs) hps' (by rw [List.append_assoc]; exact hnodup) hk'
        exact ⟨w',(fixupLoop_keep hkeep).trans hloop,hfixed.keep hrrs hkeep⟩
      | false =>
        have hlast : ∀ x∉ds,some x≠prev := fun x hx heq =>
          hx (List.mem_of_getLast? (hprev.trans heq.symm))
        have hapart : ∀ x∈rs++ps,x∉ds := fun x hx hmem =>
          (List.nodup_append.mp (List.nodup_cons.mp hmiddle).2).2.2 x hmem x hx rfl
        have hother : ∀ x∈rs++ps,(dropNode filesize w prev r).next x=w.next x := by
          intro x hx
          refine dropNode_other ?_ (hlast x (hapart x hx))
          rintro rfl
          exact (List.mem_append.mp hx).elim hrrs hrps
        have hrs' : Leads (dropNode filesize w prev r).next (w.next r) rs none :=
          hrs.congr fun x hx => hother x (List.mem_append_left _ hx)
        have hps' : Leads (dropNode filesize w prev r).next
            (dropNode filesize w prev r).rangePool (r::ps) none := by
          rw [(dropNode_rest filesize w prev r).2.1]
          refine ⟨rfl,?_⟩
          rw [show (dropNode filesize w prev r).next r=w.rangePool by
            rw [dropNode_next,Function.update_self]]
          exact hps.congr fun x hx => hother x (List.mem_append_right _ hx)
        have hnodup' : (ds++(rs++r::ps)).Nodup := by
          rw [← List.append_assoc]
          refine List.nodup_middle.mpr ?_
          rw [List.append_assoc]
          exact hmiddle
        obtain ⟨w',hloop,hfixed⟩ := ih hprev
          (dropNode_leads hprev (List.nodup_append.mp hnodup).1 hrds hds) hrs' hps' hnodup' hk'
        exact ⟨w',(fixupLoop_drop hkeep).trans hloop,hfixed.drop hrrs hkeep hlast⟩

end Turn

end RangeHeap

end Crotalus
