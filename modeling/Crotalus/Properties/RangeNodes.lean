import Crotalus.Spec.RangePool

namespace Crotalus

open Singly

/-! The nodes of the ranges over runs of the server. -/

namespace RangeHeap

variable {w w' : RangeHeap} {owner : Nat → Owner} {p : Option Nat} {r req : Nat}
  {xs ps : List Nat}

/-- The pool `ps` and the lists `ls` are finite, have no cycles and no node in common, and each
node that was allocated and not freed is in one of them or with the caller it was taken for. -/
structure NodesApart (w : RangeHeap) (ps : List Nat) (ls : Nat → List Nat) : Prop where
  pool : Leads w.next w.rangePool ps none
  lists : ∀ req,Leads w.next (w.ranges req) (ls req) none
  nodup : ps.Nodup ∧ ∀ req,(ls req).Nodup
  poolApart : ∀ req,∀ x∈ls req,x∉ps
  listsApart : ∀ i j,i≠j → ∀ x∈ls i,x∉ls j
  held : w.held.Nodup ∧ ∀ x∈w.held,x∉ps ∧ ∀ req,x∉ls req
  everywhere : ∀ x,x < w.allocs ∧ x∉w.freed ↔ x∈w.held ∨ x∈ps ∨ ∃ req,x∈ls req

/-- `ranges_fixup` leaves the range of a node in the list. -/
def stays (filesize : Nat) (w : RangeHeap) (x : Nat) : Bool :=
  filesize≠0 && (rangeFixup filesize (w.range x)).isSome

/-- `ranges_fixup` moves the nodes it drops to the pool, and keeps the others in their order,
with the ranges that a list of ranges is left with. -/
structure FixupSplits (w : RangeHeap) (ps : List Nat) (ls : Nat → List Nat)
    (req filesize : Nat) (w' : RangeHeap) : Prop where
  kept : Leads w'.next (w'.ranges req) ((ls req).filter (stays filesize w)) none
  dropped : Leads w'.next w'.rangePool
    (((ls req).filter fun x => !stays filesize w x).reverse++ps) none
  others : ∀ j,j≠req → Leads w'.next (w'.ranges j) (ls j) none
  values : ((ls req).filter (stays filesize w)).map w'.range=
    rangesLeft filesize ((ls req).map w.range)

end RangeHeap

/-- What callers do: they give what they hold, and complete a response that has a range. -/
def RangeOp.Allowed (w : RangeHeap) : RangeOp → Prop
  | .push r => r∈w.held
  | .give r req => r∈w.held ∧ w.ranges req=none
  | .complete req => w.ranges req≠none
  | _ => True

namespace RangeHeap

variable {w w' : RangeHeap} {owner : Nat → Owner} {p : Option Nat} {r req : Nat}
  {xs ps : List Nat}

/-! The steps. -/

theorem owned_reset (h : Owned w owner) (req : Nat) :
    ∃ w' owner',w.rangesReset req=some w' ∧ Owned w' owner' ∧ w'.ranges req=none := by
  obtain ⟨xs,hxs⟩ := h.lists req
  obtain ⟨ps,hps⟩ := h.pool
  have hapart : ∀ x∈xs,x∉ps := fun x hx => hxs.other hps (fun heq => (by cases heq)) hx
  obtain ⟨w1,hloop,hpool,hnext,-,hranges,hbeside⟩ :=
    pushLoop_leads hxs.leads hps.leads hapart hxs.length
  have hempty : (w1.setRanges req none).ranges req=none := Function.update_self ..
  have howned := h.relink (w1.setRanges req none) [] xs.reverse hxs hps hempty hpool
    (fun x => by rw [List.mem_reverse,or_iff_right List.not_mem_nil])
    (fun x hx => absurd hx List.not_mem_nil) (fun x hx _ => hnext x hx)
    (fun j hj => (Function.update_of_ne hj ..).trans (congrFun hranges j))
    ⟨hbeside.allocs,hbeside.held,hbeside.freed⟩
  exact ⟨_,_,by rw [rangesReset,hloop]; rfl,howned,hempty⟩

theorem Part.nil_iff {o : Owner} (h : Part w owner o p xs) : p=none ↔ xs=[] := by
  cases xs with
  | nil => exact ⟨fun _ => rfl,fun _ => h.leads⟩
  | cons x xs =>
    refine ⟨fun hp => ?_,fun hx => (by cases hx)⟩
    cases hp.symm.trans h.leads.1

/-- A node of a caller given to a request without ranges. -/
theorem owned_give (h : Owned w owner) (hr : r∈w.held) (hreq : w.ranges req=none) :
    Owned ((w.setRanges req (some r)).setHeld (w.held.erase r))
      (Function.update owner r (.request req)) := by
  obtain ⟨xs,hxs⟩ := h.lists req
  obtain rfl := hxs.nil_iff.mp hreq
  exact h.give ((w.setRanges req (some r)).setHeld (w.held.erase r)) hr hxs
    ⟨Function.update_self ..,h.links r hr⟩ (fun _ _ => rfl)
    (fun j hj => Function.update_of_ne hj ..) rfl rfl rfl rfl

variable (w') in
/-- A node taken from the pool and put behind the nodes of a request, `w'` being the heap with
the link. -/
theorem owned_popGive (h : Owned w owner)
    (hxs : Part (w.rangePoolPop.setHeld (w.held++[w.popNode]))
      (Function.update owner w.popNode .caller) (.request req) (w.rangePoolPop.ranges req) xs)
    (hleads : Leads w'.next (w'.ranges req) (xs++[w.popNode]) none)
    (hother : ∀ x,x∉xs → w'.next x=w.rangePoolPop.next x)
    (hranges : ∀ j,j≠req → w'.ranges j=w.rangePoolPop.ranges j)
    (hpool : w'.rangePool=w.rangePoolPop.rangePool) (hallocs : w'.allocs=w.rangePoolPop.allocs)
    (hheld : w'.held=w.rangePoolPop.held) (hfreed : w'.freed=w.rangePoolPop.freed) :
    ∃ owner',Owned w' owner' := by
  have hmem : w.popNode∈w.held++[w.popNode] :=
    List.mem_append_right _ (List.mem_singleton_self _)
  have herase : (w.held++[w.popNode]).erase w.popNode=w.held := by
    rw [List.erase_append_right _ h.popNode_notHeld,List.erase_cons_head,List.append_nil]
  exact ⟨_,h.pop.give w' hmem hxs hleads hother hranges hpool hallocs
    (hheld.trans (rangePoolPop_held.trans herase.symm)) hfreed⟩

theorem popNode_next (w : RangeHeap) : w.rangePoolPop.next w.popNode=none := by
  rw [pop_next,Function.update_self]

theorem owned_abort (h : Owned w owner) (req : Nat) :
    ∃ w' owner',w.rangeAbort req=some w' ∧ Owned w' owner' := by
  obtain ⟨w1,owner1,hreset,howned,hnone⟩ := owned_reset h req
  obtain ⟨xs,hxs⟩ := howned.pop.lists req
  obtain rfl := hxs.nil_iff.mp ((congrFun rangePoolPop_ranges req).trans hnone)
  obtain ⟨owner',hgive⟩ := owned_popGive
    (w1.rangePoolPop.setRanges req (some w1.popNode)) howned hxs ⟨Function.update_self ..,popNode_next w1⟩ (fun _ _ => rfl)
    (fun j hj => Function.update_of_ne hj ..) rfl rfl rfl rfl
  exact ⟨_,owner',by rw [rangeAbort,hreset]; rfl,hgive.setRange w1.popNode ⟨0,minusOne⟩⟩

theorem lastLoop_leads {k : Nat} (h : Leads w.next p xs none) (hk : xs.length≤k) :
    lastLoop w k p=some xs.getLast? := by
  induction xs generalizing p k with
  | nil =>
    obtain rfl : p=none := h
    cases k <;> rfl
  | cons x xs ih =>
    obtain ⟨rfl,h⟩ := h
    cases k with
    | zero => exact absurd hk (Nat.not_succ_le_zero _)
    | succ k =>
      rw [lastLoop]
      cases xs with
      | nil =>
        have hnext : w.next x=none := h
        rw [if_pos hnext]
        rfl
      | cons y ys =>
        have hnext : w.next x≠none := by
          rw [h.1]
          exact Option.some_ne_none y
        rw [if_neg hnext,ih h (Nat.le_of_succ_le_succ hk),List.getLast?_cons_cons]

theorem owned_add (h : Owned w owner) (req start stop : Nat) :
    ∃ w' owner',w.rangeAdd req start stop=some w' ∧ Owned w' owner' := by
  obtain ⟨xs,hxs⟩ := h.pop.lists req
  have hnode := popNode_next w
  have hfresh : w.popNode∉xs :=
    h.pop.notIn (List.mem_append_right _ (List.mem_singleton_self _)) hxs fun heq => (by cases heq)
  have hlast : lastLoop w.rangePoolPop w.rangePoolPop.allocs (w.rangePoolPop.ranges req)=
      some xs.getLast? := lastLoop_leads hxs.leads hxs.length
  -- the node is linked behind the last one, or is the first
  have hlinked : ∃ owner',Owned (xs.getLast?.elim
      (w.rangePoolPop.setRanges req (some w.popNode))
      fun prev => w.rangePoolPop.setNext prev (some w.popNode)) owner' := by
    rcases List.eq_nil_or_concat' xs with rfl|⟨front,prev,rfl⟩
    · exact owned_popGive _ h hxs ⟨Function.update_self ..,hnode⟩ (fun _ _ => rfl)
        (fun j hj => Function.update_of_ne hj ..) rfl rfl rfl rfl
    · rw [List.getLast?_concat]
      have hprev : prev∉front := fun hmem =>
        (List.nodup_append.mp hxs.leads.nodup).2.2 prev hmem prev (List.mem_singleton_self _) rfl
      have hne : w.popNode≠prev := by
        rintro heq
        exact hfresh (heq ▸ List.mem_append_right _ (List.mem_singleton_self _))
      refine owned_popGive _ h hxs ?_ (fun x hx => ?_) (fun _ _ => rfl) rfl rfl rfl rfl
      · change Leads (w.rangePoolPop.setNext prev (some w.popNode)).next _ _ _
        rw [setNext_next]
        refine leads_append.mpr ⟨some w.popNode,hxs.leads.redirect hprev _,rfl,?_⟩
        rw [Function.update_of_ne hne]
        exact hnode
      · change (w.rangePoolPop.setNext prev (some w.popNode)).next x=_
        rw [setNext_next,Function.update_of_ne]
        rintro rfl
        exact hx (List.mem_append_right _ (List.mem_singleton_self _))
  obtain ⟨owner',howned⟩ := hlinked
  have hset := (howned.setRange w.popNode ⟨start,stop⟩).countRange req
  refine ⟨_,owner',by rw [rangeAdd,hlast]; rfl,?_⟩
  cases hprev : xs.getLast? with
  | none =>
    rw [hprev] at hset
    exact hset
  | some prev =>
    rw [hprev] at hset
    exact hset

theorem owned_complete (h : Owned w owner) (hreq : w.ranges req≠none) :
    ∃ w' owner',w.completeResponse req=some w' ∧ Owned w' owner' := by
  obtain ⟨xs,hxs⟩ := h.lists req
  obtain ⟨ps,hps⟩ := h.pool
  cases xs with
  | nil => exact absurd (hxs.nil_iff.mpr rfl) hreq
  | cons r xs =>
    obtain ⟨hhead,htail⟩ := hxs.leads
    have hnotin := (List.nodup_cons.mp hxs.leads.nodup).1
    have hrps : r∉ps := hxs.other hps (fun heq => (by cases heq)) List.mem_cons_self
    have hnext : ((w.setRanges req (w.next r)).rangePoolPush r).next=
        Function.update w.next r w.rangePool := push_next
    refine ⟨_,_,by rw [completeResponse,hhead]; rfl,
      h.relink ((w.setRanges req (w.next r)).rangePoolPush r) xs [r] hxs hps ?_ ?_
        (fun x => ?_) (fun x hx hxr => ?_) (fun x hx _ => ?_)
        (fun j hj => Function.update_of_ne hj ..) ⟨rfl,rfl,rfl⟩⟩
    · rw [hnext,show ((w.setRanges req (w.next r)).rangePoolPush r).ranges req=w.next r from
        Function.update_self ..]
      exact htail.update hnotin _
    · rw [hnext]
      exact hps.leads.push hrps
    · rw [List.mem_cons,List.mem_singleton,or_comm]
    · exact hnotin (List.mem_singleton.mp hxr ▸ hx)
    · rw [List.mem_cons,not_or] at hx
      rw [hnext,Function.update_of_ne hx.1]

theorem owned_empty {k : Nat} (h : Owned w owner) (hps : Part w owner .pool w.rangePool ps)
    (hk : ps.length≤k) : ∃ w' owner',emptyLoop k w=some w' ∧ Owned w' owner' := by
  induction k generalizing w owner ps with
  | zero =>
    have hnone := hps.nil_iff.mpr (List.eq_nil_of_length_eq_zero (Nat.le_zero.mp hk))
    exact ⟨w,owner,if_pos hnone,h⟩
  | succ k ih =>
    rw [emptyLoop]
    by_cases hnone : w.rangePool=none
    · exact ⟨w,owner,if_pos hnone,h⟩
    · rw [if_neg hnone]
      cases ps with
      | nil => exact absurd (hps.nil_iff.mpr rfl) hnone
      | cons r ps =>
        obtain ⟨hhead,htail⟩ := hps.leads
        have hnotin := (List.nodup_cons.mp hps.leads.nodup).1
        have hnode : w.popNode=r := by rw [popNode,hhead]; rfl
        obtain ⟨qs,hqs⟩ := h.popFree.pool
        have hrest : Leads w.rangePoolPop.next w.rangePoolPop.rangePool ps none := by
          rw [pop_next,hnode,rangePoolPop,hhead]
          exact htail.update hnotin none
        obtain rfl := hrest.unique hqs.leads
        exact ih h.popFree hqs (Nat.le_of_succ_le_succ hk)

/-! What `ranges_fixup` does. -/

/-- The ends and the test of the loop are those of the list of ranges. -/
theorem rangeFixup_eq (filesize : Nat) (a : Range) : rangeFixup filesize a=
    if (fixupRange filesize a).isInvalid then none else some (fixupRange filesize a) := by
  change (if (fixupRange filesize a).start ≥ 2^63 ∨
    (fixupRange filesize a).start > (fixupRange filesize a).stop then none
    else some (fixupRange filesize a))=_
  by_cases h : (fixupRange filesize a).start ≥ 2^63 ∨
      (fixupRange filesize a).start > (fixupRange filesize a).stop
  · have hinvalid : (fixupRange filesize a).isInvalid=true := decide_eq_true h
    rw [if_pos h,if_pos hinvalid]
  · have hvalid : ¬(fixupRange filesize a).isInvalid=true := mt of_decide_eq_true h
    rw [if_neg h,if_neg hvalid]

theorem stays_eq {filesize : Nat} (hsize : filesize≠0) : stays filesize w=keeps filesize w := by
  funext x
  rw [stays,keeps,rangeFixup_eq,decide_eq_true hsize,Bool.true_and]
  cases (fixupRange filesize (w.range x)).isInvalid <;> rfl

/-- The ranges of the nodes that stay, as a list of ranges is fixed up. -/
theorem values_left {filesize : Nat}
    (hrange : ∀ x∈xs,w'.range x=fixupRange filesize (w.range x)) :
    (xs.filter (keeps filesize w)).map w'.range=(xs.map w.range).filterMap (rangeFixup filesize) := by
  induction xs with
  | nil => rfl
  | cons x xs ih =>
    have hrest := ih fun y hy => hrange y (List.mem_cons_of_mem x hy)
    rw [List.map_cons]
    cases hinvalid : (fixupRange filesize (w.range x)).isInvalid with
    | true =>
      have hkeep : ¬keeps filesize w x=true := by rw [keeps,hinvalid]; decide
      rw [List.filter_cons_of_neg hkeep,List.filterMap_cons_none
        (by rw [rangeFixup_eq,if_pos hinvalid]),hrest]
    | false =>
      have hkeep : keeps filesize w x=true := by rw [keeps,hinvalid]; rfl
      rw [List.filter_cons_of_pos hkeep,List.map_cons,List.filterMap_cons_some
        (by rw [rangeFixup_eq,if_neg (by rw [hinvalid]; decide)]),hrest,
        hrange x List.mem_cons_self]

/-- What is left of the list `xs` of a request when the loops are through. -/
structure FixupRun (w : RangeHeap) (xs ps : List Nat) (req filesize : Nat) (w' : RangeHeap) :
    Prop where
  kept : Leads w'.next (w'.ranges req) (xs.filter (stays filesize w)) none
  dropped : Leads w'.next w'.rangePool ((xs.filter fun x => !stays filesize w x).reverse++ps) none
  next : ∀ x,x∉xs → w'.next x=w.next x
  ranges : ∀ j,j≠req → w'.ranges j=w.ranges j
  values : (xs.filter (stays filesize w)).map w'.range=rangesLeft filesize (xs.map w.range)
  beside : Beside w w'

/-- All nodes of a request go to the pool when the file is empty. -/
theorem fixup_emptyFile (hxs : Leads w.next p xs none) (hps : Leads w.next w.rangePool ps none)
    (hapart : ∀ x∈xs,x∉ps) (hk : xs.length≤w.allocs) (req : Nat) :
    ∃ w',pushLoop w.allocs (w.setRanges req none) p=some w' ∧ FixupRun w xs ps req 0 w' := by
  obtain ⟨w',hrun,hpool,hnext,-,hranges,hbeside⟩ :=
    pushLoop_leads (w := w.setRanges req none) hxs hps hapart hk
  have hkept : xs.filter (stays 0 w)=[] := List.filter_eq_nil_iff.mpr fun _ _ h => (by cases h)
  have hall : (xs.filter fun x => !stays 0 w x)=xs := List.filter_eq_self.mpr fun _ _ => rfl
  refine ⟨w',hrun,?_,?_,hnext,fun j hj => ?_,?_,hbeside.allocs,hbeside.held,hbeside.freed⟩
  · rw [hkept]
    exact (congrFun hranges req).trans (Function.update_self ..)
  · rw [hall]
    exact hpool
  · exact (congrFun hranges j).trans (Function.update_of_ne hj ..)
  · rw [hkept]
    rfl

theorem fixup_file {filesize : Nat} (hsize : filesize≠0) (hxs : Leads w.next p xs none)
    (hps : Leads w.next w.rangePool ps none) (hapart : ∀ x∈xs,x∉ps) (hk : xs.length≤w.allocs)
    (req : Nat) : ∃ w',fixupLoop filesize req w.allocs (w.setRanges req none) none p=some w' ∧
      FixupRun w xs ps req filesize w' := by
  have hempty : Leads (w.setRanges req none).next ((w.setRanges req none).ranges req) []
      (if ([] : List Nat)=[] then none else p) := Function.update_self ..
  have hnodup : (xs++ps).Nodup := by
    refine List.nodup_append.mpr ⟨hxs.nodup,hps.nodup,?_⟩
    rintro x hx y hy rfl
    exact hapart x hx hy
  have hloop : ∃ w',fixupLoop filesize req w.allocs (w.setRanges req none) none p=some w' ∧
      FixedUp filesize req (w.setRanges req none) w' [] xs ps :=
    fixupLoop_leads rfl hempty hxs hps hnodup hk
  obtain ⟨w',hrun,hfixed⟩ := hloop
  have hstays : stays filesize w=keeps filesize (w.setRanges req none) := stays_eq hsize
  refine ⟨w',hrun,?_,?_,fun x hx => hfixed.other x List.not_mem_nil hx,
    fun j hj => (hfixed.ranges j hj).trans (Function.update_of_ne hj ..),?_,
    hfixed.beside.allocs,hfixed.beside.held,hfixed.beside.freed⟩
  · rw [hstays]
    exact hfixed.kept
  · rw [hstays]
    exact hfixed.pool
  · rw [rangesLeft,if_neg hsize,stays_eq hsize]
    exact values_left fun x hx => (hfixed.range x).trans (if_pos hx)

/-- The function goes through, with the nodes it drops in the pool and the others in place. -/
theorem fixup_splits (h : Owned w owner) {ls : Nat → List Nat} (filesize req : Nat)
    (hps : Part w owner .pool w.rangePool ps)
    (hls : ∀ j,Part w owner (.request j) (w.ranges j) (ls j)) :
    ∃ w' ok owner',w.rangesFixup req filesize=some (w',ok) ∧
      FixupSplits w ps ls req filesize w' ∧ Owned w' owner' := by
  have hapart : ∀ x∈ls req,x∉ps := fun x hx =>
    (hls req).other hps (fun heq => (by cases heq)) hx
  have hloop : ∃ w',(if filesize=0 then pushLoop w.allocs (w.setRanges req none) (w.ranges req)
      else fixupLoop filesize req w.allocs (w.setRanges req none) none (w.ranges req))=some w' ∧
      FixupRun w (ls req) ps req filesize w' := by
    by_cases hsize : filesize=0
    · subst hsize
      exact fixup_emptyFile (hls req).leads hps.leads hapart (hls req).length req
    · rw [if_neg hsize]
      exact fixup_file hsize (hls req).leads hps.leads hapart (hls req).length req
  obtain ⟨w',hrun,hw'⟩ := hloop
  have howned := h.relink _ ((ls req).filter (stays filesize w))
    ((ls req).filter fun x => !stays filesize w x).reverse (hls req) hps hw'.kept hw'.dropped
    (fun x => ?_) (fun x hx => ?_) (fun x hx _ => hw'.next x hx) hw'.ranges hw'.beside
  · refine ⟨w',(w'.ranges req).isSome,_,?_,⟨hw'.kept,hw'.dropped,fun j hj => ?_,hw'.values⟩,howned⟩
    · exact congrArg (Option.map fun w => (w,(w.ranges req).isSome)) hrun
    · rw [hw'.ranges j hj]
      refine (hls j).leads.congr fun x hx => hw'.next x ?_
      exact (hls j).other (hls req) (fun heq => hj (Owner.request.inj heq)) hx
  · rw [List.mem_reverse,List.mem_filter,List.mem_filter]
    cases stays filesize w x <;> simp
  · rw [List.mem_filter] at hx
    rw [List.mem_reverse,List.mem_filter,hx.2]
    exact fun hboth => absurd hboth.2 Bool.false_ne_true

/-! A run. -/

/-- An operation that callers ask for goes through and keeps the nodes with their owners. -/
theorem owned_step (h : Owned w owner) (op : RangeOp) (hop : op.Allowed w) :
    ∃ w' owner',w.step op=some w' ∧ Owned w' owner' := by
  cases op with
  | pop => exact ⟨_,_,rfl,h.pop⟩
  | push r => exact ⟨_,_,if_pos hop,h.push hop⟩
  | give r req =>
    exact ⟨_,_,if_pos hop,(owned_give h hop.1 hop.2).setRange r ⟨0,minusOne⟩⟩
  | add req start stop => exact owned_add h req start stop
  | abort req => exact owned_abort h req
  | reset req =>
    obtain ⟨w',owner',hrun,howned,-⟩ := owned_reset h req
    exact ⟨w',owner',hrun,howned⟩
  | fixup req filesize =>
    obtain ⟨ps,hps⟩ := h.pool
    obtain ⟨ls,hls⟩ := Classical.axiomOfChoice h.lists
    obtain ⟨w',ok,owner',hrun,-,howned⟩ := fixup_splits h filesize req hps hls
    exact ⟨w',owner',by rw [step,hrun]; rfl,howned⟩
  | complete req => exact owned_complete h hop
  | empty =>
    obtain ⟨ps,hps⟩ := h.pool
    exact owned_empty h hps hps.length

/-- An operation that goes through is one that callers ask for. -/
theorem allowed_step {op : RangeOp} (h : w.step op=some w') : op.Allowed w := by
  cases op with
  | push r =>
    change (if r∈w.held then _ else none)=some w' at h
    by_contra hop
    have hnot : r∉w.held := hop
    rw [if_neg hnot] at h
    cases h
  | give r req =>
    change (if r∈w.held ∧ w.ranges req=none then _ else none)=some w' at h
    by_contra hop
    have hnot : ¬(r∈w.held ∧ w.ranges req=none) := hop
    rw [if_neg hnot] at h
    cases h
  | complete req =>
    intro hnone
    rw [step,completeResponse,hnone] at h
    cases h
  | pop => trivial
  | add req start stop => trivial
  | abort req => trivial
  | reset req => trivial
  | fixup req filesize => trivial
  | empty => trivial

theorem owned_run {ops : List RangeOp} (h : Owned w owner) (hrun : run ops w=some w') :
    ∃ owner',Owned w' owner' := by
  induction ops generalizing w owner with
  | nil => exact ⟨owner,Option.some.inj hrun ▸ h⟩
  | cons op ops ih =>
    rw [run,List.foldlM_cons,Option.bind_eq_bind,Option.bind_eq_some_iff] at hrun
    obtain ⟨w1,hstep,hrest⟩ := hrun
    obtain ⟨w2,owner2,hstep2,howned⟩ := owned_step h op (allowed_step hstep)
    obtain rfl := Option.some.inj (hstep.symm.trans hstep2)
    exact ih howned hrest

theorem Owned.apart (h : Owned w owner) {ls : Nat → List Nat}
    (hps : Part w owner .pool w.rangePool ps)
    (hls : ∀ j,Part w owner (.request j) (w.ranges j) (ls j)) : NodesApart w ps ls where
  pool := hps.leads
  lists j := (hls j).leads
  nodup := ⟨hps.leads.nodup,fun j => (hls j).leads.nodup⟩
  poolApart j x hx := (hls j).other hps (fun heq => (by cases heq)) hx
  listsApart i j hij x hx := (hls i).other (hls j) (fun heq => hij (Owner.request.inj heq)) hx
  held := ⟨h.nodup,fun x hx => ⟨h.notIn hx hps fun heq => (by cases heq),
    fun j => h.notIn hx (hls j) fun heq => (by cases heq)⟩⟩
  everywhere x := by
    rw [h.freed,h.held,hps.mem]
    simp only [(hls _).mem]
    cases howner : owner x <;> simp

end RangeHeap

/-- Over every run, the nodes are where their owners keep them, no call of an owner fails, and
`ranges_fixup` moves to the pool what it drops. -/
theorem rangeNodes_owned (ops : List RangeOp) (w : RangeHeap) (h : RangeHeap.run ops {}=some w) :
    ∃ ps ls,RangeHeap.NodesApart w ps ls ∧
      (∀ op : RangeOp,op.Allowed w → ∃ w',w.step op=some w') ∧
      ∀ req filesize,∃ w' ok,w.rangesFixup req filesize=some (w',ok) ∧
        RangeHeap.FixupSplits w ps ls req filesize w' := by
  obtain ⟨owner,howned⟩ := RangeHeap.owned_run RangeHeap.owned_start h
  obtain ⟨ps,hps⟩ := howned.pool
  obtain ⟨ls,hls⟩ := Classical.axiomOfChoice howned.lists
  refine ⟨ps,ls,howned.apart hps hls,fun op hop => ?_,fun req filesize => ?_⟩
  · obtain ⟨w',-,hstep,-⟩ := RangeHeap.owned_step howned op hop
    exact ⟨w',hstep⟩
  · obtain ⟨w',ok,-,hrun,hsplits,-⟩ := RangeHeap.fixup_splits howned filesize req hps hls
    exact ⟨w',ok,hrun,hsplits⟩

theorem rangeNodes_owned_two : ∃ w,RangeHeap.run
      [.add 0 0 10,.add 0 7 3,.add 1 0 minusOne,.fixup 0 100,.complete 0,.pop,.empty] {}=some w ∧
    ∃ ps ls,RangeHeap.NodesApart w ps ls ∧
      (∀ op : RangeOp,op.Allowed w → ∃ w',w.step op=some w') ∧
      ∀ req filesize,∃ w' ok,w.rangesFixup req filesize=some (w',ok) ∧
        RangeHeap.FixupSplits w ps ls req filesize w' := by
  have hrun : (RangeHeap.run [.add 0 0 10,.add 0 7 3,.add 1 0 minusOne,.fixup 0 100,.complete 0,
      .pop,.empty] {}).isSome=true := by decide +kernel
  obtain ⟨w,hw⟩ := Option.isSome_iff_exists.mp hrun
  exact ⟨w,hw,rangeNodes_owned _ w hw⟩

end Crotalus
