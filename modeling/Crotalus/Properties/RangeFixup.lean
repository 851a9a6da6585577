import Crotalus.Spec.Output
import Crotalus.Spec.Range

namespace Crotalus

open Stateful

section FilterMap

variable {α β : Type} {f g : α → Option β} {as : List α}

theorem filterMap_length_le (h : ∀ a∈as, (f a).isSome → (g a).isSome) :
    (as.filterMap f).length≤(as.filterMap g).length := by
  induction as with
  | nil => exact Nat.le_refl _
  | cons a as ih =>
    have htail := ih fun b hb => h b (List.mem_cons_of_mem _ hb)
    have hhead := h a List.mem_cons_self
    cases hf : f a <;> cases hg : g a <;> simp_all
    omega

/-- Two selections of one list, the second keeping at least what the first keeps, agree as
lists only if they agree on each element. -/
theorem filterMap_eq_pointwise (h : ∀ a∈as, (f a).isSome → (g a).isSome)
    (heq : as.filterMap f=as.filterMap g) : ∀ a∈as, f a=g a := by
  induction as with
  | nil => exact fun a ha => absurd ha List.not_mem_nil
  | cons a as ih =>
    have htail : ∀ b∈as, (f b).isSome → (g b).isSome :=
      fun b hb => h b (List.mem_cons_of_mem _ hb)
    have hhead := h a List.mem_cons_self
    have hle := filterMap_length_le htail
    rw [List.filterMap_cons,List.filterMap_cons] at heq
    have hboth : f a=g a ∧ as.filterMap f=as.filterMap g := by
      cases hf : f a with
      | none =>
        cases hg : g a with
        | none => exact ⟨rfl,by simpa [hf,hg] using heq⟩
        | some b =>
          have hlen := congrArg List.length heq
          simp only [hf,hg,List.length_cons] at hlen
          omega
      | some b =>
        cases hg : g a with
        | none => simp [hf,hg] at hhead
        | some b' =>
          simp only [hf,hg,List.cons.injEq] at heq
          exact ⟨by rw [heq.1],heq.2⟩
    intro b hb
    rcases List.mem_cons.mp hb with rfl|hb
    · exact hboth.1
    · exact ih htail hboth.2 b hb

end FilterMap

section Fixup

variable {size : Nat} (hpos : 0 < size) (hsize : size<2^63)

include hpos hsize

/-- The upper end the loop gives a range that has a first position. -/
def lastByte (size stop : Nat) : Nat :=
  if stop=2^32-1 ∨ stop≥size then size-1 else stop

theorem lastByte_lt {b : Nat} : lastByte size b < size := by
  unfold lastByte
  split <;> omega

theorem rangeFixup_first {a stop : Nat} (ha : a≠minusOne) :
    rangeFixup size (Range.mk a stop)=if lastByte size stop<a then none
      else some (Range.mk a (lastByte size stop)) := by
  have hlt := lastByte_lt hpos hsize (b := stop)
  simp only [rangeFixup,if_neg ha]
  change (if a≥2^63 ∨ a>lastByte size stop then none
    else some (Range.mk a (lastByte size stop)))=_
  by_cases h : lastByte size stop<a
  · rw [if_pos h,if_pos (Or.inr h)]
  · rw [if_neg h,if_neg (by omega)]

theorem rangeFixup_suffix {stop : Nat} :
    rangeFixup size (Range.mk minusOne stop)=
      if lastByte size stop=0 then none
      else some (Range.mk (size-lastByte size stop) (size-1)) := by
  have hlt := lastByte_lt hpos hsize (b := stop)
  have hstart : u64 (size+2^64-lastByte size stop)=size-lastByte size stop := by
    unfold u64
    omega
  simp only [rangeFixup,if_true]
  change (if u64 (size+2^64-lastByte size stop)≥2^63 ∨
    u64 (size+2^64-lastByte size stop)>size-1 then none
    else some (Range.mk (u64 (size+2^64-lastByte size stop)) (size-1)))=_
  rw [hstart]
  by_cases h : lastByte size stop=0
  · rw [if_pos h,if_pos (by omega)]
  · rw [if_neg h,if_neg (by omega)]

theorem minusOne_ge : ¬minusOne < size := by
  unfold minusOne
  omega

/-- One range: resolved as the protocol says exactly when it is clear. -/
theorem rangeFixup_eq_resolve {s : RangeSpec} :
    rangeFixup size s.toRange=s.resolve size ↔ s.Clear size := by
  have hmark := minusOne_ge hpos hsize
  cases s with
  | firstLast a b =>
    have hlast : lastByte size b=if b=2^32-1 ∨ b≥size then size-1 else b := rfl
    by_cases ha : a=minusOne
    · -- taken for a suffix, and not satisfiable by the protocol
      subst ha
      simp only [RangeSpec.toRange,rangeFixup_suffix hpos hsize,RangeSpec.resolve,
        RangeSpec.Clear,hmark,and_false,if_false,not_false_eq_true,true_and]
      constructor
      · intro heq hbad
        have hzero : lastByte size b=0 := by
          by_contra hne
          rw [if_neg hne] at heq
          cases heq
        rw [hlast] at hzero
        split at hzero <;> omega
      · intro hclear
        have hzero : lastByte size b=0 := by
          rw [hlast]
          split <;> omega
        rw [if_pos hzero]
    · simp only [RangeSpec.toRange,rangeFixup_first hpos hsize ha,RangeSpec.resolve,
        RangeSpec.Clear,ha,false_and,not_false_eq_true,and_true]
      constructor
      · rintro heq ⟨rfl,hbig,hfits⟩
        rw [hlast,if_pos (Or.inl rfl),if_neg (by omega)] at heq
        split at heq
        · have hstop := congrArg Range.stop (Option.some.inj heq)
          change size-1=min (2^32-1) (size-1) at hstop
          omega
        · cases heq
      · intro hclear
        by_cases hfits : a < size
        · have hmin : lastByte size b=min b (size-1) := by
            rw [hlast]
            split <;> omega
          rw [hmin]
          by_cases hle : a≤b
          · rw [if_neg (by omega),if_pos ⟨hle,hfits⟩]
          · rw [if_pos (by omega),if_neg fun h => hle h.1]
        · have hlt := lastByte_lt hpos hsize (b := b)
          rw [if_pos (by omega),if_neg fun h => hfits h.2]
  | first a =>
    have hlast : lastByte size minusOne=size-1 := by
      rw [lastByte,if_pos (Or.inr (Nat.le_of_not_lt hmark))]
    by_cases ha : a=minusOne
    · subst ha
      simp only [RangeSpec.toRange,rangeFixup_suffix hpos hsize,RangeSpec.resolve,
        RangeSpec.Clear,hlast,hmark,if_false,true_and]
      by_cases hone : size-1=0
      · rw [if_pos hone]
        exact ⟨fun _ => by omega,fun _ => rfl⟩
      · rw [if_neg hone]
        refine ⟨fun heq => ?_,fun hclear => absurd (by omega) hclear⟩
        cases heq
    · simp only [RangeSpec.toRange,rangeFixup_first hpos hsize ha,RangeSpec.resolve,
        RangeSpec.Clear,hlast,ha,false_and,not_false_eq_true,iff_true]
      by_cases hfits : a < size
      · rw [if_neg (by omega),if_pos hfits]
      · rw [if_pos (by omega),if_neg hfits]
  | suffix n =>
    have hlast : lastByte size n=if n=2^32-1 ∨ n≥size then size-1 else n := rfl
    simp only [RangeSpec.toRange,rangeFixup_suffix hpos hsize,RangeSpec.resolve,RangeSpec.Clear]
    by_cases hshort : n < size ∧ ¬(n=2^32-1 ∧ 2^32 < size)
    · have hn : lastByte size n=n := by
        rw [hlast]
        split <;> omega
      rw [hn,Nat.min_eq_left (by omega)]
      refine iff_of_true ?_ hshort
      by_cases hzero : n=0
      · rw [if_pos hzero,if_neg (by omega)]
      · rw [if_neg hzero,if_pos (by omega)]
    · have hn : lastByte size n=size-1 := by
        rw [hlast]
        split <;> omega
      rw [hn]
      refine iff_of_false (fun heq => ?_) hshort
      have hsome : 0<n := by omega
      rw [if_pos hsome] at heq
      split at heq
      · cases heq
      · have hstart := congrArg Range.start (Option.some.inj heq)
        change size-(size-1)=size-min n size at hstart
        omega

/-- In a file of one byte the loop keeps no more than the protocol does, in a longer one no
less. -/
theorem rangeFixup_keeps_one {s : RangeSpec} (hone : size=1)
    (h : (rangeFixup size s.toRange).isSome) : (s.resolve size).isSome := by
  have hlt := fun stop => lastByte_lt hpos hsize (b := stop)
  have hmark : ∀ {stop}, ¬(rangeFixup size (Range.mk minusOne stop)).isSome := by
    intro stop hsome
    rw [rangeFixup_suffix hpos hsize,if_pos (by have := hlt stop; omega)] at hsome
    cases hsome
  cases s with
  | firstLast a b =>
    by_cases ha : a=minusOne
    · subst ha
      exact absurd h hmark
    · have hlast := hlt b
      simp only [RangeSpec.toRange,rangeFixup_first hpos hsize ha] at h
      split at h
      · cases h
      · rw [RangeSpec.resolve,if_pos (by omega)]
        rfl
  | first a =>
    by_cases ha : a=minusOne
    · subst ha
      exact absurd h hmark
    · have hlast := hlt minusOne
      simp only [RangeSpec.toRange,rangeFixup_first hpos hsize ha] at h
      split at h
      · cases h
      · rw [RangeSpec.resolve,if_pos (by omega)]
        rfl
  | suffix n => exact absurd h hmark

theorem rangeFixup_keeps_more {s : RangeSpec} (hmore : 1 < size)
    (h : (s.resolve size).isSome) : (rangeFixup size s.toRange).isSome := by
  have hmark := minusOne_ge hpos hsize
  have hkeep : ∀ {a stop}, a≠minusOne → a≤lastByte size stop →
      (rangeFixup size (Range.mk a stop)).isSome := by
    intro a stop ha hle
    rw [rangeFixup_first hpos hsize ha,if_neg (by omega)]
    rfl
  cases s with
  | firstLast a b =>
    simp only [RangeSpec.resolve] at h
    split at h
    · have hle : a≤lastByte size b := by
        unfold lastByte
        split <;> omega
      exact hkeep (by omega) hle
    · cases h
  | first a =>
    simp only [RangeSpec.resolve] at h
    split at h
    · have hle : a≤lastByte size minusOne := by
        unfold lastByte
        split <;> omega
      exact hkeep (by omega) hle
    · cases h
  | suffix n =>
    simp only [RangeSpec.resolve] at h
    split at h
    · have hlast : lastByte size n≠0 := by
        unfold lastByte
        split <;> omega
      rw [RangeSpec.toRange,rangeFixup_suffix hpos hsize,if_neg hlast]
      rfl
    · cases h

theorem rangesLeft_eq_resolve {specs : List RangeSpec} :
    rangesLeft size (specs.map RangeSpec.toRange)=specs.filterMap (RangeSpec.resolve size) ↔
      ∀ s∈specs, s.Clear size := by
  have hleft : rangesLeft size (specs.map RangeSpec.toRange)=
      specs.filterMap fun s => rangeFixup size s.toRange := by
    rw [rangesLeft,if_neg (by omega),List.filterMap_map]
    rfl
  rw [hleft]
  constructor
  · intro heq s hs
    have hpoint : rangeFixup size s.toRange=s.resolve size := by
      by_cases hone : size=1
      · exact filterMap_eq_pointwise (fun s _ => rangeFixup_keeps_one hpos hsize hone) heq s hs
      · exact (filterMap_eq_pointwise
          (fun s _ => rangeFixup_keeps_more hpos hsize (by omega)) heq.symm s hs).symm
    exact (rangeFixup_eq_resolve hpos hsize).mp hpoint
  · intro hclear
    exact List.filterMap_congr fun s hs => (rangeFixup_eq_resolve hpos hsize).mpr (hclear s hs)

end Fixup

/-! `ranges_fixup` itself. -/

/-- The ranges it leaves are the satisfiable ones, resolved, and it returns 0 exactly when
there is none. -/
def Resolves (e : Config) (specs : List RangeSpec) (c : Conn) : Prop :=
  (exec (rangesFixup e) c).req.ranges=specs.filterMap (RangeSpec.resolve c.req.filesize) ∧
  (value (rangesFixup e) c=false ↔ specs.filterMap (RangeSpec.resolve c.req.filesize)=[])

theorem rangesFixup_ranges (e : Config) (c : Conn) :
    (exec (rangesFixup e) c).req.ranges=rangesLeft c.req.filesize c.req.ranges ∧
    (value (rangesFixup e) c=false ↔ rangesLeft c.req.filesize c.req.ranges=[]) := by
  have hset : (exec (modReq fun r => { r with ranges := rangesLeft r.filesize r.ranges }) c).req.ranges=
      rangesLeft c.req.filesize c.req.ranges := rfl
  unfold rangesFixup
  simp only [exec_bind,value_bind,value_getReq,exec_getReq]
  by_cases hleft : rangesLeft c.req.filesize c.req.ranges=[]
  · rw [if_pos (hset.trans hleft)]
    refine ⟨?_,fun _ => hleft,fun _ => rfl⟩
    exact (sendRInvalidRange_outputs e _).ranges
  · rw [if_neg (by rw [hset]; exact hleft)]
    exact ⟨rfl,fun h => Bool.noConfusion h,fun h => absurd h hleft⟩

/-- Range resolution, for any list of ranges as parsed and any size a file can have. -/
theorem rangesFixup_resolves (e : Config) (specs : List RangeSpec) (c : Conn)
    (hranges : c.req.ranges=specs.map RangeSpec.toRange)
    (hsize : 0 < c.req.filesize ∧ c.req.filesize<2^63) :
    Resolves e specs c ↔ ∀ s∈specs, s.Clear c.req.filesize := by
  obtain ⟨hleft,hval⟩ := rangesFixup_ranges e c
  rw [hranges] at hleft hval
  rw [← rangesLeft_eq_resolve hsize.1 hsize.2]
  unfold Resolves
  rw [hleft,hval]
  exact ⟨fun h => h.1,fun h => ⟨h,by rw [h]⟩⟩

/-- The last ten bytes of a file of five. -/
def longSuffix : Conn := { req := { filesize := 5, ranges := [⟨minusOne, 10⟩] } }

theorem rangesFixup_longSuffix : ¬Resolves {} [.suffix 10] longSuffix := by
  intro h
  exact absurd h.1 (by decide +kernel)

theorem rangesFixup_resolves_partly :
    Resolves {} [.firstLast 1 9, .suffix 2, .first 5]
      { req := { filesize := 5, ranges := [⟨1, 9⟩, ⟨minusOne, 2⟩, ⟨5, minusOne⟩] } } :=
  (rangesFixup_resolves {} [.firstLast 1 9, .suffix 2, .first 5]
    { req := { filesize := 5, ranges := [⟨1, 9⟩, ⟨minusOne, 2⟩, ⟨5, minusOne⟩] } }
    rfl ⟨by decide,by decide⟩).mpr (by decide)

end Crotalus
