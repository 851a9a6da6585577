import Mathlib.Data.Nat.Bitwise
import Crotalus.Framework.RefCount
import Crotalus.Framework.Run
import Crotalus.Server.MmapCache

namespace Crotalus

open RefCount

/-! The table and the requests that point into it. -/

/-- What a request on the ready or the block list points at. -/
def Holder.entry (r : Holder) : Option Slot := if r.live then r.mmapEntryVar else none

def Server.holders (s : Server) (i : Slot) : Nat := RefCount.holders Holder.entry s.requests i

def MmapCache.counts (c : MmapCache) (i : Slot) : Nat := (c.list i).useCount

/-- The table counts `hold`, and the mappings are those of the entries in use. -/
structure MmapCache.Counted (c : MmapCache) (hold : Slot → Nat) : Prop where
  useCount : ∀ i, c.counts i=hold i
  entriesUsed : c.entriesUsed=used c.counts
  bound : c.entriesUsed ≤ mmapListUseMax+1
  mapped : ∀ m, m∈c.maps ↔ ∃ i, 0 < c.counts i ∧ (c.list i).mapping=m
  distinct : ∀ i j, 0 < c.counts i → 0 < c.counts j → (c.list i).mmap=(c.list j).mmap → i=j

/-- The request's pointers agree with the table. -/
structure Holder.Fits (c : MmapCache) (r : Holder) : Prop where
  held : ∀ i, r.mmapEntryVar=some i → r.asked=some (c.list i).stat ∧ r.dataMem=some (c.list i).mmap
  bare : r.mmapEntryVar=none → r.dataMem=none
  header : r.header=true → r.mmapEntryVar=none

structure Server.Counted (s : Server) : Prop where
  cache : s.cache.Counted s.holders
  fits : ∀ r∈s.requests, r.live=true → r.Fits s.cache

/-- The event frees the only live request that holds the mapping. -/
def LastRelease (s : Server) (e : Event) (m : Mapping) : Prop :=
  ∃ i keep r j, e=.freeRequest i false keep ∧ s.requests[i]?=some r ∧ r.live=true ∧
    r.mmapEntryVar=some j ∧ (s.cache.list j).mapping=m ∧ s.holders j=1

section Probe

variable {list : Slot → MmapEntry} {s : Stat} {start i j : Slot} {n : Nat}

theorem mmapListNext_val : (mmapListNext i).val=(i.val+1)%mmapListSize :=
  Nat.and_two_pow_sub_one_eq_mod _ 8

/-- The loop ends when the table has been gone round once: `d` steps ahead is the start. -/
theorem probe_ends (list : Slot → MmapEntry) (s : Stat) (start : Slot) {d : Nat} (hd : 0<d) :
    ∀ i : Slot, (i.val+d)%mmapListSize=start.val → ∃ p, ∀ n≥d, probe list s start n i=some p := by
  induction d with
  | zero => omega
  | succ d ih =>
    intro i hi
    have hnext := mmapListNext_val (i := i)
    have hround : ∀ n≥d+1, ∃ k, n=k+1 ∧ d≤k := fun n hn => ⟨n-1,by omega,by omega⟩
    by_cases hfree : (list i).useCount=0
    · refine ⟨.empty i,fun n hn => ?_⟩
      obtain ⟨k,rfl,_⟩ := hround n hn
      rw [probe,if_pos hfree]
    by_cases hsame : (list i).stat=s
    · refine ⟨.found i,fun n hn => ?_⟩
      obtain ⟨k,rfl,_⟩ := hround n hn
      rw [probe,if_neg hfree,if_pos hsame]
    by_cases hlast : mmapListNext i=start
    · refine ⟨.full,fun n hn => ?_⟩
      obtain ⟨k,rfl,_⟩ := hround n hn
      rw [probe,if_neg hfree,if_neg hsame,if_pos hlast]
    · have hpos : 0<d := by
        rcases Nat.eq_zero_or_pos d with rfl|hpos
        · exact absurd (Fin.ext (hnext.trans hi)) hlast
        · exact hpos
      have hahead : ((mmapListNext i).val+d)%mmapListSize=start.val := by
        rw [hnext,Nat.mod_add_mod,← hi]
        congr 1
        omega
      obtain ⟨p,hp⟩ := ih hpos (mmapListNext i) hahead
      refine ⟨p,fun n hn => ?_⟩
      obtain ⟨k,rfl,hk⟩ := hround n hn
      rw [probe,if_neg hfree,if_neg hsame,if_neg hlast]
      exact hp k hk

theorem probe_terminates (list : Slot → MmapEntry) (s : Stat) (start : Slot) :
    ∃ p, ∀ n≥mmapListSize, probe list s start n start=some p := by
  refine probe_ends list s start (by decide) start ?_
  rw [Nat.add_mod_right]
  exact Nat.mod_eq_of_lt start.isLt

theorem probe_found (h : probe list s start n i=some (.found j)) :
    0<(list j).useCount ∧ (list j).stat=s := by
  induction n generalizing i with
  | zero => cases h
  | succ n ih =>
    rw [probe] at h
    split at h
    · cases h
    · split at h
      · obtain rfl : i=j := by simpa using h
        exact ⟨by omega,by assumption⟩
      · split at h
        · cases h
        · exact ih h

theorem probe_empty (h : probe list s start n i=some (.empty j)) : (list j).useCount=0 := by
  induction n generalizing i with
  | zero => cases h
  | succ n ih =>
    rw [probe] at h
    split at h
    · obtain rfl : i=j := by simpa using h
      assumption
    · split at h
      · cases h
      · split at h
        · cases h
        · exact ih h

end Probe

@[simp] theorem setCount_useCount (m : MmapEntry) (n : Nat) : (m.setCount n).useCount=n := rfl

section Table

variable {c : MmapCache} {i j : Slot} {m : MmapEntry}

@[simp] theorem setEntry_list_self : (c.setEntry i m).list i=m := by simp [MmapCache.setEntry]

theorem setEntry_list_other (h : j≠i) : (c.setEntry i m).list j=c.list j := by
  simp [MmapCache.setEntry,h]

@[simp] theorem setEntry_entriesUsed : (c.setEntry i m).entriesUsed=c.entriesUsed := rfl

@[simp] theorem setEntry_maps : (c.setEntry i m).maps=c.maps := rfl

theorem setEntry_counts_other (h : j≠i) : (c.setEntry i m).counts j=c.counts j := by
  simp [MmapCache.counts,setEntry_list_other h]

end Table

theorem munmap_fresh {c : MmapCache} {a : Nat} {s : Stat} (h : ∀ m∈c.maps, m.addr≠a) :
    munmap a { c with maps := ⟨a,s⟩::c.maps }=c := by
  have hfilter : (c.maps.filter fun m => m.addr≠a)=c.maps :=
    List.filter_eq_self.mpr fun m hm => decide_eq_true (h m hm)
  have hnew : ((⟨a,s⟩::c.maps : List Mapping).filter fun m => m.addr≠a)=c.maps := by
    rw [List.filter_cons_of_neg (by simp),hfilter]
  unfold munmap
  rw [hnew]

/-- The three ways `find_mmap` ends: without an entry, with an entry that is in use, with a
new mapping in an empty one. -/
theorem findMmap_cases (k : Kernel) (haveMadvise : Bool) (s : Stat) (res : MapRes)
    (c : MmapCache) :
    findMmap k haveMadvise s res c=some (none,c) ∨
    (∃ i, findMmap k haveMadvise s res c=
        some (some i,c.setEntry i ((c.list i).setCount (c.counts i+1))) ∧
      0 < c.counts i ∧ (c.list i).stat=s) ∨
    (∃ i m, findMmap k haveMadvise s res c=
        some (some i,({ c with maps := m.mapping::c.maps, entriesUsed := c.entriesUsed+1 } :
          MmapCache).setEntry i m) ∧
      c.counts i=0 ∧ c.entriesUsed ≤ mmapListUseMax ∧ m.useCount=1 ∧ m.stat=s ∧
      ∀ x∈c.maps, x.addr≠m.mmap) := by
  obtain ⟨p,hp⟩ := probe_terminates c.list s (mmapListHash s)
  have hprobe := hp mmapListSize (Nat.le_refl _)
  unfold findMmap
  rw [hprobe]
  cases p with
  | full => exact Or.inl rfl
  | found i =>
    obtain ⟨hpos,hstat⟩ := probe_found hprobe
    exact Or.inr (Or.inl ⟨i,rfl,hpos,hstat⟩)
  | empty i =>
    have hzero := probe_empty hprobe
    have hfresh := k.pick_fresh res.hint c.maps
    simp only [fillEntry]
    split
    · exact Or.inl rfl
    · split
      · exact Or.inl rfl
      · split
        · -- the new mapping goes again, and nothing else has its address
          left
          rw [munmap_fresh hfresh]
        · right; right
          exact ⟨i,⟨s.dev,s.ino,k.pick res.hint c.maps,1,s.size⟩,rfl,hzero,
            by omega,rfl,rfl,hfresh⟩

/-- Releasing an entry in use: the last holder unmaps it. -/
theorem releaseMmap_cases (c : MmapCache) (i : Slot) (hi : 0 < c.counts i) :
    (1 < c.counts i ∧
      releaseMmap i c=c.setEntry i ((c.list i).setCount (c.counts i-1))) ∨
    (c.counts i=1 ∧
      releaseMmap i c=({ munmap (c.list i).mmap c with entriesUsed := c.entriesUsed-1 } :
        MmapCache).setEntry i ((c.list i).setCount 0)) := by
  have hne : ¬(c.list i).useCount=0 := Nat.ne_of_gt hi
  unfold releaseMmap
  rw [if_neg hne]
  simp only [setEntry_list_self,setCount_useCount]
  by_cases hone : c.counts i=1
  · right
    have hzero : (c.list i).useCount-1=0 := by
      unfold MmapCache.counts at hone
      omega
    rw [if_pos hzero,hzero]
    exact ⟨hone,rfl⟩
  · left
    have hmore : ¬(c.list i).useCount-1=0 := by
      unfold MmapCache.counts at hone hi
      omega
    rw [if_neg hmore]
    exact ⟨by omega,rfl⟩

section Counting

variable {c : MmapCache} {hold hold' : Slot → Nat} {i : Slot}

/-- Another number of holders of an entry in use. -/
theorem MmapCache.Counted.recount {n : Nat} (h : c.Counted hold) (hi : 0 < c.counts i) (hn : 0<n)
    (hold_i : hold' i=n) (hold_j : ∀ j, j≠i → hold' j=hold j) :
    (c.setEntry i ((c.list i).setCount n)).Counted hold' := by
  set c' := c.setEntry i ((c.list i).setCount n)
  have hcount_i : c'.counts i=n := by simp [c',MmapCache.counts]
  have hcount_j : ∀ j, j≠i → c'.counts j=c.counts j := fun j hj => setEntry_counts_other hj
  have hpos : ∀ j, 0 < c'.counts j ↔ 0 < c.counts j := by
    intro j
    by_cases hj : j=i
    · subst hj
      omega
    · rw [hcount_j j hj]
  have hlist : ∀ j, (c'.list j).mapping=(c.list j).mapping := by
    intro j
    by_cases hj : j=i
    · subst hj
      simp only [c',setEntry_list_self]
      rfl
    · simp only [c',setEntry_list_other hj]
  have hused := used_congr hpos
  constructor
  · intro j
    by_cases hj : j=i
    · subst hj
      rw [hcount_i,hold_i]
    · rw [hcount_j j hj,hold_j j hj,h.useCount]
  · rw [hused]
    exact h.entriesUsed
  · exact h.bound
  · intro m
    change m∈c.maps ↔ _
    rw [h.mapped]
    simp only [hpos,hlist]
  · intro a b ha hb hab
    refine h.distinct a b ((hpos a).mp ha) ((hpos b).mp hb) ?_
    have hma := congrArg Mapping.addr (hlist a)
    have hmb := congrArg Mapping.addr (hlist b)
    exact hma.symm.trans (hab.trans hmb)

/-- The first holder of an empty entry, with a mapping of its own. -/
theorem MmapCache.Counted.fill {m : MmapEntry} (h : c.Counted hold) (hi : c.counts i=0)
    (hroom : c.entriesUsed ≤ mmapListUseMax) (hm : m.useCount=1)
    (hfresh : ∀ x∈c.maps, x.addr≠m.mmap)
    (hold_i : hold' i=hold i+1) (hold_j : ∀ j, j≠i → hold' j=hold j) :
    (({ c with maps := m.mapping::c.maps, entriesUsed := c.entriesUsed+1 } :
      MmapCache).setEntry i m).Counted hold' := by
  set c1 : MmapCache := { c with maps := m.mapping::c.maps, entriesUsed := c.entriesUsed+1 }
  have hcount_i : (c1.setEntry i m).counts i=1 := by simp [MmapCache.counts,hm]
  have hcount_j : ∀ j, j≠i → (c1.setEntry i m).counts j=c.counts j :=
    fun j hj => setEntry_counts_other hj
  have hlist_j : ∀ j, j≠i → (c1.setEntry i m).list j=c.list j :=
    fun j hj => setEntry_list_other hj
  have hapart : ∀ j, 0 < c.counts j → (c.list j).mmap≠m.mmap :=
    fun j hj => hfresh _ ((h.mapped _).mpr ⟨j,hj,rfl⟩)
  have hne : ∀ j, 0 < c.counts j → j≠i := by
    rintro j hj rfl
    omega
  have hused := used_start hi (by rw [hcount_i]; exact Nat.one_pos) hcount_j
  constructor
  · intro j
    by_cases hj : j=i
    · subst hj
      rw [hcount_i,hold_i,← h.useCount,hi]
    · rw [hcount_j j hj,hold_j j hj,h.useCount]
  · rw [setEntry_entriesUsed,hused]
    change c.entriesUsed+1=((used c.counts+1 : Nat) : Int)
    rw [h.entriesUsed]
    rfl
  · change c.entriesUsed+1 ≤ mmapListUseMax+1
    omega
  · intro x
    change x∈m.mapping::c.maps ↔ _
    rw [List.mem_cons,h.mapped]
    constructor
    · rintro (rfl|⟨j,hj,rfl⟩)
      · exact ⟨i,by rw [hcount_i]; exact Nat.one_pos,by rw [setEntry_list_self]⟩
      · exact ⟨j,by rw [hcount_j j (hne j hj)]; exact hj,by rw [hlist_j j (hne j hj)]⟩
    · rintro ⟨j,hj,rfl⟩
      by_cases hji : j=i
      · left
        rw [hji,setEntry_list_self]
      · right
        rw [hcount_j j hji] at hj
        exact ⟨j,hj,by rw [hlist_j j hji]⟩
  · intro a b ha hb hab
    by_cases hai : a=i
    · by_cases hbi : b=i
      · rw [hai,hbi]
      · rw [hcount_j b hbi] at hb
        rw [hai,setEntry_list_self,hlist_j b hbi] at hab
        exact absurd hab.symm (hapart b hb)
    · rw [hcount_j a hai] at ha
      by_cases hbi : b=i
      · rw [hbi,setEntry_list_self,hlist_j a hai] at hab
        exact absurd hab (hapart a ha)
      · rw [hcount_j b hbi] at hb
        rw [hlist_j a hai,hlist_j b hbi] at hab
        exact h.distinct a b ha hb hab

/-- The last holder takes the mapping with it. -/
theorem MmapCache.Counted.unmap (h : c.Counted hold) (hi : c.counts i=1)
    (hold_i : hold' i=0) (hold_j : ∀ j, j≠i → hold' j=hold j) :
    (({ munmap (c.list i).mmap c with entriesUsed := c.entriesUsed-1 } :
      MmapCache).setEntry i ((c.list i).setCount 0)).Counted hold' := by
  set c1 : MmapCache := { munmap (c.list i).mmap c with entriesUsed := c.entriesUsed-1 }
  set c' := c1.setEntry i ((c.list i).setCount 0)
  have hcount_i : c'.counts i=0 := by simp [c',MmapCache.counts]
  have hcount_j : ∀ j, j≠i → c'.counts j=c.counts j := fun j hj => setEntry_counts_other hj
  have hlist_j : ∀ j, j≠i → c'.list j=c.list j := fun j hj => setEntry_list_other hj
  have hpos : 0 < c.counts i := by omega
  have hused := used_stop hpos hcount_i hcount_j
  have hne : ∀ j, 0 < c'.counts j → j≠i := by
    rintro j hj rfl
    omega
  constructor
  · intro j
    by_cases hj : j=i
    · subst hj
      rw [hcount_i,hold_i]
    · rw [hcount_j j hj,hold_j j hj,h.useCount]
  · change c.entriesUsed-1=_
    rw [h.entriesUsed,hused]
    omega
  · change c.entriesUsed-1≤_
    have hbound := h.bound
    omega
  · intro m
    change m∈c.maps.filter (fun m => m.addr≠(c.list i).mmap) ↔ _
    rw [List.mem_filter,h.mapped,decide_eq_true_iff]
    constructor
    · rintro ⟨⟨j,hj,rfl⟩,haddr⟩
      have hji : j≠i := by
        rintro rfl
        exact haddr rfl
      exact ⟨j,by rw [hcount_j j hji]; exact hj,by rw [hlist_j j hji]⟩
    · rintro ⟨j,hj,rfl⟩
      have hji := hne j hj
      rw [hcount_j j hji] at hj
      rw [hlist_j j hji]
      exact ⟨⟨j,hj,rfl⟩,fun haddr => hji (h.distinct j i hj hpos haddr)⟩
  · intro a b ha hb hab
    have hai := hne a ha
    have hbi := hne b hb
    rw [hlist_j a hai,hlist_j b hbi] at hab
    rw [hcount_j a hai] at ha
    rw [hcount_j b hbi] at hb
    exact h.distinct a b ha hb hab

end Counting

/-! What one event does. -/

/-- Entries in use keep their file and their address. -/
def MmapCache.Extends (c c' : MmapCache) : Prop :=
  ∀ j, 0 < c.counts j → (c'.list j).mapping=(c.list j).mapping

theorem MmapCache.Extends.set {c c1 : MmapCache} {i : Slot} {m : MmapEntry}
    (hlist : c1.list=c.list) (h : 0 < c.counts i → m.mapping=(c.list i).mapping) :
    c.Extends (c1.setEntry i m) := by
  intro j hj
  by_cases hji : j=i
  · subst hji
    rw [setEntry_list_self]
    exact h hj
  · rw [setEntry_list_other hji,hlist]

theorem Holder.Fits.extend {c c' : MmapCache} {r : Holder} (h : r.Fits c)
    (hc : ∀ j, r.mmapEntryVar=some j → (c'.list j).mapping=(c.list j).mapping) : r.Fits c' := by
  refine ⟨fun i hi => ?_,h.bare,h.header⟩
  obtain ⟨hasked,hmem⟩ := h.held i hi
  have hstat := congrArg Mapping.stat (hc i hi)
  have haddr := congrArg Mapping.addr (hc i hi)
  change (c'.list i).stat=(c.list i).stat at hstat
  change (c'.list i).mmap=(c.list i).mmap at haddr
  rw [hstat,haddr]
  exact ⟨hasked,hmem⟩

theorem Holder.fits_new (c : MmapCache) : Holder.Fits c {} :=
  ⟨fun _ h => absurd h (by simp),fun _ => rfl,fun _ => rfl⟩

section Requests

variable {s : Server} {n : Nat} {r r' : Holder} {c' : MmapCache}

theorem Server.Counted.pos (h : s.Counted) (hr : r∈s.requests) (hlive : r.live=true) {i : Slot}
    (hi : r.mmapEntryVar=some i) : 0 < s.cache.counts i := by
  rw [h.cache.useCount]
  exact holders_pos hr (by rw [Holder.entry,if_pos hlive,hi])

/-- One request changes, and the table as it must. -/
theorem Server.Counted.replace (h : s.Counted)
    (hc : c'.Counted (Server.holders ⟨c',s.requests.set n r'⟩)) (hext : s.cache.Extends c')
    (hfit : r'.live=true → r'.Fits c') : Server.Counted ⟨c',s.requests.set n r'⟩ := by
  refine ⟨hc,fun x hx hlive => ?_⟩
  rcases List.mem_or_eq_of_mem_set hx with hmem|rfl
  · exact (h.fits x hmem hlive).extend fun j hj => hext j (h.pos hmem hlive hj)
  · exact hfit hlive

/-- One request changes without any pointer. -/
theorem Server.Counted.replaceSame (h : s.Counted) (hk : s.requests[n]?=some r)
    (hentry : r'.entry=r.entry) (hfit : r'.live=true → r'.Fits s.cache) :
    Server.Counted ⟨s.cache,s.requests.set n r'⟩ := by
  have hold : Server.holders ⟨s.cache,s.requests.set n r'⟩=s.holders :=
    funext fun i => holders_set_same hk hentry
  refine h.replace ?_ (fun _ _ => rfl) hfit
  rw [hold]
  exact h.cache

/-- What the pointer of one request adds and what it takes away. -/
theorem Server.holders_replace (c' : MmapCache) (r' : Holder) (hk : s.requests[n]?=some r)
    (i : Slot) :
    Server.holders ⟨c',s.requests.set n r'⟩ i+points Holder.entry r i=
      s.holders i+points Holder.entry r' i :=
  holders_set hk

theorem points_some {i j : Slot} (h : r.entry=some i) (hj : j≠i) : points Holder.entry r j=0 := by
  rw [points,h,if_neg fun he => hj (Option.some.inj he).symm]

theorem points_self {i : Slot} (h : r.entry=some i) : points Holder.entry r i=1 := by
  rw [points,if_pos h]

theorem points_none {i : Slot} (h : r.entry=none) : points Holder.entry r i=0 := by
  rw [points,h,if_neg (by simp)]

/-- A request that pointed nowhere now points at an entry. -/
theorem Server.holders_take (c' : MmapCache) (r' : Holder) {i : Slot}
    (hk : s.requests[n]?=some r) (hr : r.entry=none)
    (hr' : r'.entry=some i) :
    Server.holders ⟨c',s.requests.set n r'⟩ i=s.holders i+1 ∧
    ∀ j, j≠i → Server.holders ⟨c',s.requests.set n r'⟩ j=s.holders j := by
  refine ⟨?_,fun j hj => ?_⟩
  · have hset := Server.holders_replace c' r' hk i
    rw [points_none hr,points_self hr'] at hset
    exact hset
  · have hset := Server.holders_replace c' r' hk j
    rw [points_none hr,points_some hr' hj] at hset
    exact hset

/-- A request that pointed at an entry now points nowhere. -/
theorem Server.holders_drop (c' : MmapCache) {i : Slot} (hk : s.requests[n]?=some r) (hr : r.entry=some i)
    (hr' : r'.entry=none) :
    Server.holders ⟨c',s.requests.set n r'⟩ i+1=s.holders i ∧
    ∀ j, j≠i → Server.holders ⟨c',s.requests.set n r'⟩ j=s.holders j := by
  refine ⟨?_,fun j hj => ?_⟩
  · have hset := Server.holders_replace c' r' hk i
    rw [points_none hr',points_self hr] at hset
    exact hset
  · have hset := Server.holders_replace c' r' hk j
    rw [points_none hr',points_some hr hj] at hset
    exact hset

theorem Holder.fits_hold {c : MmapCache} {st : Stat} {i : Slot} (hheader : r.header=false)
    (hstat : (c.list i).stat=st) : (r.hold st i (c.list i).mmap).Fits c := by
  subst hstat
  refine ⟨fun j hj => ?_,fun hnone => absurd hnone (by simp [Holder.hold]),fun hh => ?_⟩
  · obtain rfl : i=j := Option.some.inj hj
    exact ⟨rfl,rfl⟩
  · exact absurd (hh.symm.trans hheader) (by decide)

/-- The part of `init_get` that maps the file ends, and keeps the count. -/
theorem Server.Counted.mapData (h : s.Counted) (k : Kernel) (haveMadvise : Bool) (st : Stat)
    (res : MapRes) (hk : s.requests[n]?=some r) (hlive : r.live=true) (hheader : r.header=true) :
    ∃ r' c', Crotalus.mapData k haveMadvise st res r s.cache=some (r',c') ∧
      Server.Counted ⟨c',s.requests.set n r'⟩ ∧ ∀ m∈s.cache.maps, m∈c'.maps := by
  have hfits := h.fits r (List.mem_of_getElem? hk) hlive
  have hvar := hfits.header hheader
  have hmem := hfits.bare hvar
  have hentry : r.entry=none := by rw [Holder.entry,if_pos hlive,hvar]
  have hholds : ∀ (r1 : Holder) i addr, r1.live=true → (r1.hold st i addr).entry=some i :=
    fun r1 i addr h1 => if_pos h1
  unfold Crotalus.mapData
  by_cases hbig : (r.serve st).filesize>maxFileMmap
  · rw [if_pos hbig]
    refine ⟨_,_,rfl,h.replaceSame hk rfl fun _ => ?_,fun _ hm => hm⟩
    exact ⟨hfits.held,hfits.bare,fun _ => hvar⟩
  rw [if_neg hbig]
  rcases findMmap_cases k haveMadvise st res s.cache with
    hnone|⟨i,hfound,hpos,hstat⟩|⟨i,e,hnew,hzero,hroom,hone,hstat,hfresh⟩
  · rw [hnone]
    refine ⟨_,_,rfl,h.replaceSame hk (by simp [Holder.entry,hvar]) fun _ => ?_,fun _ hm => hm⟩
    exact ⟨fun i hi => absurd hi (by simp),fun _ => hmem,fun _ => rfl⟩
  · rw [hfound]
    refine ⟨_,_,rfl,?_,fun _ hm => hm⟩
    obtain ⟨hsame,hother⟩ := Server.holders_take
      (s.cache.setEntry i ((s.cache.list i).setCount (s.cache.counts i+1)))
      ((r.serve st).hold st i
        ((s.cache.setEntry i ((s.cache.list i).setCount (s.cache.counts i+1))).list i).mmap)
      hk hentry (hholds _ i _ hlive)
    refine h.replace (h.cache.recount hpos (by omega) (by rw [hsame,h.cache.useCount]) hother)
      (MmapCache.Extends.set rfl fun _ => rfl) fun _ => ?_
    refine Holder.fits_hold rfl ?_
    rw [setEntry_list_self]
    exact hstat
  · rw [hnew]
    refine ⟨_,_,rfl,?_,fun _ hm => List.mem_cons_of_mem _ hm⟩
    set c1 : MmapCache :=
      { s.cache with maps := e.mapping::s.cache.maps, entriesUsed := s.cache.entriesUsed+1 }
    obtain ⟨hsame,hother⟩ := Server.holders_take (c1.setEntry i e)
      ((r.serve st).hold st i ((c1.setEntry i e).list i).mmap) hk hentry (hholds _ i _ hlive)
    refine h.replace (h.cache.fill hzero hroom hone hfresh hsame hother)
      (MmapCache.Extends.set rfl fun hpos => absurd hpos (by omega)) fun _ => ?_
    refine Holder.fits_hold rfl ?_
    rw [setEntry_list_self]
    exact hstat

/-- Freeing a live request keeps the count, and unmaps what it was the last to hold. -/
theorem Server.Counted.releaseData (h : s.Counted) (keep : Bool) (hk : s.requests[n]?=some r)
    (hlive : r.live=true) :
    Server.Counted ⟨Crotalus.releaseData r s.cache,s.requests.set n (freed r keep)⟩ ∧
    ∀ m∈s.cache.maps, (m∉(Crotalus.releaseData r s.cache).maps ↔
      ∃ j, r.mmapEntryVar=some j ∧ (s.cache.list j).mapping=m ∧ s.holders j=1) := by
  have hr := List.mem_of_getElem? hk
  have hfits := h.fits r hr hlive
  have hfreed : (freed r keep).entry=none := by
    cases keep <;> rfl
  have hnew : ∀ c : MmapCache, (freed r keep).live=true → (freed r keep).Fits c := by
    intro c hfl
    cases keep
    · exact absurd hfl Bool.false_ne_true
    · exact Holder.fits_new c
  cases hvar : r.mmapEntryVar with
  | none =>
    have hsame : Crotalus.releaseData r s.cache=s.cache := by
      simp only [Crotalus.releaseData,hvar,hfits.bare hvar]
    rw [hsame]
    have hentry : r.entry=none := by rw [Holder.entry,if_pos hlive,hvar]
    refine ⟨h.replaceSame hk (hfreed.trans hentry.symm) (hnew _),fun m hm => ?_⟩
    refine ⟨fun hnot => absurd hm hnot,?_⟩
    rintro ⟨j,hj,_⟩
    exact absurd hj (by simp)
  | some i =>
    have hentry : r.entry=some i := by rw [Holder.entry,if_pos hlive,hvar]
    have hpos := h.pos hr hlive hvar
    have hcount := h.cache.useCount i
    have hrel : Crotalus.releaseData r s.cache=releaseMmap i s.cache := by
      simp only [Crotalus.releaseData,hvar]
    rw [hrel]
    obtain ⟨hsame,hother⟩ := Server.holders_drop (releaseMmap i s.cache) hk hentry
      hfreed
    rcases releaseMmap_cases s.cache i hpos with ⟨hmore,heq⟩|⟨hone,heq⟩
    · rw [heq] at hsame hother ⊢
      refine ⟨h.replace (h.cache.recount hpos (by omega) (by omega) hother)
        (MmapCache.Extends.set rfl fun _ => rfl) (hnew _),fun m hm => ?_⟩
      refine ⟨fun hnot => absurd hm hnot,?_⟩
      rintro ⟨j,hj,_,hlast⟩
      obtain rfl : i=j := Option.some.inj hj
      omega
    · rw [heq] at hsame hother ⊢
      refine ⟨h.replace (h.cache.unmap hone (by omega) hother)
        (MmapCache.Extends.set rfl fun _ => rfl) (hnew _),fun m hm => ?_⟩
      change m∉s.cache.maps.filter (fun m => m.addr≠(s.cache.list i).mmap) ↔ _
      rw [List.mem_filter,decide_eq_true_iff]
      constructor
      · intro hnot
        have haddr : m.addr=(s.cache.list i).mmap := by
          by_contra hne
          exact hnot ⟨hm,hne⟩
        obtain ⟨j,hj,rfl⟩ := (h.cache.mapped m).mp hm
        obtain rfl : j=i := h.cache.distinct j i hj hpos haddr
        exact ⟨j,rfl,rfl,by omega⟩
      · rintro ⟨j,hj,rfl,_⟩ ⟨_,hne⟩
        obtain rfl : i=j := Option.some.inj hj
        exact hne rfl

/-- A request that comes, or whose header ends, leaves the table alone. -/
theorem Server.Counted.accept (h : s.Counted) (i : Nat) : (s.accept i).Counted := by
  unfold Server.accept
  split
  · split
    · exact h
    · refine h.replaceSame (by assumption) ?_ fun _ => Holder.fits_new _
      next r _ hdead =>
        have hdead' : r.entry=none := if_neg hdead
        exact hdead'.symm
  · have hold : Server.holders { s with requests := s.requests++[{}] }=s.holders := by
      funext j
      exact holders_append _
    refine ⟨?_,fun x hx hlive => ?_⟩
    · rw [hold]
      exact h.cache
    · rcases List.mem_append.mp hx with hx|hx
      · exact h.fits x hx hlive
      · rw [List.mem_singleton.mp hx]
        exact Holder.fits_new _

end Requests

/-- What one event does to the table: the count stays, and a mapping goes with its last
holder and at no other time. -/
theorem Server.Counted.step {s : Server} (h : s.Counted) (k : Kernel) (haveMadvise : Bool)
    (e : Event) :
    (s.step k haveMadvise e).Counted ∧
    ∀ m∈s.cache.maps, (m∉(s.step k haveMadvise e).cache.maps ↔ LastRelease s e m) := by
  have hstays : ∀ c : MmapCache, (∀ m∈s.cache.maps, m∈c.maps) →
      (∀ i keep, e≠.freeRequest i false keep) →
      ∀ m∈s.cache.maps, (m∉c.maps ↔ LastRelease s e m) := by
    intro c hc he m hm
    refine ⟨fun hnot => absurd (hc m hm) hnot,?_⟩
    rintro ⟨i,keep,_,_,hfree,_⟩
    exact absurd hfree (he i keep)
  cases e with
  | accept i =>
    refine ⟨h.accept i,hstays _ ?_ (by simp)⟩
    intro m hm
    simp only [Server.step,Server.accept]
    split
    · split <;> exact hm
    · exact hm
  | answer i =>
    simp only [Server.step]
    split
    next r hk =>
      split
      next hlive =>
        refine ⟨h.replaceSame hk rfl fun _ => ?_,hstays _ (fun _ hm => hm) (by simp)⟩
        have hfits := h.fits r (List.mem_of_getElem? hk) hlive
        exact ⟨hfits.held,hfits.bare,fun hh => absurd hh Bool.false_ne_true⟩
      next => exact ⟨h,hstays _ (fun _ hm => hm) (by simp)⟩
    next => exact ⟨h,hstays _ (fun _ hm => hm) (by simp)⟩
  | initGet i st res =>
    simp only [Server.step]
    split
    next r hk =>
      split
      next hlive =>
        obtain ⟨hl,hh⟩ := Bool.and_eq_true_iff.mp hlive
        obtain ⟨r',c',hdata,hcounted,hmaps⟩ := h.mapData k haveMadvise st res hk hl hh
        rw [hdata]
        exact ⟨hcounted,hstays _ hmaps (by simp)⟩
      next => exact ⟨h,hstays _ (fun _ hm => hm) (by simp)⟩
    next => exact ⟨h,hstays _ (fun _ hm => hm) (by simp)⟩
  | freeRequest i flushPending keep =>
    simp only [Server.step]
    split
    next r hk =>
      split
      next hlive =>
        obtain ⟨hl,hp⟩ := Bool.and_eq_true_iff.mp hlive
        obtain rfl : flushPending=false := by simpa using hp
        obtain ⟨hcounted,hmaps⟩ := h.releaseData keep hk hl
        refine ⟨hcounted,fun m hm => (hmaps m hm).trans ?_⟩
        constructor
        · rintro ⟨j,hj,hm,hone⟩
          exact ⟨i,keep,r,j,rfl,hk,hl,hj,hm,hone⟩
        · rintro ⟨i',keep',r',j,he,hk',_,hj,hm,hone⟩
          cases he
          obtain rfl : r=r' := Option.some.inj (hk.symm.trans hk')
          exact ⟨j,hj,hm,hone⟩
      next hkeep =>
        refine ⟨h,fun m hm => ⟨fun hnot => absurd hm hnot,?_⟩⟩
        rintro ⟨i',keep',r',j,he,hk',hl,_⟩
        cases he
        obtain rfl : r=r' := Option.some.inj (hk.symm.trans hk')
        exact absurd (by rw [hl]; rfl) hkeep
    next hnone =>
      refine ⟨h,fun m hm => ⟨fun hnot => absurd hm hnot,?_⟩⟩
      rintro ⟨i',keep',r',j,he,hk',_⟩
      cases he
      exact absurd hk' (by rw [hnone]; simp)

end Crotalus
