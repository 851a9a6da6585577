import Crotalus.Server.Hash

namespace Crotalus

open Singly

/-! The chained hash table as a map that keeps the first value of a key. -/

def HashOp.note (es : List (Text × Text)) : HashOp → List (Text × Text)
  | .insert key value => es++[(key,value)]
  | .clear => []

/-- What was inserted behind the last clearing. -/
def insertions (ops : List HashOp) : List (Text × Text) := ops.foldl HashOp.note []

/-- The value of the first insertion of a key. -/
def firstValue (es : List (Text × Text)) (key : Text) : Option Text :=
  (es.find? fun e => e.1=key).map Prod.snd

namespace HashTable

variable {w : HashTable} {size k i x : Nat} {p : Option Nat} {xs : List Nat}
  {key value : Text} {es : List (Text × Text)}

def entry (w : HashTable) (x : Nat) : Text × Text := ((w.node x).key,(w.node x).value)

def hasKey (w : HashTable) (key : Text) (x : Nat) : Bool := (w.node x).key=key

/-- The chain of a slot. -/
structure IsChain (w : HashTable) (i : Nat) (xs : List Nat) : Prop where
  leads : Leads w.next (w.table i) xs none
  alive : ∀ x∈xs,x < w.allocs ∧ x∉w.freed

/-- The chains hold the entries `es`, each in its own slot, no key twice. -/
structure Refines (w : HashTable) (size : Nat) (es : List (Text × Text)) : Prop where
  keys : (es.map Prod.fst).Nodup
  chains : ∀ i,∃ xs,IsChain w i xs ∧ xs.map w.entry=es.filter fun e => hashSlot size e.1=i
  freed : ∀ x∈w.freed,x < w.allocs

theorem hasKey_eq : w.hasKey key x=true ↔ (w.node x).key=key := decide_eq_true_iff

/-! The updates. -/

@[simp] theorem malloc_next : (w.malloc key value).next=Function.update w.next w.allocs none := by
  funext y
  by_cases hy : y=w.allocs
  · subst hy
    simp [next,malloc]
  · simp [next,malloc,Function.update_of_ne hy]

@[simp] theorem setNext_next (y : Option Nat) :
    (w.setNext x y).next=Function.update w.next x y := by
  funext z
  by_cases hz : z=x
  · subst hz
    simp [next,setNext]
  · simp [next,setNext,Function.update_of_ne hz]

@[simp] theorem malloc_entry :
    (w.malloc key value).entry=Function.update w.entry w.allocs (key,value) := by
  funext y
  by_cases hy : y=w.allocs
  · subst hy
    simp [entry,malloc]
  · simp [entry,malloc,Function.update_of_ne hy]

@[simp] theorem setNext_entry (y : Option Nat) : (w.setNext x y).entry=w.entry := by
  funext z
  by_cases hz : z=x
  · subst hz
    simp [entry,setNext]
  · simp [entry,setNext,Function.update_of_ne hz]

/-! The loops along a chain. -/

theorem findLoop_leads (h : Leads w.next p xs none) (hk : xs.length≤k) :
    findLoop w key k p=some (xs.find? (w.hasKey key)) := by
  induction xs generalizing p k with
  | nil =>
    obtain rfl : p=none := h
    cases k <;> rfl
  | cons x xs ih =>
    obtain ⟨rfl,h⟩ := h
    cases k with
    | zero => exact absurd hk (Nat.not_succ_le_zero _)
    | succ k =>
      rw [findLoop]
      by_cases hkey : (w.node x).key=key
      · rw [if_pos hkey,List.find?_cons_of_pos (hasKey_eq.mpr hkey)]
      · rw [if_neg hkey,List.find?_cons_of_neg (mt hasKey_eq.mp hkey),
          ih h (Nat.le_of_succ_le_succ hk)]

/-- The loop stops at the key, or else at the last node. -/
theorem insertLoop_leads (key : Text) (h : Leads w.next p xs none) (hk : xs.length < k) :
    (∃ x,xs.find? (w.hasKey key)=some x ∧
      insertLoop w key k p=some (.found x)) ∨
    xs.find? (w.hasKey key)=none ∧
      (xs=[] ∧ insertLoop w key k p=some .empty ∨
        ∃ front x,xs=front++[x] ∧ insertLoop w key k p=some (.behind x)) := by
  induction xs generalizing p k with
  | nil =>
    obtain rfl : p=none := h
    cases k with
    | zero => exact absurd hk (Nat.not_lt_zero _)
    | succ k => exact .inr ⟨rfl,.inl ⟨rfl,rfl⟩⟩
  | cons x xs ih =>
    obtain ⟨rfl,h⟩ := h
    cases k with
    | zero => exact absurd hk (Nat.not_lt_zero _)
    | succ k =>
      rw [insertLoop]
      by_cases hkey : (w.node x).key=key
      · left
        rw [if_pos hkey,List.find?_cons_of_pos (hasKey_eq.mpr hkey)]
        exact ⟨x,rfl,rfl⟩
      · rw [if_neg hkey,List.find?_cons_of_neg (mt hasKey_eq.mp hkey)]
        cases xs with
        | nil =>
          have hlast : w.next x=none := h
          rw [hlast,if_neg (by decide)]
          exact .inr ⟨rfl,.inr ⟨[],x,rfl,rfl⟩⟩
        | cons y ys =>
          have hnext : (w.next x).isSome=true := by rw [h.1]; rfl
          rw [if_pos hnext]
          rcases ih h (Nat.lt_of_succ_lt_succ hk) with hfound|⟨hnone,hend⟩
          · exact .inl hfound
          · refine .inr ⟨hnone,.inr ?_⟩
            rcases hend with ⟨hnil,-⟩|⟨front,z,hsplit,hloop⟩
            · cases hnil
            · exact ⟨x::front,z,by rw [hsplit]; rfl,hloop⟩

theorem clearLoop_leads (h : Leads w.next p xs none) (hk : xs.length≤k) :
    clearLoop k w p=some { w with freed := w.freed++xs } := by
  induction xs generalizing p k w with
  | nil =>
    obtain rfl : p=none := h
    rw [List.append_nil]
    cases k <;> rfl
  | cons x xs ih =>
    obtain ⟨rfl,h⟩ := h
    cases k with
    | zero => exact absurd hk (Nat.not_succ_le_zero _)
    | succ k =>
      have hrest := ih (w := w.free x) h (Nat.le_of_succ_le_succ hk)
      rw [clearLoop,hrest,free,List.append_assoc]
      rfl

theorem IsChain.length (h : IsChain w i xs) : xs.length≤w.allocs :=
  h.leads.length_le fun x hx => (h.alive x hx).1

theorem Refines.slot (h : Refines w size es) (hc : IsChain w i xs) (hx : x∈xs) :
    hashSlot size (w.node x).key=i := by
  obtain ⟨ys,hys,hentries⟩ := h.chains i
  obtain rfl := hc.leads.unique hys.leads
  have hmem : w.entry x∈es.filter fun e => hashSlot size e.1=i :=
    hentries ▸ List.mem_map_of_mem hx
  exact of_decide_eq_true (List.mem_filter.mp hmem).2

/-- The chain of a key's slot is searched as all entries are. -/
theorem Refines.find (h : Refines w size es) (hc : IsChain w (hashSlot size key) xs) :
    (xs.find? (w.hasKey key)).map w.entry=es.find? fun e => e.1=key := by
  obtain ⟨ys,hys,hentries⟩ := h.chains (hashSlot size key)
  obtain rfl := hc.leads.unique hys.leads
  have hmap : (xs.map w.entry).find? (fun e => e.1=key)=(xs.find? (w.hasKey key)).map w.entry :=
    List.find?_map
  rw [← hmap,hentries,List.find?_filter]
  congr 1
  funext e
  by_cases he : e.1=key
  · simp [he]
  · simp [he]

theorem Refines.hashFind (h : Refines w size es) (key : Text) :
    ∃ r,w.hashFind key (hashSlot size key)=some r ∧
      (key≠[] → r.map w.entry=es.find? fun e => e.1=key) := by
  by_cases hkey : key=[]
  · exact ⟨none,if_pos hkey,fun hne => absurd hkey hne⟩
  · obtain ⟨xs,hc,-⟩ := h.chains (hashSlot size key)
    refine ⟨xs.find? (w.hasKey key),?_,fun _ => h.find hc⟩
    rw [HashTable.hashFind,if_neg hkey,findLoop_leads hc.leads hc.length]

/-- A table of no entries has no chains. -/
theorem refines_nil (htable : ∀ i,w.table i=none) (hfreed : ∀ x∈w.freed,x < w.allocs) :
    Refines w size [] where
  keys := List.nodup_nil
  chains i := ⟨[],⟨htable i,fun _ hx => absurd hx List.not_mem_nil⟩,rfl⟩
  freed := hfreed

/-! Insertion. -/

/-- A node that a chain holds keeps it, and so does the chain, when a new node is made. -/
theorem IsChain.malloc (hc : IsChain w i xs) (key value : Text) :
    IsChain (w.malloc key value) i xs where
  leads := by
    rw [malloc_next]
    exact hc.leads.update (fun hx => absurd (hc.alive _ hx).1 (Nat.lt_irrefl _)) none
  alive x hx := ⟨Nat.lt_succ_of_lt (hc.alive x hx).1,(hc.alive x hx).2⟩

theorem IsChain.malloc_entries (hc : IsChain w i xs) (key value : Text) :
    xs.map (w.malloc key value).entry=xs.map w.entry := by
  refine List.map_congr_left fun x hx => ?_
  rw [malloc_entry,Function.update_of_ne]
  exact Nat.ne_of_lt (hc.alive x hx).1

/-- A new entry goes to the end of the chain of its slot. -/
theorem Refines.push (h : Refines w size es) (hnew : ∀ e∈es,e.1≠key) {w' : HashTable}
    (hother : ∀ j ys,j≠hashSlot size key → IsChain w j ys →
      IsChain w' j ys ∧ ys.map w'.entry=ys.map w.entry)
    (hc : IsChain w (hashSlot size key) xs)
    (hpushed : IsChain w' (hashSlot size key) (xs++[w.allocs]) ∧
      (xs++[w.allocs]).map w'.entry=xs.map w.entry++[(key,value)])
    (hfreed : w'.freed=w.freed) (hallocs : w'.allocs=w.allocs+1) :
    Refines w' size (es++[(key,value)]) where
  keys := by
    rw [List.map_append,List.nodup_append]
    refine ⟨h.keys,List.pairwise_singleton ..,fun k hk d hd heq => ?_⟩
    obtain ⟨e,he,rfl⟩ := List.mem_map.mp hk
    rw [List.map_singleton,List.mem_singleton] at hd
    exact hnew e he (heq.trans hd)
  chains j := by
    obtain ⟨ys,hys,hentries⟩ := h.chains j
    rw [List.filter_append]
    by_cases hj : j=hashSlot size key
    · subst hj
      obtain rfl := hys.leads.unique hc.leads
      refine ⟨ys++[w.allocs],hpushed.1,?_⟩
      rw [hpushed.2,hentries,List.filter_cons_of_pos (by simp),List.filter_nil]
    · obtain ⟨hys',hsame⟩ := hother j ys hj hys
      refine ⟨ys,hys',?_⟩
      rw [hsame,hentries,List.filter_cons_of_neg (by simpa using Ne.symm hj),List.filter_nil,
        List.append_nil]
  freed x hx := by
    rw [hfreed] at hx
    rw [hallocs]
    exact Nat.lt_succ_of_lt (h.freed x hx)

theorem Refines.fresh (h : Refines w size es) : w.allocs∉w.freed :=
  fun hx => absurd (h.freed _ hx) (Nat.lt_irrefl _)

/-- The first entry of a chain. -/
theorem Refines.first (h : Refines w size es) (hnew : ∀ e∈es,e.1≠key)
    (hc : IsChain w (hashSlot size key) []) :
    Refines ((w.malloc key value).setTable (hashSlot size key) (some w.allocs)) size
      (es++[(key,value)]) := by
  refine h.push hnew (fun j ys hj hys => ?_) hc ⟨⟨?_,?_⟩,?_⟩ rfl rfl
  · refine ⟨⟨?_,(hys.malloc key value).alive⟩,hys.malloc_entries key value⟩
    change Leads (w.malloc key value).next (Function.update w.table _ _ j) ys none
    rw [Function.update_of_ne hj]
    exact (hys.malloc key value).leads
  · change Leads (w.malloc key value).next (Function.update w.table _ _ _) [w.allocs] none
    rw [Function.update_self,malloc_next]
    exact ⟨rfl,Function.update_self ..⟩
  · intro x hx
    rw [List.nil_append,List.mem_singleton] at hx
    subst hx
    exact ⟨Nat.lt_succ_self _,h.fresh⟩
  · change [(w.malloc key value).entry w.allocs]=[(key,value)]
    rw [malloc_entry,Function.update_self]

/-- An entry behind the last one of a chain. -/
theorem Refines.behind (h : Refines w size es) (hnew : ∀ e∈es,e.1≠key)
    (hc : IsChain w (hashSlot size key) (xs++[x])) :
    Refines ((w.malloc key value).setNext x (some w.allocs)) size (es++[(key,value)]) := by
  have hx : x∈xs++[x] := List.mem_append_right _ (List.mem_singleton_self x)
  have hfront : x∉xs := fun hmem =>
    absurd rfl ((List.nodup_append.mp hc.leads.nodup).2.2 x hmem x (List.mem_singleton_self x))
  refine h.push hnew (fun j ys hj hys => ?_) hc ⟨⟨?_,?_⟩,?_⟩ rfl rfl
  · have hxys : x∉ys := fun hmem => hj ((h.slot hys hmem).symm.trans (h.slot hc hx))
    refine ⟨⟨?_,(hys.malloc key value).alive⟩,?_⟩
    · rw [setNext_next]
      exact (hys.malloc key value).leads.update hxys _
    · rw [setNext_entry]
      exact hys.malloc_entries key value
  · rw [setNext_next]
    refine leads_append.mpr ⟨some w.allocs,(hc.malloc key value).leads.redirect hfront _,rfl,?_⟩
    rw [Function.update_of_ne (Nat.ne_of_gt (hc.alive x hx).1),malloc_next]
    exact Function.update_self ..
  · intro y hy
    rcases List.mem_append.mp hy with hy|hy
    · exact (hc.malloc key value).alive y hy
    · rw [List.mem_singleton.mp hy]
      exact ⟨Nat.lt_succ_self _,h.fresh⟩
  · rw [setNext_entry,List.map_append,hc.malloc_entries key value,List.map_singleton,malloc_entry,
      Function.update_self]

/-- The insertion does what it does to a list of entries. -/
theorem Refines.insert (h : Refines w size es) (hkey : key≠[]) (hvalue : value≠[]) :
    ∃ w' r es',w.hashInsert (hashSlot size key) key value=some (w',r) ∧
      Crotalus.hashInsert es key value=some es' ∧ Refines w' size es' := by
  obtain ⟨xs,hc,-⟩ := h.chains (hashSlot size key)
  have hfind := h.find hc
  rw [HashTable.hashInsert,if_neg hkey,if_neg hvalue,Crotalus.hashInsert,if_neg (not_or.mpr
    ⟨hkey,hvalue⟩),Crotalus.hashFind,← hfind]
  rcases insertLoop_leads key hc.leads (Nat.lt_succ_of_le hc.length) with
    ⟨x,hx,hloop⟩|⟨hnone,hend⟩
  · rw [hloop,hx]
    exact ⟨w,some x,es,rfl,rfl,h⟩
  · have hnew : ∀ e∈es,e.1≠key := by
      rw [hnone,Option.map_none,eq_comm,List.find?_eq_none] at hfind
      exact fun e he heq => hfind e he (decide_eq_true heq)
    rw [hnone]
    rcases hend with ⟨rfl,hloop⟩|⟨front,x,rfl,hloop⟩
    · rw [hloop]
      exact ⟨_,_,_,rfl,rfl,h.first hnew hc⟩
    · rw [hloop]
      exact ⟨_,_,_,rfl,rfl,h.behind hnew hc⟩

/-! Clearing. -/

/-- The slots are cleared one by one, and the nodes of their chains freed. -/
theorem clear_slots (slots : List Nat)
    (hchains : ∀ i,∃ xs,Leads w.next (w.table i) xs none ∧ ∀ x∈xs,x < w.allocs)
    (hfreed : ∀ x∈w.freed,x < w.allocs) :
    ∃ w',slots.foldlM (fun w i => (clearLoop w.allocs w (w.table i)).map (·.setTable i none)) w=
        some w' ∧ (∀ i,w'.table i=if i∈slots then none else w.table i) ∧
      ∀ x∈w'.freed,x < w'.allocs := by
  induction slots generalizing w with
  | nil => exact ⟨w,rfl,fun _ => rfl,hfreed⟩
  | cons i slots ih =>
    obtain ⟨xs,hxs,halive⟩ := hchains i
    have hloop := clearLoop_leads hxs (hxs.length_le halive)
    have hnext := ih (w := { w with freed := w.freed++xs }.setTable i none) ?_ ?_
    · obtain ⟨w',hfold,htable,hfreed'⟩ := hnext
      refine ⟨w',?_,fun j => ?_,hfreed'⟩
      · rw [List.foldlM_cons,hloop]
        exact hfold
      · rw [htable]
        change (if j∈slots then none else Function.update w.table i none j)=_
        by_cases hj : j=i
        · rw [hj,Function.update_self,if_pos List.mem_cons_self]
          exact ite_self _
        · rw [Function.update_of_ne hj]
          exact if_congr (by rw [List.mem_cons,or_iff_right hj]) rfl rfl
    · intro j
      by_cases hj : j=i
      · exact ⟨[],by rw [hj]; exact Function.update_self ..,fun x hx => absurd hx List.not_mem_nil⟩
      · obtain ⟨ys,hys,hyalive⟩ := hchains j
        refine ⟨ys,?_,hyalive⟩
        change Leads w.next (Function.update w.table i none j) ys none
        rwa [Function.update_of_ne hj]
    · intro x hx
      exact (List.mem_append.mp hx).elim (hfreed x) (halive x)

theorem Refines.clear (h : Refines w size es) (hsize : 0 < size) :
    ∃ w',w.hashClear size=some w' ∧ Refines w' size [] := by
  obtain ⟨w',hclear,htable,hfreed⟩ := clear_slots (List.range size) (fun i => by
    obtain ⟨xs,hc,-⟩ := h.chains i
    exact ⟨xs,hc.leads,fun x hx => (hc.alive x hx).1⟩) h.freed
  refine ⟨w',hclear,refines_nil (fun i => ?_) hfreed⟩
  rw [htable]
  by_cases hi : i∈List.range size
  · exact if_pos hi
  · -- no key belongs to a slot behind the last one
    rw [if_neg hi]
    obtain ⟨xs,hc,hentries⟩ := h.chains i
    have hnone : (es.filter fun e => hashSlot size e.1=i)=[] := by
      refine List.filter_eq_nil_iff.mpr fun e _ heq => hi (List.mem_range.mpr ?_)
      rw [← of_decide_eq_true heq]
      exact Nat.mod_lt _ hsize
    rw [hnone,List.map_eq_nil_iff] at hentries
    subst hentries
    exact hc.leads

/-! A run. -/

theorem firstValue_append (es : List (Text × Text)) (key value k : Text) :
    firstValue (es++[(key,value)]) k=(firstValue es k).or (if key=k then some value else none) := by
  rw [firstValue,firstValue,List.find?_append]
  cases es.find? (fun e => e.1=k) with
  | some e => rfl
  | none =>
    rw [Option.none_or,List.find?_singleton]
    by_cases hk : key=k
    · rw [if_pos hk,if_pos (decide_eq_true hk)]
      rfl
    · rw [if_neg hk,if_neg (by simpa using hk)]
      rfl

/-- Inserting into a list of entries does not change the first value of a key. -/
theorem hashInsert_first {es es' noted : List (Text × Text)} {key value : Text}
    (hsame : ∀ k,firstValue es k=firstValue noted k)
    (hinsert : Crotalus.hashInsert es key value=some es') (k : Text) :
    firstValue es' k=firstValue (noted++[(key,value)]) k := by
  rw [Crotalus.hashInsert] at hinsert
  by_cases hempty : key=[] ∨ value=[]
  · rw [if_pos hempty] at hinsert
    cases hinsert
  rw [if_neg hempty] at hinsert
  rw [firstValue_append,← hsame]
  by_cases hthere : (Crotalus.hashFind es key).isSome=true
  · rw [if_pos hthere] at hinsert
    obtain rfl := Option.some.inj hinsert
    by_cases hk : key=k
    · subst hk
      obtain ⟨v,hv⟩ := Option.isSome_iff_exists.mp hthere
      have hv' : firstValue es key=some v := hv
      rw [hv',Option.some_or]
    · rw [if_neg hk,Option.or_none]
  · rw [if_neg hthere] at hinsert
    obtain rfl := Option.some.inj hinsert
    exact firstValue_append es key value k

theorem run_refines (hsize : 0 < size) {ops : List HashOp} (noted : List (Text × Text))
    (hops : ∀ key value,HashOp.insert key value∈ops → key≠[] ∧ value≠[])
    (h : Refines w size es) (hsame : ∀ k,firstValue es k=firstValue noted k) :
    ∃ w' es',run size ops w=some w' ∧ Refines w' size es' ∧
      ∀ k,firstValue es' k=firstValue (ops.foldl HashOp.note noted) k := by
  induction ops generalizing w es noted with
  | nil => exact ⟨w,es,rfl,h,hsame⟩
  | cons op ops ih =>
    have hlater : ∀ key value,HashOp.insert key value∈ops → key≠[] ∧ value≠[] :=
      fun key value hmem => hops key value (List.mem_cons_of_mem op hmem)
    have hstep : ∃ w1 es1,step size w op=some w1 ∧ Refines w1 size es1 ∧
        ∀ k,firstValue es1 k=firstValue (HashOp.note noted op) k := by
      cases op with
      | insert key value =>
        obtain ⟨hkey,hvalue⟩ := hops key value List.mem_cons_self
        obtain ⟨w1,r,es1,hw1,hes1,href⟩ := h.insert hkey hvalue
        exact ⟨w1,es1,by rw [step,hw1]; rfl,href,hashInsert_first hsame hes1⟩
      | clear =>
        obtain ⟨w1,hw1,href⟩ := h.clear hsize
        exact ⟨w1,[],hw1,href,fun _ => rfl⟩
    obtain ⟨w1,es1,hw1,href,hsame1⟩ := hstep
    obtain ⟨w',es',hrun,href',hsame'⟩ := ih _ hlater href hsame1
    refine ⟨w',es',?_,href',hsame'⟩
    rw [run,List.foldlM_cons,hw1]
    exact hrun

/-- Lookups give the value of the first insertion, a chain has each key once, and nothing is
found when the table is cleared. -/
structure FindsFirst (size : Nat) (ops : List HashOp) (w : HashTable) : Prop where
  finds : ∀ key,∃ r,w.hashFind key (hashSlot size key)=some r ∧
    r.map (fun x => (w.node x).value)=firstValue (insertions ops) key
  once : ∀ i,∃ xs,IsChain w i xs ∧ (xs.map fun x => (w.node x).key).Nodup
  cleared : ∃ w',w.hashClear size=some w' ∧
    ∀ key,w'.hashFind key (hashSlot size key)=some none

theorem insertions_mem {ops : List HashOp} {noted : List (Text × Text)} {e : Text × Text}
    (he : e∈ops.foldl HashOp.note noted) : e∈noted ∨ HashOp.insert e.1 e.2∈ops := by
  induction ops generalizing noted with
  | nil => exact .inl he
  | cons op ops ih =>
    rcases ih he with hnoted|hops
    · cases op with
      | insert key value =>
        rcases List.mem_append.mp hnoted with hnoted|hnew
        · exact .inl hnoted
        · rw [List.mem_singleton.mp hnew]
          exact .inr List.mem_cons_self
      | clear => exact absurd hnoted List.not_mem_nil
    · exact .inr (List.mem_cons_of_mem op hops)

end HashTable

/-- The chained table does what a map does that keeps the first value of a key. -/
theorem hashTable_findsFirst (size : Nat) (hsize : 0 < size) (ops : List HashOp)
    (hops : ∀ key value,HashOp.insert key value∈ops → key≠[] ∧ value≠[]) :
    ∃ w,HashTable.run size ops {}=some w ∧ HashTable.FindsFirst size ops w := by
  have hstart : HashTable.Refines {} size [] :=
    HashTable.refines_nil (fun _ => rfl) fun x hx => absurd hx List.not_mem_nil
  obtain ⟨w,es,hrun,href,hsame⟩ := HashTable.run_refines hsize [] hops hstart fun _ => rfl
  refine ⟨w,hrun,⟨fun key => ?_,fun i => ?_,?_⟩⟩
  · obtain ⟨r,hr,hentry⟩ := href.hashFind key
    refine ⟨r,hr,?_⟩
    by_cases hkey : key=[]
    · subst hkey
      have hnone : firstValue (insertions ops) []=none := by
        rw [firstValue,List.find?_eq_none.mpr]
        · rfl
        · intro e he heq
          have hmem := (HashTable.insertions_mem he).resolve_left List.not_mem_nil
          exact (hops _ _ hmem).1 (of_decide_eq_true heq)
      have hr' : r=none := Option.some.inj hr.symm
      rw [hr',hnone]
      rfl
    · have hvalue := hsame key
      rw [firstValue,← hentry hkey,Option.map_map] at hvalue
      exact hvalue
  · obtain ⟨xs,hc,hentries⟩ := href.chains i
    refine ⟨xs,hc,?_⟩
    have hkeys : (xs.map w.entry).map Prod.fst=xs.map fun x => (w.node x).key := by
      rw [List.map_map]
      rfl
    rw [← hkeys,hentries]
    exact (List.filter_sublist.map Prod.fst).nodup href.keys
  · obtain ⟨w',hw',href'⟩ := href.clear hsize
    refine ⟨w',hw',fun key => ?_⟩
    obtain ⟨r,hr,hentry⟩ := href'.hashFind key
    rw [hr]
    by_cases hkey : key=[]
    · rw [HashTable.hashFind,if_pos hkey] at hr
      exact hr.symm
    · exact congrArg some (Option.map_eq_none_iff.mp (hentry hkey))

theorem hashTable_findsFirst_html : let ops := [HashOp.insert (str "html") (str "text/html"),
      .insert (str "htm") (str "text/html"),.insert (str "html") (str "text/plain")]
    ∃ w,HashTable.run 47 ops {}=some w ∧ HashTable.FindsFirst 47 ops w := by
  refine hashTable_findsFirst 47 (by decide) _ fun key value hmem => ?_
  simp only [List.mem_cons,HashOp.insert.injEq,List.not_mem_nil,or_false] at hmem
  rcases hmem with ⟨rfl,rfl⟩|⟨rfl,rfl⟩|⟨rfl,rfl⟩ <;> decide

end Crotalus
