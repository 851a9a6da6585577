import Crotalus.Server.Defs

namespace Crotalus

/-! `mmap_cache.c`, and what `get.c` and `request.c` do with its entries. -/

def mmapListSize : Nat := 256
def mmapListMask : Nat := 255
def mmapListUseMax : Nat := 128

/-- An index of `mmap_list`. -/
abbrev Slot := Fin mmapListSize

structure MmapEntry where
  dev : Nat := 0
  ino : Nat := 0
  mmap : Nat := 0
  useCount : Nat := 0
  len : Nat := 0
  deriving DecidableEq, Repr

structure Stat where
  dev : Nat
  ino : Nat
  size : Nat
  deriving DecidableEq, Repr

/-- A mapping of the process: its address, and the file it shows. -/
structure Mapping where
  addr : Nat
  stat : Stat
  deriving DecidableEq, Repr

/-- `mmap` chooses the address; two mappings never share one. -/
structure Kernel where
  pick : Nat → List Mapping → Nat
  pick_fresh : ∀ hint ms m, m ∈ ms → m.addr ≠ pick hint ms

/-- What `mmap` and `madvise` answer. -/
structure MapRes where
  hint : Nat := 0
  mapped : Bool := true
  advised : Bool := true
  deriving DecidableEq, Repr

/-- The static variables of `mmap_cache.c`, with the mappings of the process. -/
structure MmapCache where
  list : Slot → MmapEntry := fun _ => {}
  entriesUsed : Int := 0
  maps : List Mapping := []

def MmapEntry.stat (m : MmapEntry) : Stat := ⟨m.dev, m.ino, m.len⟩

def MmapEntry.mapping (m : MmapEntry) : Mapping := ⟨m.mmap, m.stat⟩

def MmapEntry.setCount (m : MmapEntry) (n : Nat) : MmapEntry := { m with useCount := n }

def munmap (addr : Nat) (c : MmapCache) : MmapCache :=
  { c with maps := c.maps.filter fun m => m.addr ≠ addr }

def mmapListHash (s : Stat) : Slot :=
  ⟨s.ino &&& mmapListMask, Nat.lt_succ_of_le Nat.and_le_right⟩

def mmapListNext (i : Slot) : Slot :=
  ⟨(i.val + 1) &&& mmapListMask, Nat.lt_succ_of_le Nat.and_le_right⟩

/-- How the loop of `find_mmap` ends. -/
inductive Probe where
  | found (i : Slot)
  | empty (i : Slot)
  | full
  deriving DecidableEq, Repr

/-- The loop of `find_mmap`, for at most the given number of rounds; `none` when it has not
ended by then. -/
def probe (list : Slot → MmapEntry) (s : Stat) (start : Slot) : Nat → Slot → Option Probe
  | 0, _ => none
  | k + 1, i =>
    if (list i).useCount = 0 then some (.empty i)
    else if (list i).stat = s then some (.found i)
    else if mmapListNext i = start then some .full
    else probe list s start k (mmapListNext i)

def MmapCache.setEntry (c : MmapCache) (i : Slot) (m : MmapEntry) : MmapCache :=
  { c with list := fun j => if j = i then m else c.list j }

/-- `find_mmap` behind its loop. -/
def fillEntry (k : Kernel) (haveMadvise : Bool) (s : Stat) (res : MapRes) (i : Slot)
    (c : MmapCache) : Option Slot × MmapCache :=
  if c.entriesUsed > mmapListUseMax then (none, c)
  else if !res.mapped then (none, c)
  else
    let addr := k.pick res.hint c.maps
    let c := { c with maps := ⟨addr, s⟩ :: c.maps }
    if haveMadvise && !res.advised then (none, munmap addr c)
    else
      let c := { c with entriesUsed := c.entriesUsed + 1 }
      (some i, c.setEntry i ⟨s.dev, s.ino, addr, 1, s.size⟩)

/-- `find_mmap`; `none` stands for a loop that does not end. -/
def findMmap (k : Kernel) (haveMadvise : Bool) (s : Stat) (res : MapRes) (c : MmapCache) :
    Option (Option Slot × MmapCache) :=
  match probe c.list s (mmapListHash s) mmapListSize (mmapListHash s) with
  | none => none
  | some .full => some (none, c)
  | some (.found i) =>
    some (some i, c.setEntry i ((c.list i).setCount ((c.list i).useCount + 1)))
  | some (.empty i) => some (fillEntry k haveMadvise s res i c)

def releaseMmap (i : Slot) (c : MmapCache) : MmapCache :=
  if (c.list i).useCount = 0 then c
  else
    let c := c.setEntry i ((c.list i).setCount ((c.list i).useCount - 1))
    if (c.list i).useCount = 0 then
      let c := munmap (c.list i).mmap c
      { c with entriesUsed := c.entriesUsed - 1 }
    else c

/-! The requests that share the table. -/

/-- A `struct request`, on the ready or the block list when it is live and on the free list
otherwise: whether its header is still being read, and what it holds of a file. `asked` is
history: the file for which `init_get` called `find_mmap`. -/
structure Holder where
  live : Bool := true
  header : Bool := true
  filesize : Nat := 0
  dataMem : Option Nat := none
  mmapEntryVar : Option Slot := none
  asked : Option Stat := none
  deriving DecidableEq, Repr

structure Server where
  cache : MmapCache := {}
  requests : List Holder := []

/-- What can happen to a request as far as its mapping is concerned. `answer` is an
`init_get` that returns before it maps the file, and every other way out of the header. -/
inductive Event where
  | accept (i : Nat)
  | answer (i : Nat)
  | initGet (i : Nat) (s : Stat) (res : MapRes)
  | freeRequest (i : Nat) (flushPending : Bool) (keep : Bool)
  deriving DecidableEq, Repr

/-- The zeroing of `sanitize_request`. -/
def Holder.sanitize (_ : Holder) : Holder := {}

/-- `get_request` takes a request from the free list or, for a new index, allocates it. -/
def Server.accept (s : Server) (i : Nat) : Server :=
  match s.requests[i]? with
  | some r => if r.live then s else { s with requests := s.requests.set i r.sanitize }
  | none => { s with requests := s.requests ++ [{}] }

/-- The header is over, and the file that answers it has this size. -/
def Holder.serve (r : Holder) (s : Stat) : Holder := { r with header := false, filesize := s.size }

/-- The pointers of a request whose file is mapped. -/
def Holder.hold (r : Holder) (s : Stat) (i : Slot) (addr : Nat) : Holder :=
  { r with mmapEntryVar := some i, dataMem := some addr, asked := some s }

/-- The lines of `init_get` that choose between the mapping and the descriptor. -/
def mapData (k : Kernel) (haveMadvise : Bool) (s : Stat) (res : MapRes) (r : Holder)
    (c : MmapCache) : Option (Holder × MmapCache) :=
  if (r.serve s).filesize > maxFileMmap then some (r.serve s, c)
  else
    match findMmap k haveMadvise s res c with
    | none => none
    | some (none, c) => some ({ r.serve s with mmapEntryVar := none, asked := some s }, c)
    | some (some i, c) => some ((r.serve s).hold s i (c.list i).mmap, c)

/-- The lines of `free_request` that let the mapping go. -/
def releaseData (r : Holder) (c : MmapCache) : MmapCache :=
  match r.mmapEntryVar with
  | some i => releaseMmap i c
  | none =>
    match r.dataMem with
    | some addr => munmap addr c
    | none => c

/-- `free_request` keeps a request whose output it cannot flush, recycles one whose
connection is kept alive, and puts any other on the free list as it is. -/
def freed (r : Holder) (keep : Bool) : Holder :=
  if keep then r.sanitize else { r with live := false }

/-- One event. `process_requests` hands only live requests to the handlers, and only those
whose header is being read to `init_get`. -/
def Server.step (k : Kernel) (haveMadvise : Bool) (s : Server) : Event → Server
  | .accept i => s.accept i
  | .answer i =>
    match s.requests[i]? with
    | some r =>
      if r.live then { s with requests := s.requests.set i { r with header := false } } else s
    | none => s
  | .initGet i st res =>
    match s.requests[i]? with
    | some r =>
      if r.live && r.header then
        match mapData k haveMadvise st res r s.cache with
        | some (r, c) => ⟨c, s.requests.set i r⟩
        | none => s
      else s
    | none => s
  | .freeRequest i flushPending keep =>
    match s.requests[i]? with
    | some r =>
      if r.live && !flushPending then
        ⟨releaseData r s.cache, s.requests.set i (freed r keep)⟩
      else s
    | none => s

end Crotalus
