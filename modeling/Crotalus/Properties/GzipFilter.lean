import Crotalus.Framework.Run
import Crotalus.Properties.ChunkWriter

namespace Crotalus

open Stateful

/-! What the gzip filter forwards of the shared-memory file that zlib appends to. -/

/-! The rounds of the copying loop: `pos` is where the next read starts, `of` the counter. -/

section Rounds

variable (fl : List Byte) (len : Nat)

theorem memRounds_end (k pos : Nat) {of : Nat} (h : len ≤ of) :
    memRounds fl len k pos of = [] := by
  cases k with
  | zero => rfl
  | succ k => exact if_neg (by omega)

/-- The bytes one round reads. -/
def roundRead (pos of : Nat) : List Byte :=
  (fl.drop pos).take (min bufferSize (len - of))

theorem length_roundRead (pos of : Nat) :
    (roundRead fl len pos of).length = min (min bufferSize (len - of)) (fl.length - pos) := by
  rw [roundRead, List.length_take, List.length_drop]

theorem memRounds_succ (k pos : Nat) {of : Nat} (hof : of < len) (hlen : len < 2 ^ 31) :
    memRounds fl len (k + 1) pos of = roundRead fl len pos of ::
      memRounds fl len k (pos + (roundRead fl len pos of).length) (i32 (of + bufferSize : Nat)) := by
  have hwant : (min (bufferSize : Int) (i32 ((len : Int) - of)) % 2 ^ 64).toNat =
      min bufferSize (len - of) := by
    rw [show (len : Int) - of = (len - of : Nat) by omega, i32_of_lt (by omega)]
    simp only [bufferSize]
    omega
  rw [memRounds, if_pos (by omega)]
  simp only [hwant, roundRead, Nat.cast_add]

theorem roundRead_append (pos of : Nat) :
    roundRead fl len pos of ++ fl.drop (pos + (roundRead fl len pos of).length) =
      fl.drop pos := by
  rw [← List.drop_drop]
  conv_rhs => rw [← List.take_append_drop (min bufferSize (len - of)) (fl.drop pos)]
  congr 1
  rw [length_roundRead, ← List.length_drop]
  rcases Nat.le_total (min bufferSize (len - of)) (fl.drop pos).length with h | h
  · rw [Nat.min_eq_left h]
  · rw [Nat.min_eq_right h, List.drop_length, List.drop_eq_nil_of_le h]

/-- Enough rounds for the whole file read all that is left of it. -/
theorem memRounds_flatten (k pos of : Nat) (hleft : fl.length - pos ≤ len - of)
    (hk : len - of ≤ bufferSize * k) (hlen : len + bufferSize ≤ 2 ^ 31) :
    (memRounds fl len k pos of).flatten = fl.drop pos := by
  induction k generalizing pos of with
  | zero =>
    have hdrop : fl.drop pos = [] := List.drop_eq_nil_of_le (by omega)
    rw [hdrop]
    rfl
  | succ k ih =>
    by_cases hof : of < len
    · have hread := length_roundRead fl len pos of
      have hnext : of + bufferSize < 2 ^ 31 := by omega
      simp only [bufferSize] at hk hlen hread ih
      rw [memRounds_succ fl len k pos hof (by omega), i32_of_lt hnext, List.flatten_cons]
      refine (congrArg _ (ih _ _ ?_ ?_)).trans (roundRead_append fl len pos of)
      · simp only [bufferSize]
        omega
      · simp only [bufferSize]
        omega
    · have hdrop : fl.drop pos = [] := List.drop_eq_nil_of_le (by omega)
      rw [memRounds_end fl len _ pos (by omega), hdrop]
      rfl

/-- Every round has something to read just when the last one has: the new part takes as
many rounds as the whole file. -/
theorem memRounds_nonempty (k pos of : Nat) (hpos : pos ≤ fl.length)
    (hleft : fl.length - pos ≤ len - of) (hk : len - of ≤ bufferSize * k)
    (hlen : len + bufferSize ≤ 2 ^ 31) :
    (∀ w ∈ memRounds fl len k pos of, w ≠ []) ↔
      len ≤ of ∨ (len - of - 1) / bufferSize * bufferSize < fl.length - pos := by
  induction k generalizing pos of with
  | zero =>
    have hof : len ≤ of := by omega
    exact ⟨fun _ => .inl hof, fun _ w hw => absurd hw List.not_mem_nil⟩
  | succ k ih =>
    by_cases hof : of < len
    · have hread := length_roundRead fl len pos of
      have hnext : of + bufferSize < 2 ^ 31 := by omega
      have hne : roundRead fl len pos of ≠ [] ↔ 0 < (roundRead fl len pos of).length :=
        List.length_pos_iff.symm
      simp only [bufferSize] at hk hlen hread ih hnext ⊢
      rw [memRounds_succ fl len k pos hof (by omega), List.forall_mem_cons, hne]
      simp only [bufferSize]
      rw [i32_of_lt hnext, ih _ _ (by omega) (by omega) (by omega)]
      omega
    · rw [memRounds_end fl len _ pos (by omega)]
      exact ⟨fun _ => .inl (by omega), fun _ w hw => absurd hw List.not_mem_nil⟩

/-- Near the largest `int` the counter overflows and goes on from the smallest: a round
reads at the end of the file. -/
theorem memRounds_overflow (j k pos : Nat) (hj : j ≤ 2 ^ 19)
    (hleft : fl.length - pos ≤ len - (2 ^ 19 - j) * bufferSize) (hk : j < k)
    (hlen : len < 2 ^ 31) (hbig : 2 ^ 31 < len + bufferSize) :
    [] ∈ memRounds fl len k pos (i32 ((2 ^ 19 - j) * bufferSize : Nat)) := by
  induction j generalizing k pos with
  | zero =>
    obtain ⟨k, rfl⟩ : ∃ i, k = i + 1 := ⟨k - 1, by omega⟩
    have hwrap : i32 ((2 ^ 19 - 0) * bufferSize : Nat) = -2 ^ 31 := by decide
    have hdrop : fl.drop pos = [] := by
      apply List.drop_eq_nil_of_le
      simp only [bufferSize] at hleft
      omega
    rw [hwrap, memRounds, if_pos (by omega), hdrop]
    exact List.mem_cons.mpr (.inl List.take_nil.symm)
  | succ j ih =>
    obtain ⟨k, rfl⟩ : ∃ i, k = i + 1 := ⟨k - 1, by omega⟩
    simp only [bufferSize] at hleft hbig ih ⊢
    have hof : (2 ^ 19 - (j + 1)) * 4096 < len := by omega
    have hread := length_roundRead fl len pos ((2 ^ 19 - (j + 1)) * 4096)
    simp only [bufferSize] at hread
    have hnext : (2 ^ 19 - (j + 1)) * 4096 + 4096 = (2 ^ 19 - j) * 4096 := by omega
    rw [i32_of_lt (by omega), memRounds_succ fl len k pos hof hlen]
    simp only [bufferSize, hnext]
    exact List.mem_cons_of_mem _ (ih k _ (by omega) (by omega) (by omega))

theorem memRounds_length (len : Int) (k pos : Nat) (of : Int) :
    ∀ w ∈ memRounds fl len k pos of, w.length ≤ fl.length := by
  induction k generalizing pos of with
  | zero => exact fun w hw => absurd hw List.not_mem_nil
  | succ k ih =>
    intro w hw
    rw [memRounds] at hw
    split at hw
    · rcases List.mem_cons.mp hw with rfl | hw
      · rw [List.length_take, List.length_drop]
        omega
      · exact ih _ _ w hw
    · exact absurd hw List.not_mem_nil

theorem memRounds_count (len : Int) (k pos : Nat) (of : Int) :
    (memRounds fl len k pos of).length ≤ k := by
  induction k generalizing pos of with
  | zero => exact Nat.le_refl 0
  | succ k ih =>
    rw [memRounds]
    split
    · exact Nat.succ_le_succ (ih _ _)
    · exact Nat.zero_le _

end Rounds

/-! One call of `mime_filter_write_mem`. -/

/-- The blocks the call hands to the chunk writer. -/
def memBlocks (fl : List Byte) (of : Int) : List (List Byte) :=
  if i32 fl.length = of then []
  else memRounds fl (i32 fl.length) (fl.length + 1) (if of < 0 then fl.length else of.toNat) 0

theorem memBlocks_length (fl : List Byte) (of : Int) :
    ∀ w ∈ memBlocks fl of, w.length ≤ fl.length := by
  unfold memBlocks
  split
  · exact fun w hw => absurd hw List.not_mem_nil
  · exact memRounds_length fl _ _ _ _

theorem memBlocks_count (fl : List Byte) (of : Int) :
    (memBlocks fl of).length ≤ fl.length + 1 := by
  unfold memBlocks
  split
  · exact Nat.zero_le _
  · exact memRounds_count fl _ _ _ _

def Request.forwarded (r : Request) (len : Int) : Request := { r with gzipOf := len }

@[simp] theorem Request.gzipOf_forwarded (r : Request) (len : Int) :
    (r.forwarded len).gzipOf = len := (rfl)

theorem forwardMem_sends (fl : List Byte) (len : Int) (c : Conn) :
    ∃ d, exec (forwardMem fl len) c =
      Conn.sends { c with req := c.req.forwarded len }
        (chunksSent (if len = c.req.gzipOf then []
          else memRounds fl len (fl.length + 1)
            (if c.req.gzipOf < 0 then fl.length else c.req.gzipOf.toNat) 0) c.sys.sock) d := by
  by_cases h : len = c.req.gzipOf
  · refine ⟨c.waits, ?_⟩
    subst h
    simp [forwardMem, chunksSent, Conn.sends, Request.forwarded]
  · obtain ⟨d, hw⟩ := writeChunks_sends (memRounds fl len (fl.length + 1)
      (if c.req.gzipOf < 0 then fl.length else c.req.gzipOf.toNat) 0) c
    refine ⟨d, ?_⟩
    simp only [forwardMem, exec_bind, exec_getReq, value_getReq, if_neg h, hw, exec_modReq]
    rfl

theorem mimeFilterWriteMem_sends (fl : List Byte) (c : Conn) :
    ∃ d, exec (mimeFilterWriteMem fl) c =
      Conn.sends { c with req := c.req.forwarded (i32 fl.length) }
        (chunksSent (memBlocks fl c.req.gzipOf) c.sys.sock) d :=
  forwardMem_sends fl _ c

/-- The call sends as non-empty chunks what the file has got since the previous offset, and
moves the offset to the end of the file. -/
def MemForwards (fl : List Byte) (c : Conn) : Prop :=
  ∃ blocks, (∀ w ∈ blocks, w ≠ []) ∧ blocks.flatten = fl.drop c.req.gzipOf.toNat ∧
    (exec (mimeFilterWriteMem fl) c).wire = c.wire ++ Chunked.body hex blocks ∧
    (exec (mimeFilterWriteMem fl) c).req.gzipOf = fl.length

/-- The file has nothing new; or its new part takes as many rounds as all of it would, and
the counter does not overflow on the way. -/
def MemFits (fl : List Byte) (of : Int) : Prop :=
  of = fl.length ∧ fl.length < 2 ^ 31 ∨
    fl.length + bufferSize ≤ 2 ^ 31 ∧
      (fl.length - 1) / bufferSize * bufferSize < fl.length - of.toNat

theorem length_le_of_flatten {blocks : List (List Byte)} {w fl : List Byte} {n : Nat}
    (h : blocks.flatten = fl.drop n) (hw : w ∈ blocks) : w.length ≤ fl.length := by
  have hsub := (List.sublist_flatten_of_mem hw).length_le
  rw [h, List.length_drop] at hsub
  omega

/-- The same bytes are the same chunks as far as a reader can tell: with no empty one. -/
theorem nonempty_of_body {ws vs : List (List Byte)} (hws : ∀ w ∈ ws, w.length < 2 ^ 32)
    (hvs : ∀ v ∈ vs, v.length < 2 ^ 32) (hne : ∀ v ∈ vs, v ≠ [])
    (h : Chunked.body hex ws = Chunked.body hex vs) : ∀ w ∈ ws, w ≠ [] := by
  have hread := (decode_chunks hvs).mpr hne
  rw [← h] at hread
  exact Chunked.nonempty_of_decode (fun w hw => hex_numeral (hws w hw)) (hex_numeral (by decide))
    hread

/-- What the rounds hold when the counter does not overflow, and that they hold an empty
one when it does. -/
theorem memBlocks_spec {fl : List Byte} {of : Nat} (hle : of ≤ fl.length)
    (hlen : fl.length < 2 ^ 31) (hne : of ≠ fl.length) :
    ((memBlocks fl of).flatten = fl.drop of ∨ ¬(∀ w ∈ memBlocks fl of, w ≠ [])) ∧
      ((∀ w ∈ memBlocks fl of, w ≠ []) ↔ MemFits fl of) := by
  have hblocks : memBlocks fl of = memRounds fl fl.length (fl.length + 1) of 0 := by
    rw [memBlocks, i32_of_lt hlen, if_neg (by omega), if_neg (by omega), Int.toNat_natCast]
  rw [hblocks, MemFits, Int.toNat_natCast]
  by_cases hbig : fl.length + bufferSize ≤ 2 ^ 31
  · have hflat := memRounds_flatten fl fl.length (fl.length + 1) of 0 
      (by omega) (by simp only [bufferSize]; omega) hbig
    have hiff := memRounds_nonempty fl fl.length (fl.length + 1) of 0 hle
      (by omega) (by simp only [bufferSize]; omega) hbig
    refine ⟨.inl hflat, hiff.trans ?_⟩
    simp only [bufferSize] at hbig ⊢
    omega
  · have hover := memRounds_overflow fl fl.length (2 ^ 19) (fl.length + 1) of 
      (by decide) (by omega) (by simp only [bufferSize] at hbig; omega) hlen (by omega)
    have hempty : ¬∀ w ∈ memRounds fl fl.length (fl.length + 1) of 0, w ≠ [] :=
      fun h => h [] hover rfl
    refine ⟨.inr hempty, ⟨fun h => absurd h hempty, ?_⟩⟩
    rintro (⟨h, -⟩ | ⟨h, -⟩)
    · omega
    · exact absurd h hbig

theorem mimeFilterWriteMem_wire {fl : List Byte} {c : Conn}
    (hs : SendsAll (memBlocks fl c.req.gzipOf) c.sys.sock) :
    (exec (mimeFilterWriteMem fl) c).wire =
        c.wire ++ Chunked.body hex (memBlocks fl c.req.gzipOf) ∧
      (exec (mimeFilterWriteMem fl) c).req.gzipOf = i32 fl.length := by
  obtain ⟨d, hexec⟩ := mimeFilterWriteMem_sends fl c
  rw [hexec, Conn.wire_sends, Conn.req_sends, Request.gzipOf_forwarded, chunksSent_body hs]
  exact ⟨rfl, rfl⟩

/-- A file of 2 GiB: the offset stored is not its end. -/
theorem not_memForwards_of_le {fl : List Byte} {c : Conn}
    (hs : SendsAll (memBlocks fl c.req.gzipOf) c.sys.sock) (hlen : 2 ^ 31 ≤ fl.length) :
    ¬MemForwards fl c := by
  rintro ⟨-, -, -, -, hoff⟩
  rw [(mimeFilterWriteMem_wire hs).2] at hoff
  exact i32_ne_of_le hlen hoff

theorem memForwards_of_fits {fl : List Byte} {c : Conn} {of : Nat} (hof : c.req.gzipOf = of)
    (hle : of ≤ fl.length) (hs : SendsAll (memBlocks fl c.req.gzipOf) c.sys.sock)
    (hfits : MemFits fl of) : MemForwards fl c := by
  have hlen : fl.length < 2 ^ 31 := by
    unfold MemFits bufferSize at hfits
    omega
  obtain ⟨hwire, hoff⟩ := mimeFilterWriteMem_wire hs
  rw [hof] at hwire
  unfold MemForwards
  rw [hwire, hoff, i32_of_lt hlen, hof, Int.toNat_natCast]
  by_cases hne : of = fl.length
  · have hblocks : memBlocks fl of = [] := by rw [memBlocks, i32_of_lt hlen, hne, if_pos rfl]
    rw [hblocks, hne, List.drop_length]
    exact ⟨[], fun w hw => absurd hw List.not_mem_nil, rfl, rfl, rfl⟩
  · obtain ⟨hflat, hiff⟩ := memBlocks_spec hle hlen hne
    have hnon := hiff.mpr hfits
    exact ⟨_, hnon, hflat.resolve_right fun h => h hnon, rfl, rfl⟩

theorem fits_of_memForwards {fl : List Byte} {c : Conn} {of : Nat} (hof : c.req.gzipOf = of)
    (hle : of ≤ fl.length) (hs : SendsAll (memBlocks fl c.req.gzipOf) c.sys.sock)
    (h : MemForwards fl c) : MemFits fl of := by
  have hlen : fl.length < 2 ^ 31 := Nat.lt_of_not_le fun hbig => not_memForwards_of_le hs hbig h
  by_cases hne : of = fl.length
  · exact .inl ⟨by rw [hne], hlen⟩
  · obtain ⟨blocks, hnon, hdrop, hbody, -⟩ := h
    rw [(mimeFilterWriteMem_wire hs).1, hof] at hbody
    refine (memBlocks_spec hle hlen hne).2.mp
      (nonempty_of_body ?_ ?_ hnon (List.append_cancel_left hbody))
    · intro w hw
      have hw := memBlocks_length fl of w hw
      omega
    · intro w hw
      have hw := length_le_of_flatten hdrop hw
      omega

/-- A call forwards what is new exactly when the new part fits. -/
theorem memForwards_iff {fl : List Byte} {c : Conn} {of : Nat} (hof : c.req.gzipOf = of)
    (hle : of ≤ fl.length) (hs : SendsAll (memBlocks fl c.req.gzipOf) c.sys.sock) :
    MemForwards fl c ↔ MemFits fl of :=
  ⟨fits_of_memForwards hof hle hs, memForwards_of_fits hof hle hs⟩

/-! Runs of the filter. What zlib appends to the file at a call, and what it returns, is the
next element of `gz`. -/

inductive GzipCall where
  | write (w : Window)
  | flush

def gzipCall (e : Config) (c : Conn) : GzipCall → Conn
  | .write w => exec (mimeFilterWrite e .gzip) (c.filled w)
  | .flush => exec (mimeFilterFlush e .gzip) c

def Conn.grows (c : Conn) : List Byte × Int := c.sys.gz.headD ([], -1)

def Conn.gzTaken (c : Conn) : Conn := { c with sys := { c.sys with gz := c.sys.gz.tail } }

@[simp] theorem Conn.req_gzTaken (c : Conn) : c.gzTaken.req = c.req := (rfl)
@[simp] theorem Conn.sock_gzTaken (c : Conn) : c.gzTaken.sys.sock = c.sys.sock := (rfl)

def Conn.grown (c : Conn) (fl : List Byte) : Conn :=
  { c.gzTaken with req := { c.req with gzipFl := some fl } }

/-- The file for which the call gets to `mime_filter_write_mem`, when it does. -/
def Conn.memFile (c : Conn) : GzipCall → Option (List Byte)
  | .write _ => if c.grows.2 > 0 then c.req.gzipFl.map (· ++ c.grows.1) else none
  | .flush => if c.grows.2 = 0 then c.req.gzipFl.map (· ++ c.grows.1) else none

/-- The connection at that point. -/
def Conn.memStart (c : Conn) (fl : List Byte) : GzipCall → Conn
  | .write w => (c.filled w).grown fl
  | .flush => c.gzTaken

def Forwarded (c : Conn) (call : GzipCall) : Prop :=
  ∀ fl, c.memFile call = some fl → MemForwards fl (c.memStart fl call)

def CallFits (c : Conn) (call : GzipCall) : Prop :=
  ∀ fl, c.memFile call = some fl → MemFits fl c.req.gzipOf

def GzipCall.closing : GzipCall → List (List Byte)
  | .write _ => []
  | .flush => [[]]

/-- The socket sends all the chunks of the call. -/
def Served (c : Conn) (call : GzipCall) : Prop :=
  ∀ fl, c.memFile call = some fl → SendsAll (memBlocks fl c.req.gzipOf ++ call.closing) c.sys.sock

/-- The writes and the flush that ends them. -/
def gzipRun (ws : List Window) : List GzipCall := ws.map .write ++ [.flush]

/-- What zlib appends with its next `n` answers. -/
def appended (gz : List (List Byte × Int)) (n : Nat) : List Byte :=
  ((gz.take n).map Prod.fst).flatten

/-- All that zlib appends in the run. -/
def Conn.gzipFile (c : Conn) (ws : List Window) : List Byte := appended c.sys.gz (ws.length + 1)

/-- Every call forwards what is new to it, and the payload of the stream is the file, when
the flush succeeds. -/
def GzipForwarded (e : Config) (ws : List Window) (c : Conn) : Prop :=
  Run.AllSteps (gzipCall e) Forwarded c (gzipRun ws) ∧
    ((c.sys.gz[ws.length]?).map Prod.snd = some 0 →
      Chunked.decode ((Run.final (gzipCall e) c (gzipRun ws)).wire.drop c.wire.length) =
        some (c.gzipFile ws, []))

section Calls

variable (e : Config) {c : Conn} {fl : List Byte}

theorem takeGz_run : value takeGz c = c.grows ∧ exec takeGz c = c.gzTaken := ⟨rfl, rfl⟩

theorem gzipCall_write (hfl : c.req.gzipFl = some fl) (w : Window) :
    gzipCall e c (.write w) =
      if c.grows.2 > 0 then
        exec (mimeFilterWriteMem (fl ++ c.grows.1)) ((c.filled w).grown (fl ++ c.grows.1))
      else (c.filled w).grown (fl ++ c.grows.1) := by
  have hfl' : (c.filled w).req.gzipFl = some fl := hfl
  have hg : (c.filled w).grows = c.grows := rfl
  simp only [gzipCall, mimeFilterWrite, exec_bind, exec_getReq, value_getReq, hfl', takeGz_run,
    exec_modReq, exec_ite, exec_pure, hg]
  by_cases hneg : c.grows.2 < 0
  · rw [if_pos hneg, if_neg (by omega)]
    rfl
  · rw [if_neg hneg, exec_onlyIf]
    by_cases hpos : c.grows.2 > 0
    · rw [if_pos hpos, if_pos (decide_eq_true hpos)]
      rfl
    · rw [if_neg hpos, if_neg (by simpa using hpos)]
      rfl

theorem gzipCall_file (hfl : c.req.gzipFl = some fl) (w : Window) :
    (gzipCall e c (.write w)).req.gzipFl = some (fl ++ c.grows.1) ∧
      (gzipCall e c (.write w)).sys.gz = c.sys.gz.tail := by
  rw [gzipCall_write e hfl w]
  by_cases hpos : c.grows.2 > 0
  · rw [if_pos hpos]
    obtain ⟨d, hexec⟩ := mimeFilterWriteMem_sends (fl ++ c.grows.1)
      ((c.filled w).grown (fl ++ c.grows.1))
    rw [hexec]
    exact ⟨rfl, rfl⟩
  · rw [if_neg hpos]
    exact ⟨rfl, rfl⟩

theorem gzipCall_flush (hfl : c.req.gzipFl = some fl) (h : c.grows.2 = 0) :
    gzipCall e c .flush =
      exec (mimeFilterWriteChunk []) (exec (mimeFilterWriteMem (fl ++ c.grows.1)) c.gzTaken) := by
  simp only [gzipCall, mimeFilterFlush, exec_bind, exec_getReq, value_getReq, hfl, takeGz_run,
    if_neg (not_not.mpr h), exec_pure]

theorem memFile_eq (hfl : c.req.gzipFl = some fl) {call : GzipCall} {f : List Byte}
    (h : c.memFile call = some f) : f = fl ++ c.grows.1 := by
  cases call with
  | write w =>
    rw [Conn.memFile, hfl] at h
    split at h
    · exact (Option.some.inj h).symm
    · exact nomatch h
  | flush =>
    rw [Conn.memFile, hfl] at h
    split at h
    · exact (Option.some.inj h).symm
    · exact nomatch h

theorem memStart_write (c : Conn) (f : List Byte) (w : Window) :
    c.memStart f (.write w) = (c.filled w).grown f := rfl

theorem gzipOf_memStart (c : Conn) (f : List Byte) (call : GzipCall) :
    (c.memStart f call).req.gzipOf = c.req.gzipOf := by
  cases call <;> rfl

theorem sock_memStart (c : Conn) (f : List Byte) (call : GzipCall) :
    (c.memStart f call).sys.sock = c.sys.sock := by
  cases call <;> rfl

variable {of : Nat}

theorem forwarded_iff (hfl : c.req.gzipFl = some fl) (hof : c.req.gzipOf = of)
    (hle : of ≤ fl.length) {call : GzipCall} (hs : Served c call) :
    Forwarded c call ↔ CallFits c call := by
  have hcall : ∀ f, c.memFile call = some f →
      (MemForwards f (c.memStart f call) ↔ MemFits f c.req.gzipOf) := by
    intro f hf
    have hlen : of ≤ f.length := by
      rw [memFile_eq hfl hf, List.length_append]
      omega
    rw [hof]
    apply memForwards_iff ((gzipOf_memStart c f call).trans hof) hlen
    rw [gzipOf_memStart, sock_memStart]
    exact (hs f hf).left
  exact ⟨fun h f hf => (hcall f hf).mp (h f hf), fun h f hf => (hcall f hf).mpr (h f hf)⟩

theorem memFile_write (hfl : c.req.gzipFl = some fl) (w : Window) (hpos : c.grows.2 > 0) :
    c.memFile (.write w) = some (fl ++ c.grows.1) := by
  rw [Conn.memFile, if_pos hpos, hfl]
  rfl

theorem memFile_flush (hfl : c.req.gzipFl = some fl) (h : c.grows.2 = 0) :
    c.memFile .flush = some (fl ++ c.grows.1) := by
  rw [Conn.memFile, if_pos h, hfl]
  rfl

/-- The state between two calls of the run: the file zlib has written, and the offset up to
which it has been forwarded. -/
structure AtCall (c : Conn) (fl : List Byte) (of : Nat) : Prop where
  file : c.req.gzipFl = some fl
  offset : c.req.gzipOf = of
  le : of ≤ fl.length

/-- A write that forwards what it should leaves the filter between two calls. -/
theorem AtCall.write (h : AtCall c fl of) (w : Window) (hf : Forwarded c (.write w)) :
    ∃ of' blocks, AtCall (gzipCall e c (.write w)) (fl ++ c.grows.1) of' ∧
      (∀ v ∈ blocks, v ≠ []) ∧ (fl ++ c.grows.1).drop of = blocks.flatten ++
        (fl ++ c.grows.1).drop of' ∧
      (gzipCall e c (.write w)).wire = c.wire ++ Chunked.body hex blocks := by
  have hfile := (gzipCall_file e h.file w).1
  have hrun := gzipCall_write e h.file w
  by_cases hpos : c.grows.2 > 0
  · obtain ⟨blocks, hne, hflat, hwire, hoff⟩ := hf _ (memFile_write h.file w hpos)
    rw [gzipOf_memStart, h.offset, Int.toNat_natCast] at hflat
    rw [if_pos hpos] at hrun
    rw [memStart_write, ← hrun] at hwire hoff
    refine ⟨(fl ++ c.grows.1).length, blocks, ⟨hfile, hoff, Nat.le_refl _⟩, hne, ?_, hwire⟩
    rw [hflat, List.drop_length, List.append_nil]
  · rw [if_neg hpos] at hrun
    have hle : of ≤ (fl ++ c.grows.1).length := by
      have hle := h.le
      rw [List.length_append]
      omega
    refine ⟨of, [], ⟨hfile, ?_, hle⟩, fun v hv => absurd hv List.not_mem_nil, rfl, ?_⟩
    · rw [hrun]
      exact h.offset
    · rw [hrun]
      exact (List.append_nil _).symm

theorem gzipRun_allSteps_iff (ws : List Window) (h : AtCall c fl of)
    (hs : Run.AllSteps (gzipCall e) Served c (gzipRun ws)) :
    Run.AllSteps (gzipCall e) Forwarded c (gzipRun ws) ↔
      Run.AllSteps (gzipCall e) CallFits c (gzipRun ws) := by
  induction ws generalizing c fl of with
  | nil => exact and_congr_left' (forwarded_iff h.file h.offset h.le hs.1)
  | cons w ws ih =>
    have hcall := forwarded_iff h.file h.offset h.le hs.1
    have hrest : Forwarded c (.write w) →
        (Run.AllSteps (gzipCall e) Forwarded (gzipCall e c (.write w)) (gzipRun ws) ↔
          Run.AllSteps (gzipCall e) CallFits (gzipCall e c (.write w)) (gzipRun ws)) := by
      intro hf
      obtain ⟨of', blocks, hnext, -⟩ := h.write e w hf
      exact ih hnext hs.2
    constructor
    · rintro ⟨hf, hall⟩
      exact ⟨hcall.mp hf, (hrest hf).mp hall⟩
    · rintro ⟨hfit, hall⟩
      exact ⟨hcall.mpr hfit, (hrest (hcall.mpr hfit)).mpr hall⟩

theorem appended_succ (gz : List (List Byte × Int)) (n : Nat) :
    appended gz (n + 1) = (gz.headD ([], -1)).1 ++ appended gz.tail n := by
  cases gz with
  | nil => simp [appended]
  | cons p gz => rfl

theorem gzipFile_nil (c : Conn) : c.gzipFile [] = c.grows.1 := by
  rw [Conn.gzipFile, List.length_nil, appended_succ, ← Conn.grows]
  exact List.append_nil _

theorem gzipFile_cons (hfl : c.req.gzipFl = some fl) (w : Window) (ws : List Window) :
    c.gzipFile (w :: ws) = c.grows.1 ++ (gzipCall e c (.write w)).gzipFile ws := by
  rw [Conn.gzipFile, Conn.gzipFile, (gzipCall_file e hfl w).2]
  exact appended_succ _ _

theorem MemFits.length_lt (h : MemFits fl of) : fl.length < 2 ^ 31 := by
  unfold MemFits bufferSize at h
  omega

/-- The flush: what is still to be forwarded, and the end of the body. -/
theorem AtCall.flush (h : AtCall c fl of) (hf : Forwarded c .flush) (hs : Served c .flush)
    (h0 : c.grows.2 = 0) :
    ∃ blocks, (∀ v ∈ blocks, v ≠ []) ∧ blocks.flatten = (fl ++ c.grows.1).drop of ∧
      (fl ++ c.grows.1).length < 2 ^ 31 ∧
      (gzipCall e c .flush).wire = c.wire ++ (Chunked.body hex blocks ++ chunk []) := by
  have hfile := memFile_flush h.file h0
  obtain ⟨blocks, hne, hflat, hwire, -⟩ := hf _ hfile
  obtain ⟨d, hexec⟩ := mimeFilterWriteMem_sends (fl ++ c.grows.1) c.gzTaken
  obtain ⟨d', hend⟩ := mimeFilterWriteChunk_sends []
    (exec (mimeFilterWriteMem (fl ++ c.grows.1)) c.gzTaken)
  have hlast := (chunksSent_of_sendsAll [[]] (hs _ hfile)).1
  obtain _ | ⟨hhead, hdata, hlast, -⟩ := hlast
  have hchunk := chunkSent_of_whole hhead hdata hlast
  rw [gzipOf_memStart, h.offset, Int.toNat_natCast] at hflat
  have hfits := (forwarded_iff h.file h.offset h.le hs).mp hf _ hfile
  rw [h.offset] at hfits
  refine ⟨blocks, hne, hflat, hfits.length_lt, ?_⟩
  have hsock : (exec (mimeFilterWriteMem (fl ++ c.grows.1)) c.gzTaken).sys.sock =
      (chunksSent (memBlocks (fl ++ c.grows.1) c.req.gzipOf) c.sys.sock).1 := by
    rw [hexec, Conn.sock_sends, Conn.req_gzTaken, Conn.sock_gzTaken]
  rw [gzipCall_flush e h.file h0, hend, Conn.wire_sends, hsock, hchunk, ← List.append_assoc]
  exact congrArg (· ++ chunk []) hwire

theorem gzipRun_payload (ws : List Window) (h : AtCall c fl of)
    (hs : Run.AllSteps (gzipCall e) Served c (gzipRun ws))
    (hf : Run.AllSteps (gzipCall e) Forwarded c (gzipRun ws))
    (hend : (c.sys.gz[ws.length]?).map Prod.snd = some 0) :
    ∃ blocks, (∀ v ∈ blocks, v ≠ []) ∧
      blocks.flatten = (fl ++ c.gzipFile ws).drop of ∧
      (fl ++ c.gzipFile ws).length < 2 ^ 31 ∧
      (Run.final (gzipCall e) c (gzipRun ws)).wire =
        c.wire ++ (Chunked.body hex blocks ++ chunk []) := by
  induction ws generalizing c fl of with
  | nil =>
    have h0 : c.grows.2 = 0 := by
      rw [Conn.grows]
      cases hgz : c.sys.gz with
      | nil => simp [hgz] at hend
      | cons p gz => simpa [hgz] using hend
    rw [gzipFile_nil]
    exact h.flush e hf.1 hs.1 h0
  | cons w ws ih =>
    obtain ⟨of', blocks, hnext, hne, hflat, hwire⟩ := h.write e w hf.1
    have hend' : ((gzipCall e c (.write w)).sys.gz[ws.length]?).map Prod.snd = some 0 := by
      rw [(gzipCall_file e h.file w).2, List.getElem?_tail]
      exact hend
    obtain ⟨blocks', hne', hflat', hlt, hwire'⟩ := ih hnext hs.2 hf.2 hend'
    have hle : of ≤ (fl ++ c.grows.1).length := by
      have hle := h.le
      rw [List.length_append]
      omega
    rw [gzipFile_cons e h.file, ← List.append_assoc]
    refine ⟨blocks ++ blocks', ?_, ?_, hlt, ?_⟩
    · intro v hv
      exact (List.mem_append.mp hv).elim (hne v) (hne' v)
    · rw [List.flatten_append, hflat', List.drop_append_of_le_length hnext.le,
        List.drop_append_of_le_length hle, hflat, List.append_assoc]
    · rw [Chunked.body_append, List.append_assoc, ← List.append_assoc c.wire, ← hwire]
      exact hwire'

/-- For a socket that sends all the chunks, the calls forward what they should and the
payload is the file exactly when the new part fits at every call. -/
theorem gzipForwarded_iff (ws : List Window) (c : Conn) (hfl : c.req.gzipFl = some [])
    (hof : c.req.gzipOf = 0) (hs : Run.AllSteps (gzipCall e) Served c (gzipRun ws)) :
    GzipForwarded e ws c ↔ Run.AllSteps (gzipCall e) CallFits c (gzipRun ws) := by
  have h0 : AtCall c [] 0 := ⟨hfl, hof, Nat.le_refl 0⟩
  have hiff := gzipRun_allSteps_iff e ws h0 hs
  constructor
  · exact fun h => hiff.mp h.1
  · intro hfits
    have hf := hiff.mpr hfits
    refine ⟨hf, fun hend => ?_⟩
    obtain ⟨blocks, hne, hflat, hlt, hwire⟩ := gzipRun_payload e ws h0 hs hf hend
    have hlen : ∀ v ∈ blocks, v.length < 2 ^ 32 := by
      intro v hv
      have hle := length_le_of_flatten hflat hv
      omega
    rw [hwire, List.drop_left, (decode_chunks hlen).mpr hne, hflat]
    rfl

section Open

variable {n k : Nat} (hn : 10 ≤ n) (hfl : c.req.gzipFl = some fl)
  (hsock : c.sys.sock = List.replicate k (.done n))
include hn hfl hsock

/-- A socket that takes `n` bytes at once and has enough results serves a call. -/
theorem served_of_replicate (hle : (fl ++ c.grows.1).length ≤ n) (hk : 3 * (n + 2) ≤ k)
    (call : GzipCall) : Served c call := by
  intro f hf
  rw [hsock]
  obtain rfl := memFile_eq hfl hf
  have hcount := memBlocks_count (fl ++ c.grows.1) c.req.gzipOf
  have hclosing : call.closing.length ≤ 1 := by
    cases call with
    | write w => exact Nat.zero_le 1
    | flush => exact Nat.le_refl 1
  refine (sendsAll_replicate hn ?_ ?_).1
  · intro v hv
    rcases List.mem_append.mp hv with hv | hv
    · exact Nat.le_trans (memBlocks_length _ _ v hv) hle
    · cases call with
      | write w => exact absurd hv List.not_mem_nil
      | flush =>
        rw [List.mem_singleton.mp hv]
        exact Nat.zero_le n
  · rw [List.length_append]
    omega

/-- After a write it is such a socket again. -/
theorem replicate_of_write (hle : (fl ++ c.grows.1).length ≤ n) (hk : 3 * (n + 2) ≤ k)
    (w : Window) :
    ∃ m, (gzipCall e c (.write w)).sys.sock = List.replicate m (.done n) ∧
      k ≤ m + 3 * (n + 2) := by
  rw [gzipCall_write e hfl w]
  by_cases hpos : c.grows.2 > 0
  · rw [if_pos hpos]
    obtain ⟨d, hexec⟩ := mimeFilterWriteMem_sends (fl ++ c.grows.1)
      ((c.filled w).grown (fl ++ c.grows.1))
    have hcount := memBlocks_count (fl ++ c.grows.1) c.req.gzipOf
    obtain ⟨-, m, hm, hkm⟩ := sendsAll_replicate hn
      (fun v hv => Nat.le_trans (memBlocks_length (fl ++ c.grows.1) c.req.gzipOf v hv) hle)
      (k := k) (by omega)
    rw [hexec, Conn.sock_sends]
    refine ⟨m, ?_, by omega⟩
    rw [← hm, ← hsock]
    rfl
  · rw [if_neg hpos]
    exact ⟨k, hsock, Nat.le_add_right k _⟩

end Open

/-- It serves every run. -/
theorem allServed_of_replicate (ws : List Window) {n k : Nat} (hn : 10 ≤ n)
    (hfl : c.req.gzipFl = some fl) (hsock : c.sys.sock = List.replicate k (.done n))
    (hle : (fl ++ c.gzipFile ws).length ≤ n) (hk : (ws.length + 1) * (3 * (n + 2)) ≤ k) :
    Run.AllSteps (gzipCall e) Served c (gzipRun ws) := by
  induction ws generalizing c fl k with
  | nil =>
    rw [gzipFile_nil] at hle
    exact ⟨served_of_replicate hn hfl hsock hle (by simpa using hk) _, trivial⟩
  | cons w ws ih =>
    rw [List.length_cons, Nat.succ_mul] at hk
    rw [gzipFile_cons e hfl, ← List.append_assoc] at hle
    have hgrown : (fl ++ c.grows.1).length ≤ n := by
      rw [List.length_append] at hle
      omega
    obtain ⟨m, hm, hkm⟩ := replicate_of_write e hn hfl hsock hgrown (by omega) w
    exact ⟨served_of_replicate hn hfl hsock hgrown (by omega) _,
      ih (gzipCall_file e hfl w).1 hm hle (by omega)⟩

theorem gzipOf_of_write (hfl : c.req.gzipFl = some fl) (w : Window) (hpos : c.grows.2 > 0)
    (hf : Forwarded c (.write w)) :
    (gzipCall e c (.write w)).req.gzipOf = (fl ++ c.grows.1).length := by
  obtain ⟨-, -, -, -, hoff⟩ := hf _ (memFile_write hfl w hpos)
  have hrun := gzipCall_write e hfl w
  rw [if_pos hpos] at hrun
  rwa [memStart_write, ← hrun] at hoff

end Calls

/-- A filter that has just been initialised, with what zlib will append to the file and a
socket that takes up to 8 KiB at once. -/
def gzipFresh (gz : List (List Byte × Int)) (k : Nat) : Conn :=
  { req := { gzipFl := some [] }, sys := { sock := List.replicate k (.done 8192), gz := gz } }

def someBytes : Window := ⟨fun _ => 97, 0, 10⟩

def smallFile : Conn := gzipFresh [([31, 139], 10), ([3, 0], 0)] 49164

/-- A small file is forwarded with one write and the flush. -/
theorem gzipForwarded_small : GzipForwarded {} [someBytes] smallFile := by
  refine (gzipForwarded_iff {} [someBytes] smallFile rfl rfl
    (allServed_of_replicate {} [someBytes] (by decide) rfl rfl (by decide) (by decide))).mpr ?_
  have hfits : CallFits smallFile (.write someBytes) := by
    intro fl hfl
    rw [show fl = [31, 139] from memFile_eq rfl hfl]
    exact .inr (by decide)
  have hserved : Served smallFile (.write someBytes) :=
    served_of_replicate (by decide) rfl rfl (by decide) (by decide) _
  have hf := (forwarded_iff rfl rfl (Nat.le_refl 0) hserved).mpr hfits
  have hnext := gzipCall_file {} (c := smallFile) rfl someBytes
  have hoff := gzipOf_of_write {} (c := smallFile) rfl someBytes (by decide) hf
  refine ⟨hfits, ?_, trivial⟩
  intro fl hfl
  have hg : (gzipCall {} smallFile (.write someBytes)).grows = ([3, 0], 0) := by
    rw [Conn.grows, hnext.2]
    rfl
  rw [memFile_eq hnext.1 hfl, hg, hoff]
  exact .inr (by decide)

/-- The file fills the buffer and gets one byte more: the second round of the second call
has nothing left to read, and its empty chunk ends the body. -/
theorem gzipForwarded_past_buffer :
    ¬GzipForwarded {} [someBytes, someBytes]
      (gzipFresh [(List.replicate 4096 97, 10), ([98], 10), ([99], 0)] 73746) := by
  generalize hp : List.replicate 4096 (97 : Byte) = p
  have hlen : p.length = 4096 := by rw [← hp, List.length_replicate]
  generalize hc : gzipFresh [(p, 10), ([98], 10), ([99], 0)] 73746 = c
  have hgz : c.sys.gz = [(p, 10), ([98], 10), ([99], 0)] := by rw [← hc]; rfl
  have hfl : c.req.gzipFl = some [] := by rw [← hc]; rfl
  have hof : c.req.gzipOf = 0 := by rw [← hc]; rfl
  have hsock : c.sys.sock = List.replicate 73746 (.done 8192) := by rw [← hc]; rfl
  have hfile : ([] ++ c.gzipFile [someBytes, someBytes]).length ≤ 8192 := by
    simp [Conn.gzipFile, appended, hgz, hlen]
  have hgrows : c.grows = (p, 10) := by rw [Conn.grows, hgz]; rfl
  rintro ⟨hf, -⟩
  have hfits := (gzipRun_allSteps_iff {} [someBytes, someBytes] ⟨hfl, hof, Nat.le_refl 0⟩
    (allServed_of_replicate {} [someBytes, someBytes] (by decide) hfl hsock hfile
      (by decide))).mp hf
  obtain ⟨hfile1, hgz1⟩ := gzipCall_file {} hfl someBytes
  have hoff1 := gzipOf_of_write {} hfl someBytes (by rw [hgrows]; exact (by decide : (0 : Int) < 10)) hf.1
  rw [hgrows] at hfile1 hoff1
  have hgrows1 : (gzipCall {} c (.write someBytes)).grows = ([98], 10) := by
    rw [Conn.grows, hgz1, hgz]
    rfl
  have hsecond := hfits.2.1 _ (memFile_write hfile1 someBytes (by rw [hgrows1]; decide))
  rw [hgrows1, hoff1, MemFits] at hsecond
  simp [hlen, bufferSize] at hsecond

end Crotalus
