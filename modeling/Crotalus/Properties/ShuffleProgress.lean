import Crotalus.Framework.Run
import Crotalus.Spec.Turn
import Crotalus.Spec.Response
import Crotalus.Properties.Order

namespace Crotalus

open Stateful

/-! `io_shuffle` turn after turn, with calls that never come back empty-handed. -/

/-- A transfer, and whether a turn has come to `complete_response`. -/
structure Shuffled where
  conn : Conn
  finished : Bool

def Conn.hasCompleted (c : Conn) : Bool := c.trace.any (·.site = .completeResponse)

/-- The next turn begins, with a history of its own. -/
def Conn.turnIn (c : Conn) (w : World) : Conn := { c with sys := w, trace := [] }

def shuffleTurn (e : Config) (s : Shuffled) (w : World) : Shuffled :=
  if s.finished then s
  else
    ⟨exec (serveTurn e) (s.conn.turnIn w), (exec (serveTurn e) (s.conn.turnIn w)).hasCompleted⟩

/-- Each call of a turn moves at least one byte: the read of the file and the two writes, one
before `io_shuffle` and one in it. -/
structure Generous (w : World) : Prop where
  seek : w.seek.headD true = true
  file : ∃ n rest, w.file = .done (n + 1) :: rest
  sock : ∃ n k rest, w.sock = .done (n + 1) :: .done (k + 1) :: rest

/-- Bytes of the current range that are still to be read. -/
def Request.left (r : Request) : Nat := r.range.stop + 1 - r.range.start

/-- Those, and all that are still to be written. -/
def Request.toMove (r : Request) : Nat := r.left + (r.left + r.pending.length)

/-- An unfiltered GET that reads its range from a file that holds it. -/
structure Shuffling (e : Config) (r : Request) : Prop where
  build : e.build.haveSendfile = false
  status : r.status = .ioshuffle
  method : r.method ≠ .head
  filter : r.filter = none
  dataFd : r.dataFd ≠ 0
  order : r.range.start ≤ r.range.stop + 1
  held : r.range.stop < r.dataFile.length
  word : r.left < 2 ^ 64
  pending : r.bufferStart < r.bufferEnd ∨ r.bufferStart = 0 ∧ r.bufferEnd = 0

/-- `io_shuffle` is called behind the flush of the turn, and reads or writes; and after the
turn less is to be moved, unless the range is complete. -/
structure Moves (e : Config) (c : Conn) : Prop where
  called : value (topFlush e) c = 1 ∧
    exec (serveTurn e) c = exec (ioShuffle e) (exec (topFlush e) c)
  moves : (∃ v ∈ (exec (serveTurn e) c).trace, ∃ off n, v.site = .fileAccess off (n + 1)) ∨
    (exec (topFlush e) c).wire.length < (exec (serveTurn e) c).wire.length
  less : (exec (serveTurn e) c).hasCompleted = true ∨
    (exec (serveTurn e) c).req.toMove < c.req.toMove

/-- Every turn moves something, and after enough turns the range is complete. -/
def KeepsMoving (e : Config) (c : Conn) : Prop :=
  (∀ ws, (∀ w ∈ ws, Generous w) → Run.AllSteps (shuffleTurn e)
    (fun s w => s.finished = true ∨ Moves e (s.conn.turnIn w)) ⟨c, false⟩ ws) ∧
  ∃ n, ∀ ws, (∀ w ∈ ws, Generous w) → n ≤ ws.length →
    (Run.final (shuffleTurn e) ⟨c, false⟩ ws).finished = true

section Calls

theorem retryIntr_ok {α : Type} {io : Srv (Except Errno α)} {c : Conn} {a : α}
    (h : value io c = .ok a) (k : Nat) :
    value (retryIntr io k) c = .ok a ∧ exec (retryIntr io k) c = exec io c := by
  cases k with
  | zero => exact ⟨h, rfl⟩
  | succ k => simp only [retryIntr, value_bind, exec_bind, h, value_pure, exec_pure, and_self]

variable (e : Config) {c : Conn}

/-- `k` pending bytes have been written, and the socket has the results `sock` left. -/
def Conn.took (c : Conn) (k : Nat) (sock : List IoRes) : Conn :=
  { c with
    req := c.req.taken k
    wire := c.wire ++ c.req.pending.take k
    sys := { c.sys with sock := sock } }

theorem taken_zero {r : Request} (h : r.bufferStart = 0 ∧ r.bufferEnd = 0) : r.taken 0 = r := by
  cases r
  obtain ⟨rfl, rfl⟩ := h
  rfl

theorem topFlush_took (h : Shuffling e c.req) {n k : Nat} {rest : List IoRes}
    (hsock : c.sys.sock = .done (n + 1) :: .done (k + 1) :: rest) :
    value (topFlush e) c = 1 ∧ ∃ j m sock, j ≤ c.req.pending.length ∧
      (c.req.pending ≠ [] → 0 < j) ∧ exec (topFlush e) c = c.took j (.done (m + 1) :: sock) := by
  rcases h.pending with hlt | h0
  · have hover : c.req.status.over = false := by rw [h.status]; rfl
    have hc : c.req.bufferEnd ≠ 0 ∧ (!c.req.status.over) = true :=
      ⟨by omega, by rw [hover]; rfl⟩
    obtain ⟨hv, he⟩ := reqFlush_done e hover h.filter hlt hsock
    have hlen := c.req.length_pending
    have hpos : 0 ≤ (((c.req.taken (min (n + 1) c.req.pending.length)).bufferEnd : Nat) : Int) :=
      Int.natCast_nonneg _
    have htake : c.req.pending.take (n + 1) =
        c.req.pending.take (min (n + 1) c.req.pending.length) := List.take_eq_take_min
    simp only [topFlush, value_bind, exec_bind, exec_getReq, value_getReq, if_pos hc, hv, he]
    rw [if_neg (by omega), if_pos hpos, htake]
    exact ⟨rfl, _, k, rest, Nat.min_le_right _ _, fun _ => by omega, rfl⟩
  · obtain ⟨hv, he⟩ := topFlush_skip e (c := c) (.inl h0.2)
    have hnil : c.req.pending = [] := c.req.pending_eq_nil (by omega)
    refine ⟨hv, 0, n, .done (k + 1) :: rest, Nat.zero_le _, fun hne => absurd hnil hne, ?_⟩
    rw [he, Conn.took, taken_zero h0, List.take_zero, List.append_nil, ← hsock]

/-- Requests that agree but for the buffer's indices and what is left of the range. -/
theorem Shuffling.frame {r q : Request} (h : Shuffling e r) (hst : q.status = r.status)
    (hm : q.method = r.method) (hf : q.filter = r.filter) (hfd : q.dataFd = r.dataFd)
    (hfile : q.dataFile = r.dataFile) {n : Nat} (hn : n ≤ r.left)
    (hr : q.range = { r.range with start := r.range.start + n })
    (hp : q.bufferStart < q.bufferEnd ∨ q.bufferStart = 0 ∧ q.bufferEnd = 0) :
    Shuffling e q ∧ q.left = r.left - n := by
  have hleft : q.left = r.left - n := by
    rw [Request.left, hr, Request.left]
    exact (Nat.sub_sub _ _ _).symm
  have hword := h.word
  refine ⟨⟨h.build, hst.trans h.status, by rw [hm]; exact h.method, hf.trans h.filter,
    by rw [hfd]; exact h.dataFd, ?_, ?_, by omega, hp⟩, hleft⟩
  · rw [hr]
    have horder := h.order
    unfold Request.left at hn
    change r.range.start + n ≤ r.range.stop + 1
    omega
  · rw [hr, hfile]
    exact h.held

theorem taken_order {r : Request} {k : Nat}
    (h : r.bufferStart < r.bufferEnd ∨ r.bufferStart = 0 ∧ r.bufferEnd = 0)
    (hk : k ≤ r.pending.length) :
    (r.taken k).bufferStart < (r.taken k).bufferEnd ∨
      (r.taken k).bufferStart = 0 ∧ (r.taken k).bufferEnd = 0 := by
  have hlen := r.length_pending
  unfold Request.taken
  split
  · exact .inr ⟨rfl, rfl⟩
  · left
    change r.bufferStart + k < r.bufferEnd
    omega

theorem Shuffling.took {r : Request} (h : Shuffling e r) {j : Nat} (hj : j ≤ r.pending.length)
    (n : Nat) :
    Shuffling e ((r.taken j).counted n) ∧ ((r.taken j).counted n).left = r.left := by
  have horder := taken_order h.pending hj
  obtain ⟨b, i, hsame⟩ := taken_same r j
  rw [hsame] at horder ⊢
  exact h.frame e (q := Request.counted { r with bufferStart := b, bufferEnd := i } n) rfl rfl rfl
    rfl rfl (Nat.zero_le _) rfl horder

/-- `j` pending bytes have been written and counted. -/
def Conn.wrote (c : Conn) (j : Nat) (w : World) : Conn :=
  { c with
    req := (c.req.taken j).counted j
    wire := c.wire ++ c.req.pending.take j
    sys := w }

/-- With nothing pending `io_shuffle` writes nothing. -/
theorem ioShuffleWrite_idle (h : Shuffling e c.req) (hnil : c.req.pending = []) :
    exec ioShuffleWrite c = c.wrote 0 c.sys := by
  have h0 : c.req.bufferStart = 0 ∧ c.req.bufferEnd = 0 := by
    rcases h.pending with hlt | h0
    · have hlen := c.req.length_pending
      rw [hnil, List.length_nil] at hlen
      omega
    · exact h0
  have heq : c.req.bufferEnd = c.req.bufferStart := by omega
  have htaken : c.req.taken 0 = c.req.emptied := if_pos (by omega)
  simp only [ioShuffleWrite, exec_bind, exec_get, value_get, if_pos heq, if_neg h.dataFd,
    exec_modReq, exec_pure]
  rw [Conn.wrote, htaken, List.take_zero, List.append_nil]
  rfl

/-- Of what is pending its write takes at least a byte. -/
theorem ioShuffleWrite_moves (h : Shuffling e c.req) {m : Nat} {rest : List IoRes}
    (hsock : c.sys.sock = .done (m + 1) :: rest) :
    ∃ j w, j ≤ c.req.pending.length ∧ (c.req.pending ≠ [] → 0 < j) ∧
      exec ioShuffleWrite c = c.wrote j w := by
  rcases h.pending with hlt | h0
  · have hneq : ¬c.req.bufferEnd = c.req.bufferStart := by omega
    have hnlt : ¬c.req.bufferEnd < c.req.bufferStart := by omega
    have hlen := c.req.length_pending
    obtain ⟨hv, he⟩ := sockWrite_done c.req.pending hsock
    have htake : c.req.pending.take (m + 1) =
        c.req.pending.take (min (m + 1) c.req.pending.length) := List.take_eq_take_min
    have hpend : value writePending c = .ok (min (m + 1) c.req.pending.length) ∧
        exec writePending c = exec (sockWrite c.req.pending) c := by
      simp only [writePending, value_bind, exec_bind, exec_getReq, value_getReq, if_neg hnlt, hv,
        and_self]
    obtain ⟨hv', he'⟩ := retryIntr_ok hpend.1 c.sys.sock.length
    refine ⟨min (m + 1) c.req.pending.length, { c.sys with sock := rest }, Nat.min_le_right _ _,
      fun _ => by omega, ?_⟩
    simp only [ioShuffleWrite, exec_bind, exec_get, value_get, if_neg hneq, hv', he', hpend.2, he]
    rw [htake]
    rfl
  · have hnil : c.req.pending = [] := c.req.pending_eq_nil (by omega)
    exact ⟨0, c.sys, Nat.zero_le _, fun hne => absurd hnil hne, ioShuffleWrite_idle e h hnil⟩

theorem u64_left {r : Request} (horder : r.range.start ≤ r.range.stop + 1)
    (hword : r.left < 2 ^ 64) :
    u64 (r.range.stop + 2^64 - r.range.start + 1) = r.left ∧
      u64 (r.range.stop + 1 + 2^64 - r.range.start) = r.left := by
  unfold Request.left at hword ⊢
  have h : r.range.stop + 2^64 - r.range.start + 1 = (r.range.stop + 1 - r.range.start) + 2^64 := by
    omega
  have h' : r.range.stop + 1 + 2^64 - r.range.start = (r.range.stop + 1 - r.range.start) + 2^64 := by
    omega
  rw [h, h', u64, Nat.add_mod_right, Nat.mod_eq_of_lt hword]
  exact ⟨rfl, rfl⟩

theorem shuffleWant_left {r : Request} (h : Shuffling e r) :
    r.shuffleWant = min ((bufferSize : Int) - r.bufferEnd - 256) (i32 r.left) := by
  rw [Request.shuffleWant, (u64_left h.order h.word).1]

/-- A read puts the bytes `bs` behind the pending ones and moves the range on. -/
def Conn.readIn (c : Conn) (bs : List Byte) (file : List IoRes) : Conn :=
  { c with
    req := (c.req.append bs).moveStart bs.length
    sys := { c.sys with seek := c.sys.seek.tail, file := file }
    trace := c.trace ++ [⟨.fileAccess c.req.range.start c.req.shuffleWant.toNat, c.req,
      { c.sys with seek := c.sys.seek.tail }⟩] }

theorem readIn_shuffling (h : Shuffling e c.req) {bs : List Byte} (file : List IoRes)
    (hne : bs ≠ []) (hle : bs.length ≤ c.req.left) :
    Shuffling e (c.readIn bs file).req ∧
      (c.readIn bs file).req.left = c.req.left - bs.length := by
  have hlen := List.length_pos_of_ne_nil hne
  refine h.frame e (q := (c.readIn bs file).req) rfl rfl rfl rfl rfl hle rfl (.inl ?_)
  change c.req.bufferStart < c.req.bufferEnd + bs.length
  rcases h.pending with hlt | h0 <;> omega

theorem readIn_pending (h : Shuffling e c.req) (bs : List Byte) (file : List IoRes) :
    (c.readIn bs file).req.pending = c.req.pending ++ bs := by
  refine c.req.pending_append bs ?_
  rcases h.pending with hlt | h0 <;> omega

theorem fileRead_done (off k : Nat) {n : Nat} {rest : List IoRes}
    (h : c.sys.file = .done n :: rest) :
    value (fileRead off k) c = .ok ((c.req.dataFile.drop off).take (min n k)) ∧
      exec (fileRead off k) c = { c with sys := { c.sys with file := rest } } := by
  simp [fileRead, h]

/-- A read that finds something where the file holds it. -/
theorem taken_bytes {file : List Byte} {off n want : Nat} (hpos : 0 < want)
    (hheld : off + want ≤ file.length) :
    (file.drop off).take (min (n + 1) want) ≠ [] ∧
      ((file.drop off).take (min (n + 1) want)).length ≤ want := by
  have hlen : ((file.drop off).take (min (n + 1) want)).length = min (n + 1) want := by
    rw [List.length_take, List.length_drop]
    omega
  refine ⟨fun hnil => ?_, by omega⟩
  rw [hnil, List.length_nil] at hlen
  omega

/-- With room in the buffer and, for the code, something left of the range, it reads at
least a byte. -/
theorem ioShuffle_reads (h : Shuffling e c.req) (hwant : 0 < c.req.shuffleWant)
    (hle : c.req.shuffleWant.toNat ≤ c.req.left) (hseek : c.sys.seek.headD true = true) {n : Nat}
    {rest : List IoRes} (hfile : c.sys.file = .done (n + 1) :: rest) :
    ∃ bs, bs ≠ [] ∧ bs.length ≤ c.req.shuffleWant.toNat ∧
      exec (ioShuffle e) c =
        if (c.readIn bs rest).req.left = 0 then exec (completeResponse e) (c.readIn bs rest)
        else exec ioShuffleWrite (c.readIn bs rest) := by
  have hheld : c.req.range.start + c.req.shuffleWant.toNat ≤ c.req.dataFile.length := by
    have hend := h.held
    have horder := h.order
    unfold Request.left at hle
    omega
  obtain ⟨hne, hlen⟩ := taken_bytes (n := n) (by omega : 0 < c.req.shuffleWant.toNat) hheld
  have hgo : c.req.shuffleWant > 0 ∧ c.req.dataFd ≠ 0 := ⟨hwant, h.dataFd⟩
  have hseek' : value seekOk c = true := hseek
  obtain ⟨hv, he⟩ := fileRead_done (c := exec (mark (.fileAccess c.req.range.start
    c.req.shuffleWant.toNat)) (exec seekOk c)) c.req.range.start c.req.shuffleWant.toNat hfile
  obtain ⟨hv', he'⟩ := retryIntr_ok hv c.sys.file.length
  have hreq : (exec (mark (.fileAccess c.req.range.start c.req.shuffleWant.toNat))
      (exec seekOk c)).req = c.req := rfl
  rw [hreq] at hv'
  refine ⟨_, hne, hlen, ?_⟩
  simp only [ioShuffle, exec_bind, exec_get, value_get, if_neg h.method, if_pos hgo,
    hseek', if_true, hv', he', he]
  generalize hbs : (c.req.dataFile.drop c.req.range.start).take
    (min (n + 1) c.req.shuffleWant.toNat) = bs at hne hlen ⊢
  cases bs with
  | nil => exact absurd rfl hne
  | cons b bs =>
    have hread : exec (modReq fun r => (r.append (b :: bs)).moveStart (b :: bs).length)
        { exec (mark (.fileAccess c.req.range.start c.req.shuffleWant.toNat)) (exec seekOk c) with
          sys := { (exec (mark (.fileAccess c.req.range.start c.req.shuffleWant.toNat))
            (exec seekOk c)).sys with file := rest } } = c.readIn (b :: bs) rest := rfl
    have hmoved := (readIn_shuffling e h rest hne (hlen.trans hle)).1
    have hspent := (u64_left hmoved.order hmoved.word).2
    simp only [exec_ite, hread, exec_getReq, value_getReq, hspent]

end Calls

section Turn

variable (e : Config) {c : Conn}

theorem completeResponse_passed (c : Conn) :
    Passed (fun _ => True) c.popRange (exec (completeResponse e) c) := by
  have hputs : ∀ (ps : List Piece) (d : Conn), Passed (fun _ => True) d (exec (puts ps) d) :=
    fun ps d => (puts_works (T := fun _ => True) trivial ps d).passed
  by_cases hm : c.req.multipart
  · by_cases hr : c.req.ranges.tail = []
    · rw [(completeResponse_last e hm hr).2]
      have hflush : (exec (endParts e) c.popRange).trace =
          (exec (puts printPartialContentDone) c.popRange).trace :=
        (reqFlush_idles e (exec (setStatus .done)
          (exec (puts printPartialContentDone) c.popRange))).trace
      exact (hputs printPartialContentDone c.popRange).trans (.same hflush)
    · rw [(completeResponse_next e hm hr).2]
      exact hputs _ _
  · rw [(completeResponse_single e hm).2]
    exact .same rfl

theorem completeResponse_completes (c : Conn) : (exec (completeResponse e) c).hasCompleted = true ∧
    ∀ v ∈ c.trace, v ∈ (exec (completeResponse e) c).trace := by
  obtain ⟨vs, ht, -⟩ := completeResponse_passed e c
  have hpop : c.popRange.trace = c.trace ++ [⟨.completeResponse, c.req, c.sys⟩] := rfl
  rw [Conn.hasCompleted, ht, hpop]
  constructor
  · simp
  · intro v hv
    exact List.mem_append_left _ (List.mem_append_left _ hv)

/-- A turn of the transfer is the flush and then `io_shuffle`. -/
theorem serveTurn_shuffles (h : Shuffling e c.req) {n k : Nat} {rest : List IoRes}
    (hsock : c.sys.sock = .done (n + 1) :: .done (k + 1) :: rest) :
    value (topFlush e) c = 1 ∧ exec (serveTurn e) c = exec (ioShuffle e) (exec (topFlush e) c) := by
  obtain ⟨hv, j, m, sock, hj, -, he⟩ := topFlush_took e h hsock
  have hst := (h.took e hj 0).1.status
  have hst' : (c.took j (.done (m + 1) :: sock)).req.status = .ioshuffle := hst
  refine ⟨hv, ?_⟩
  simp only [serveTurn, exec_bind, hv, if_true, processStatus, exec_getReq, value_getReq, he, hst',
    h.build, Bool.false_eq_true, if_false]

theorem i32_le_sub {n : Nat} (h : 2 ^ 31 ≤ n) : i32 n ≤ n - 2 ^ 32 := by
  simp only [i32, Int.bmod]
  omega

/-- What is left of the range, and whether the code takes it for something to read. -/
theorem shuffleWant_stuck {r : Request} (h : Shuffling e r) (hl : r.left = 0 ∨ 2 ^ 31 ≤ r.left)
    (hwant : 0 < r.shuffleWant) : 2 ^ 32 + r.shuffleWant.toNat ≤ r.left := by
  rw [shuffleWant_left e h] at hwant ⊢
  rcases hl with h0 | hge
  · have hzero : i32 r.left = 0 := by rw [h0]; rfl
    omega
  · have hle := i32_le_sub hge
    omega

theorem shuffleWant_short {r : Request} (h : Shuffling e r) (hlt : r.left < 2 ^ 31) :
    r.shuffleWant.toNat ≤ r.left ∧ (0 < r.left → r.shuffleWant ≤ 0 → r.bufferEnd ≠ 0) := by
  rw [shuffleWant_left e h, i32_of_lt hlt]
  simp only [bufferSize]
  omega

/-- The connection as `io_shuffle` finds it. -/
structure AtShuffle (e : Config) (c d : Conn) : Prop where
  called : value (topFlush e) c = 1 ∧ exec (topFlush e) c = d
  run : exec (serveTurn e) c = exec (ioShuffle e) d
  shuffling : Shuffling e d.req
  left : d.req.left = c.req.left
  pending : d.req.pending.length ≤ c.req.pending.length
  trace : d.trace = []
  seek : d.sys.seek.headD true = true
  file : ∃ n rest, d.sys.file = .done (n + 1) :: rest
  sock : ∃ n rest, d.sys.sock = .done (n + 1) :: rest

theorem atShuffle (h : Shuffling e c.req) (ht : c.trace = []) (hg : Generous c.sys) :
    ∃ d, AtShuffle e c d := by
  obtain ⟨n, k, rest, hsock⟩ := hg.sock
  obtain ⟨hv, hrun⟩ := serveTurn_shuffles e h hsock
  obtain ⟨-, j, m, sock, hj, -, he⟩ := topFlush_took e h hsock
  obtain ⟨hd, hleft⟩ := h.took e hj 0
  rw [he] at hrun
  have hpend : (c.req.taken j).pending = c.req.pending.drop j := by
    refine c.req.pending_taken_le ?_ hj
    rcases h.pending with hlt | h0 <;> omega
  refine ⟨_, ⟨hv, he⟩, hrun, hd, hleft, ?_, ht, hg.seek, hg.file, m, sock, rfl⟩
  change (c.req.taken j).pending.length ≤ _
  rw [hpend, List.length_drop]
  exact Nat.sub_le _ _

/-- What `io_shuffle` makes of it: a read and then the end of the range or a write, or only
a write. -/
inductive Shuffles (e : Config) (d d' : Conn) : Prop where
  | completes (bs : List Byte) (file : List IoRes) (hne : bs ≠ [])
      (hlen : bs.length ≤ d.req.shuffleWant.toNat) (h0 : (d.readIn bs file).req.left = 0)
      (he : d' = exec (completeResponse e) (d.readIn bs file))
  | reads (bs : List Byte) (file : List IoRes) (hne : bs ≠ [])
      (hlen : bs.length ≤ d.req.shuffleWant.toNat) (h0 : (d.readIn bs file).req.left ≠ 0)
      (j : Nat) (w : World) (hj : j ≤ (d.readIn bs file).req.pending.length)
      (he : d' = (d.readIn bs file).wrote j w)
  | writes (hwant : d.req.shuffleWant ≤ 0) (j : Nat) (w : World) (hj : j ≤ d.req.pending.length)
      (hpos : d.req.pending ≠ [] → 0 < j) (he : d' = d.wrote j w)

theorem ioShuffle_shuffles {d : Conn} (h : AtShuffle e c d)
    (hle : 0 < d.req.shuffleWant → d.req.shuffleWant.toNat ≤ d.req.left) :
    Shuffles e d (exec (ioShuffle e) d) := by
  obtain ⟨n, rest, hfile⟩ := h.file
  obtain ⟨m, sock, hsock⟩ := h.sock
  by_cases hwant : 0 < d.req.shuffleWant
  · obtain ⟨bs, hne, hlen, hio⟩ := ioShuffle_reads e h.shuffling hwant (hle hwant) h.seek hfile
    by_cases h0 : (d.readIn bs rest).req.left = 0
    · rw [if_pos h0] at hio
      exact .completes bs rest hne hlen h0 hio
    · obtain ⟨hr, -⟩ := readIn_shuffling e h.shuffling rest hne (hlen.trans (hle hwant))
      obtain ⟨j, w, hj, -, hwrite⟩ := ioShuffleWrite_moves e hr hsock
      rw [if_neg h0, hwrite] at hio
      exact .reads bs rest hne hlen h0 j w hj hio
  · have hno : ¬(d.req.shuffleWant > 0 ∧ d.req.dataFd ≠ 0) := fun hc => hwant hc.1
    obtain ⟨j, w, hj, hpos, hwrite⟩ := ioShuffleWrite_moves e h.shuffling hsock
    refine .writes (Int.not_lt.mp hwant) j w hj hpos ?_
    simp only [ioShuffle, exec_bind, exec_get, value_get, if_neg h.shuffling.method, if_neg hno,
      hwrite]

/-- A turn that begins with nothing left, or with 2^31 bytes or more, leaves it so. -/
theorem stuckTurn (h : Shuffling e c.req) (ht : c.trace = []) (hg : Generous c.sys)
    (hl : c.req.left = 0 ∨ 2 ^ 31 ≤ c.req.left) :
    (exec (serveTurn e) c).hasCompleted = false ∧ Shuffling e (exec (serveTurn e) c).req ∧
      ((exec (serveTurn e) c).req.left = 0 ∨ 2 ^ 31 ≤ (exec (serveTurn e) c).req.left) := by
  obtain ⟨d, hd⟩ := atShuffle e h ht hg
  rw [← hd.left] at hl
  have hfar := shuffleWant_stuck e hd.shuffling hl
  have hs := ioShuffle_shuffles e hd fun hwant => by
    have := hfar hwant
    omega
  have hwant : ∀ bs : List Byte, bs ≠ [] → bs.length ≤ d.req.shuffleWant.toNat →
      0 < d.req.shuffleWant := by
    intro bs hne hlen
    have hpos := List.length_pos_of_ne_nil hne
    omega
  rw [hd.run]
  generalize exec (ioShuffle e) d = d' at hs ⊢
  cases hs with
  | completes bs file hne hlen h0 he =>
    have hle := hfar (hwant bs hne hlen)
    have hrest := (readIn_shuffling e hd.shuffling file hne (by omega)).2
    omega
  | reads bs file hne hlen h0 j w hj he =>
    have hle := hfar (hwant bs hne hlen)
    obtain ⟨hr, hrest⟩ := readIn_shuffling e hd.shuffling file hne (by omega)
    obtain ⟨hend, hendleft⟩ := hr.took e hj j
    rw [he]
    refine ⟨?_, hend, .inr ?_⟩
    · change List.any (d.trace ++ _) _ = false
      rw [hd.trace]
      rfl
    · change 2 ^ 31 ≤ (((d.readIn bs file).req.taken j).counted j).left
      omega
  | writes hno j w hj hpos he =>
    obtain ⟨hend, hendleft⟩ := hd.shuffling.took e hj j
    rw [he]
    refine ⟨?_, hend, ?_⟩
    · change List.any d.trace _ = false
      rw [hd.trace]
      rfl
    · change ((d.req.taken j).counted j).left = 0 ∨ 2 ^ 31 ≤ ((d.req.taken j).counted j).left
      rwa [hendleft]

/-- What has been written is no longer pending. -/
theorem wrote_pending {d : Conn} (h : Shuffling e d.req) {j : Nat} (hj : j ≤ d.req.pending.length)
    (w : World) : (d.wrote j w).req.pending.length = d.req.pending.length - j ∧
      (d.wrote j w).wire.length = d.wire.length + j := by
  have hpend : (d.wrote j w).req.pending = d.req.pending.drop j := by
    refine d.req.pending_taken_le ?_ hj
    rcases h.pending with hlt | h0 <;> omega
  have hwire : (d.wrote j w).wire = d.wire ++ d.req.pending.take j := rfl
  rw [hpend, hwire, List.length_drop, List.length_append, List.length_take, Nat.min_eq_left hj]
  exact ⟨rfl, rfl⟩

/-- A turn with less than 2^31 bytes left, but some. -/
theorem movingTurn (h : Shuffling e c.req) (ht : c.trace = []) (hg : Generous c.sys)
    (hpos : 0 < c.req.left) (hlt : c.req.left < 2 ^ 31) :
    Moves e c ∧ ((exec (serveTurn e) c).hasCompleted = true ∨
      Shuffling e (exec (serveTurn e) c).req ∧ 0 < (exec (serveTurn e) c).req.left ∧
        (exec (serveTurn e) c).req.left < 2 ^ 31) := by
  obtain ⟨d, hd⟩ := atShuffle e h ht hg
  have hpend := hd.pending
  have hcalled : value (topFlush e) c = 1 ∧
      exec (serveTurn e) c = exec (ioShuffle e) (exec (topFlush e) c) := by
    rw [hd.called.2]
    exact ⟨hd.called.1, hd.run⟩
  rw [← hd.left] at hpos hlt
  obtain ⟨hshort, hroom⟩ := shuffleWant_short e hd.shuffling hlt
  have hs := ioShuffle_shuffles e hd fun _ => hshort
  rw [← hd.run] at hs
  have hread : ∀ (bs : List Byte) (file : List IoRes), bs ≠ [] →
      bs.length ≤ d.req.shuffleWant.toNat →
      ∃ v ∈ (d.readIn bs file).trace, ∃ off n, v.site = .fileAccess off (n + 1) := by
    intro bs file hne hlen
    have hbs := List.length_pos_of_ne_nil hne
    refine ⟨_, List.mem_append_right _ (List.mem_singleton_self _), d.req.range.start,
      d.req.shuffleWant.toNat - 1, ?_⟩
    change Site.fileAccess _ _ = _
    rw [Nat.sub_add_cancel (by omega)]
  have htop : (exec (topFlush e) c).wire = d.wire := by rw [hd.called.2]
  have hmove : c.req.toMove = d.req.left + (d.req.left + c.req.pending.length) := by
    rw [Request.toMove, ← hd.left]
  cases hs with
  | completes bs file hne hlen h0 he =>
    obtain ⟨hdone, hkeep⟩ := completeResponse_completes e (d.readIn bs file)
    rw [← he] at hdone hkeep
    obtain ⟨v, hv, hsite⟩ := hread bs file hne hlen
    exact ⟨⟨hcalled, .inl ⟨v, hkeep v hv, hsite⟩, .inl hdone⟩, .inl hdone⟩
  | reads bs file hne hlen h0 j w hj he =>
    have hbs := List.length_pos_of_ne_nil hne
    obtain ⟨hr, hrest⟩ := readIn_shuffling e hd.shuffling file hne (hlen.trans hshort)
    obtain ⟨hend, hendleft⟩ := hr.took e hj j
    obtain ⟨hleft, -⟩ := wrote_pending e hr hj w
    rw [readIn_pending e hd.shuffling, List.length_append] at hleft
    have hsame : ((d.readIn bs file).wrote j w).req.left = (d.readIn bs file).req.left := hendleft
    refine ⟨⟨hcalled, .inl ?_, .inr ?_⟩, .inr ?_⟩
    · rw [he]
      exact hread bs file hne hlen
    · rw [he, hmove, Request.toMove, hsame, hleft, hrest]
      omega
    · rw [he]
      refine ⟨hend, ?_⟩
      rw [hsame]
      omega
  | writes hno j w hj hjpos he =>
    obtain ⟨hend, hendleft⟩ := hd.shuffling.took e hj j
    obtain ⟨hleft, hwire⟩ := wrote_pending e hd.shuffling hj w
    have hsame : (d.wrote j w).req.left = d.req.left := hendleft
    have hsome : 0 < j := by
      refine hjpos fun hnil => hroom hpos hno ?_
      have hlen := d.req.length_pending
      rw [hnil, List.length_nil] at hlen
      rcases hd.shuffling.pending with hlt' | h0 <;> omega
    refine ⟨⟨hcalled, .inr ?_, .inr ?_⟩, .inr ?_⟩
    · rw [he, htop, hwire]
      omega
    · rw [he, hmove, Request.toMove, hsame, hleft]
      omega
    · rw [he]
      refine ⟨hend, ?_⟩
      rw [hsame]
      exact ⟨hpos, hlt⟩

theorem shuffleTurn_open {s : Shuffled} (h : s.finished = false) (w : World) :
    shuffleTurn e s w =
      ⟨exec (serveTurn e) (s.conn.turnIn w), (exec (serveTurn e) (s.conn.turnIn w)).hasCompleted⟩ := by
  rw [shuffleTurn, h]
  rfl

theorem shuffleTurn_finished {s : Shuffled} (h : s.finished = true) (w : World) :
    shuffleTurn e s w = s := if_pos h

/-- The transfer is complete, or some bytes are left and less than 2^31. -/
def Shuffled.onTrack (e : Config) (s : Shuffled) : Prop :=
  s.finished = true ∨ Shuffling e s.conn.req ∧ 0 < s.conn.req.left ∧ s.conn.req.left < 2 ^ 31

theorem onTrack_step (s : Shuffled) (w : World) (h : s.onTrack e) (hg : Generous w) :
    (shuffleTurn e s w).onTrack e ∧ (s.finished = true ∨ Moves e (s.conn.turnIn w)) := by
  cases hf : s.finished with
  | true => exact ⟨by rwa [shuffleTurn_finished e hf], .inl rfl⟩
  | false =>
    obtain ⟨hs, hpos, hlt⟩ := h.resolve_left (by rw [hf]; decide)
    obtain ⟨hmoves, hnext⟩ := movingTurn e (c := s.conn.turnIn w) hs rfl hg hpos hlt
    rw [shuffleTurn_open e hf]
    exact ⟨hnext, .inr hmoves⟩

theorem onTrack_lowers (s : Shuffled) (w : World) (h : s.onTrack e) (hg : Generous w) :
    (shuffleTurn e s w).finished = true ∨
      (shuffleTurn e s w).onTrack e ∧ (shuffleTurn e s w).conn.req.toMove < s.conn.req.toMove := by
  obtain ⟨hnext, hmoves⟩ := onTrack_step e s w h hg
  cases hf : s.finished with
  | true =>
    left
    rwa [shuffleTurn_finished e hf]
  | false =>
    have hless := (hmoves.resolve_left (by rw [hf]; decide)).less
    rw [shuffleTurn_open e hf] at hnext ⊢
    exact hless.imp (fun hdone => hdone) fun hlt => ⟨hnext, hlt⟩

/-- Nothing is left from the start, or what is left never gets below 2^31. -/
def Shuffled.stuck (e : Config) (s : Shuffled) : Prop :=
  s.finished = false ∧ Shuffling e s.conn.req ∧
    (s.conn.req.left = 0 ∨ 2 ^ 31 ≤ s.conn.req.left)

theorem stuck_step (s : Shuffled) (w : World) (h : s.stuck e) (hg : Generous w) :
    (shuffleTurn e s w).stuck e := by
  obtain ⟨hf, hs, hl⟩ := h
  rw [shuffleTurn_open e hf]
  exact stuckTurn e (c := s.conn.turnIn w) hs rfl hg hl

/-- A world whose calls move one byte each. -/
def oneByteEach : World := { file := [.done 1], sock := [.done 1, .done 1] }

theorem oneByteEach_generous : Generous oneByteEach := ⟨rfl, ⟨0, [], rfl⟩, 0, 0, [], rfl⟩

theorem stuck_not_moving (c : Conn) (h : Shuffled.stuck e ⟨c, false⟩) : ¬KeepsMoving e c := by
  rintro ⟨-, n, hn⟩
  have hgen : ∀ w ∈ List.replicate n oneByteEach, Generous w := by
    intro w hw
    rw [List.eq_of_mem_replicate hw]
    exact oneByteEach_generous
  have hdone := hn _ hgen (by rw [List.length_replicate])
  have hstuck := Run.invariant_final (stuck_step e) h
    (Run.allSteps_mem _ hgen)
  rw [hstuck.1] at hdone
  exact absurd hdone (by decide)

/-- The transfer keeps moving exactly when the range has some bytes and less than 2^31. -/
theorem keepsMoving_iff (c : Conn) (h : Shuffling e c.req) :
    KeepsMoving e c ↔ 0 < c.req.left ∧ c.req.left < 2 ^ 31 := by
  constructor
  · intro hmoving
    by_contra hnot
    have hl : c.req.left = 0 ∨ 2 ^ 31 ≤ c.req.left := by omega
    exact stuck_not_moving e c ⟨rfl, h, hl⟩ hmoving
  · rintro ⟨hpos, hlt⟩
    have h0 : Shuffled.onTrack e ⟨c, false⟩ := .inr ⟨h, hpos, hlt⟩
    refine ⟨fun ws hws => ?_, c.req.toMove + 1, fun ws hws hlen => ?_⟩
    · exact Run.allSteps (fun s w hs hw => (onTrack_step e s w hs hw).1)
        (fun s w hs hw => (onTrack_step e s w hs hw).2) h0 (Run.allSteps_mem _ hws)
    · exact Run.reaches (·.finished = true) (·.conn.req.toMove) (onTrack_lowers e)
        (fun s w hf => by rwa [shuffleTurn_finished e hf]) h0 hws (Nat.lt_of_succ_le hlen)

end Turn

/-- A GET of a whole file, its header sent. -/
def wholeFile (n : Nat) : Conn :=
  { req := {
      status := .ioshuffle, method := .get, dataFd := 7, dataFile := List.replicate n 65
      filesize := n, ranges := [⟨0, n - 1⟩] } }

theorem wholeFile_shuffling {n : Nat} (h0 : 0 < n) (hn : n < 2 ^ 64) :
    Shuffling {} (wholeFile n).req where
  build := rfl
  status := rfl
  method := nofun
  filter := rfl
  dataFd := nofun
  order := Nat.zero_le _
  held := by
    change n - 1 < (List.replicate n 65).length
    rw [List.length_replicate]
    exact Nat.sub_lt h0 Nat.one_pos
  word := by
    change n - 1 + 1 - 0 < 2 ^ 64
    omega
  pending := .inr ⟨rfl, rfl⟩

theorem keepsMoving_threeBytes : KeepsMoving {} (wholeFile 3) :=
  (keepsMoving_iff {} (wholeFile 3) (wholeFile_shuffling (by decide) (by decide))).mpr
    ⟨by decide, by decide⟩

/-- A file of two gigabytes is never read. -/
theorem twoGigabytes_stuck : ¬KeepsMoving {} (wholeFile (2 ^ 31)) :=
  stuck_not_moving {} (wholeFile (2 ^ 31))
    ⟨rfl, wholeFile_shuffling (by decide) (by decide), .inr (by decide)⟩

end Crotalus
