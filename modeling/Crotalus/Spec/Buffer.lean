import Crotalus.Server.Buffer
import Crotalus.Spec.Zlib

namespace Crotalus

open Stateful ByteMem

theorem Request.length_pending (r : Request) :
    r.pending.length = r.bufferEnd - r.bufferStart := by simp [Request.pending]

theorem Request.pending_eq_nil (r : Request) (h : r.bufferEnd ≤ r.bufferStart) :
    r.pending = [] := by
  rw [← List.length_eq_zero_iff, r.length_pending]
  omega

@[simp] theorem Request.pending_emptied (r : Request) : r.emptied.pending = [] :=
  Request.pending_eq_nil _ (Nat.le_refl 0)

theorem Request.taken_all (r : Request) (h : r.bufferStart ≤ r.bufferEnd) :
    r.taken r.pending.length = r.emptied := by
  have hlen := r.length_pending
  exact if_pos (by omega)

theorem Request.taken_part (r : Request) {n : Nat} (h : n < r.pending.length) :
    r.taken n = { r with bufferStart := r.bufferStart + n } := by
  have hlen := r.length_pending
  exact if_neg (by omega)

/-- The first `n` pending bytes are gone. -/
theorem Request.pending_taken (r : Request) {n : Nat} (h : r.bufferStart ≤ r.bufferEnd) :
    (r.taken (min n r.pending.length)).pending = r.pending.drop n := by
  by_cases hn : n < r.pending.length
  · rw [Nat.min_eq_left (by omega), r.taken_part hn]
    have hlen := r.length_pending
    unfold Request.pending
    rw [slice_drop _ _ _ _ (by omega)]
    congr 1
    change r.bufferEnd - (r.bufferStart + n) = r.bufferEnd - r.bufferStart - n
    omega
  · rw [Nat.min_eq_right (by omega), r.taken_all h, Request.pending_emptied,
      List.drop_eq_nil_of_le (by omega)]

@[simp] theorem Request.bufferEnd_taken_part (r : Request) {n : Nat} (h : n < r.pending.length) :
    (r.taken n).bufferEnd = r.bufferEnd := by rw [r.taken_part h]

theorem Request.bufferEnd_taken_none (r : Request) (h : r.bufferStart ≠ r.bufferEnd) :
    (r.taken 0).bufferEnd = r.bufferEnd := by
  have h' : ¬r.bufferStart + 0 = r.bufferEnd := h
  rw [Request.taken, if_neg h']

theorem Request.pending_append (r : Request) (msg : Text) (h : r.bufferStart ≤ r.bufferEnd) :
    (r.append msg).pending = r.pending ++ msg := slice_store_append _ _ _ _ h

/-! What one flush does, by the result of its write. -/

section Flush

variable (e : Config) {c : Conn}

/-- A status past DONE: nothing is sent. -/
theorem reqFlush_over (h : c.req.status.over = true) :
    value (reqFlush e) c = -2 ∧ exec (reqFlush e) c = c := by
  simp [reqFlush, h]

theorem reqFlush_empty (h : c.req.status.over = false) (he : c.req.bufferEnd = c.req.bufferStart) :
    value (reqFlush e) c = 0 ∧ exec (reqFlush e) c = { c with req := c.req.emptied } := by
  simp [reqFlush, h, he, flushed, Request.taken, Request.emptied]

/-- A filter that cannot take the bytes loses the connection. -/
theorem reqFlush_filterFails {f : FilterKind} (hs : c.req.status.over = false)
    (hf : c.req.filter = some f) (hne : c.req.bufferEnd ≠ c.req.bufferStart)
    (hw : value (mimeFilterWrite e f) c = -2 ∧ exec (mimeFilterWrite e f) c = c) :
    value (reqFlush e) c = -2 ∧
      exec (reqFlush e) c = exec (setStatus .dead) { c with req := c.req.emptied } := by
  obtain ⟨hv, he⟩ := hw
  simp [reqFlush, hs, hf, hne, hv, he, flushFailed]

/-- The compressor is missing or fails: nothing is consumed. -/
theorem mimeFilterWrite_stuck (hne : c.req.bufferStart ≠ c.req.bufferEnd)
    (hz : (c.req.zlib.bind fun hist => e.deflate (hist ++ [c.req.pending])) = none) :
    value (mimeFilterWrite e .deflate) c = -2 ∧ exec (mimeFilterWrite e .deflate) c = c := by
  cases hh : c.req.zlib with
  | none => simp [mimeFilterWrite, hne, hh]
  | some hist =>
    have hd : e.deflate (hist ++ [c.req.pending]) = none := by simpa [hh] using hz
    simp [mimeFilterWrite, hne, hh, hd]

def Request.withZlib (r : Request) (z : Option (List (List Byte))) : Request :=
  { r with zlib := z }

/-- The connection whose compressor has been fed the pending bytes. -/
def Conn.fed (c : Conn) (hist : List (List Byte)) : Conn :=
  { c with req := c.req.withZlib (some (hist ++ [c.req.pending])) }

/-- The compressor consumes every pending byte, whatever the socket accepts of its output. -/
theorem reqFlush_compressed {hist outs : List (List Byte)} (hs : c.req.status.over = false)
    (hf : c.req.filter = some .deflate) (hne : c.req.bufferEnd ≠ c.req.bufferStart)
    (hz : c.req.zlib = some hist) (hd : e.deflate (hist ++ [c.req.pending]) = some outs) :
    ∃ d, exec (reqFlush e) c =
        exec (modReq fun r => r.taken c.req.pending.length)
          ((c.fed hist).sends (chunksSent outs c.sys.sock) d) ∧
      value (reqFlush e) c =
        (((c.fed hist).req.taken c.req.pending.length).bufferEnd : Nat) := by
  have hne' : c.req.bufferStart ≠ c.req.bufferEnd := Ne.symm hne
  have hpos : ¬((c.req.pending.length : Int) < 0) := by omega
  obtain ⟨d, hw⟩ := writeChunks_sends outs (c.fed hist)
  have hwrite : value (mimeFilterWrite e .deflate) c = c.req.pending.length ∧
      exec (mimeFilterWrite e .deflate) c = (c.fed hist).sends (chunksSent outs c.sys.sock) d := by
    constructor
    · simp [mimeFilterWrite, hne', hz, hd]
    · have hrun : exec (mimeFilterWrite e .deflate) c = exec (writeChunks outs) (c.fed hist) := by
        simp only [mimeFilterWrite, exec_bind, exec_getReq, value_getReq, if_neg hne', hz, hd]
        rfl
      rw [hrun, hw]
      rfl
  refine ⟨d, ?_, ?_⟩
  · simp only [reqFlush, exec_bind, value_getReq, exec_getReq, hs, if_neg hne, hf,
      Bool.false_eq_true, if_false, hwrite, if_neg hpos]
    rfl
  · simp only [reqFlush, value_bind, value_getReq, exec_getReq, hs, if_neg hne, hf,
      Bool.false_eq_true, if_false, hwrite, if_neg hpos]
    rfl

variable (hs : c.req.status.over = false) (hf : c.req.filter = none)
include hs hf

/-- Indices that have crossed are a failure. -/
theorem reqFlush_crossed (hlt : c.req.bufferEnd < c.req.bufferStart) :
    value (reqFlush e) c = -2 ∧
      exec (reqFlush e) c = exec (setStatus .dead) { c with req := c.req.emptied } := by
  have hne : c.req.bufferEnd ≠ c.req.bufferStart := by omega
  simp [reqFlush, writePending, hs, hf, hlt, hne, flushFailed]

variable (hlt : c.req.bufferStart < c.req.bufferEnd)
include hlt

theorem reqFlush_done {n : Nat} {rest : List IoRes} (h : c.sys.sock = .done n :: rest) :
    value (reqFlush e) c = ((c.req.taken (min n c.req.pending.length)).bufferEnd : Nat) ∧
      exec (reqFlush e) c =
        { c with
          req := c.req.taken (min n c.req.pending.length)
          wire := c.wire ++ c.req.pending.take n
          sys := { c.sys with sock := rest } } := by
  have hne : c.req.bufferEnd ≠ c.req.bufferStart := by omega
  have hnlt : ¬c.req.bufferEnd < c.req.bufferStart := by omega
  have hsock := sockWrite_done c.req.pending h
  simp [reqFlush, writePending, hs, hf, hne, hnlt, hsock, flushed]

theorem reqFlush_blocked (h : wouldBlock c.sys.sock = true) :
    value (reqFlush e) c = -1 ∧
      exec (reqFlush e) c =
        { c with
          waits := some (c.req.fd, .write)
          sys := { c.sys with sock := c.sys.sock.tail } } := by
  have hne : c.req.bufferEnd ≠ c.req.bufferStart := by omega
  have hnlt : ¬c.req.bufferEnd < c.req.bufferStart := by omega
  cases hk : c.sys.sock with
  | nil =>
    have hsock := sockWrite_nil c.req.pending hk
    simp [reqFlush, writePending, hs, hf, hne, hnlt, hsock]
    rw [← hk]
  | cons res rest =>
    cases res with
    | done n => simp [wouldBlock, hk] at h
    | fail err =>
      have herr : err = .again := by simpa [wouldBlock, hk] using h
      subst herr
      have hsock := sockWrite_fail c.req.pending hk
      simp [reqFlush, writePending, hs, hf, hne, hnlt, hsock, Conn.waiting]

theorem reqFlush_failed {err : Errno} {rest : List IoRes} (h : c.sys.sock = .fail err :: rest)
    (herr : err ≠ .again) :
    value (reqFlush e) c = -2 ∧
      exec (reqFlush e) c =
        exec (setStatus .dead)
          { c with req := c.req.emptied, sys := { c.sys with sock := rest } } := by
  have hne : c.req.bufferEnd ≠ c.req.bufferStart := by omega
  have hnlt : ¬c.req.bufferEnd < c.req.bufferStart := by omega
  have hsock := sockWrite_fail c.req.pending h
  simp [reqFlush, writePending, hs, hf, hne, hnlt, hsock, Conn.waiting, herr, flushFailed]

end Flush

/-- What a flush without filter makes of `c`: it takes some of the pending bytes, would block,
or loses the connection. -/
inductive Flushed (c c' : Conn) : Int → Prop where
  | took (k : Nat) (w : World) (hk : k ≤ c.req.pending.length)
      (hshort : k < c.req.pending.length → shortWrite c.req.pending c.sys.sock = true)
      (he : c' = { c with
        req := c.req.taken k, wire := c.wire ++ c.req.pending.take k, sys := w }) :
      Flushed c c' ((c.req.taken k).bufferEnd : Nat)
  | blocked (w : World)
      (he : c' = { c with waits := some (c.req.fd, .write), sys := w }) : Flushed c c' (-1)
  | failed (w : World)
      (he : c' = exec (setStatus .dead) { c with req := c.req.emptied, sys := w }) :
      Flushed c c' (-2)

theorem reqFlush_outcome (e : Config) {c : Conn} (hs : c.req.status.over = false)
    (hf : c.req.filter = none) (hle : c.req.bufferStart ≤ c.req.bufferEnd) :
    Flushed c (exec (reqFlush e) c) (value (reqFlush e) c) := by
  rcases Nat.eq_or_lt_of_le hle with heq | hlt
  · obtain ⟨hv, he⟩ := reqFlush_empty e hs heq.symm
    have hnil : c.req.pending = [] := c.req.pending_eq_nil (by omega)
    have htaken : c.req.taken 0 = c.req.emptied := if_pos heq
    have h : Flushed c (exec (reqFlush e) c) ((c.req.taken 0).bufferEnd : Nat) :=
      .took 0 c.sys (Nat.zero_le _) (by simp [hnil])
        (by rw [he, htaken, List.take_zero, List.append_nil])
    rw [htaken] at h
    rw [hv]
    exact h
  · match hk : c.sys.sock with
    | [] =>
      obtain ⟨hv, he⟩ := reqFlush_blocked e hs hf hlt (by rw [hk]; rfl)
      rw [hv]
      exact .blocked _ he
    | .fail err :: rest =>
      by_cases herr : err = .again
      · obtain ⟨hv, he⟩ := reqFlush_blocked e hs hf hlt (by simp [hk, wouldBlock, herr])
        rw [hv]
        exact .blocked _ he
      · obtain ⟨hv, he⟩ := reqFlush_failed e hs hf hlt hk herr
        rw [hv]
        exact .failed _ he
    | .done n :: rest =>
      obtain ⟨hv, he⟩ := reqFlush_done e hs hf hlt hk
      have htake : c.req.pending.take (min n c.req.pending.length) = c.req.pending.take n := by
        rw [← List.take_take, List.take_length]
      rw [hv]
      refine .took (min n c.req.pending.length) _ (Nat.min_le_right _ _) ?_ (htake ▸ he)
      intro hlt'
      exact shortWrite_iff.mpr ⟨n, rest, hk, by omega⟩

theorem Request.pending_taken_le (r : Request) {k : Nat} (h : r.bufferStart ≤ r.bufferEnd)
    (hk : k ≤ r.pending.length) : (r.taken k).pending = r.pending.drop k := by
  have := r.pending_taken (n := k) h
  rwa [Nat.min_eq_left hk] at this

theorem Request.taken_le (r : Request) {k : Nat} (h : r.bufferStart ≤ r.bufferEnd)
    (hk : k ≤ r.pending.length) : (r.taken k).bufferStart ≤ (r.taken k).bufferEnd := by
  have hlen := r.length_pending
  unfold Request.taken
  split
  · exact Nat.le_refl 0
  · change r.bufferStart + k ≤ r.bufferEnd
    omega

theorem writePending_wrote (k : Nat) (c : Conn) (hle : c.req.bufferStart ≤ c.req.bufferEnd) :
    Wrote c.req.pending c (value (retryIntr writePending k) c)
      (exec (retryIntr writePending k) c) := by
  refine retryIntr_spec
    (R := fun c res c' => c.req.bufferStart ≤ c.req.bufferEnd → Wrote c.req.pending c res c')
    ?_ ?_ k c hle
  · intro c hle
    have hlt : ¬c.req.bufferEnd < c.req.bufferStart := by omega
    simp only [writePending, value_bind, exec_bind, exec_getReq, value_getReq, if_neg hlt]
    exact sockWrite_wrote c.req.pending c
  · intro c c' c'' res h h' hle
    cases h hle with
    | failed _ w d =>
      cases h' hle with
      | took n w' d' => exact .took n w' d'
      | failed err w' d' => exact .failed err w' d'

end Crotalus
