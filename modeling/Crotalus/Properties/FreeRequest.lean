import Crotalus.Server.Request
import Crotalus.Framework.Run
import Crotalus.Spec.Buffer
import Crotalus.Spec.Select
import Crotalus.Spec.Zlib

namespace Crotalus

open Stateful

section Dispose

variable (c : Conn)

theorem recycle_spec :
    (exec recycle c).place = .block ∧ (exec recycle c).wire = c.wire := by
  simp [recycle]

theorem closeConn_spec :
    (exec closeConn c).place = .free ∧ (exec closeConn c).wire = c.wire ∧
      (exec closeConn c).req = c.req := by
  by_cases h : c.req.method = .post
  · simp [closeConn, h, exec_sockRead]
  · simp [closeConn, h]

theorem keepsAlive_release (r : Request) :
    ({ r.timedOut with ranges := [] } : Request).keepsAlive = r.keepsAlive := by
  unfold Request.timedOut
  split
  · rename_i h
    simp [Request.keepsAlive, h.1]
  · rfl

theorem clrIf_frame (b : Bool) (fd : Nat) (d : Dir) :
    (exec (onlyIf b (fdClr fd d)) c).wire = c.wire ∧
      (exec (onlyIf b (fdClr fd d)) c).req = c.req := by
  cases b <;> simp

/-- The connection goes to the blocked queue when it is kept alive and to the free list
when it is closed. Nothing more is sent. -/
theorem release_spec :
    (exec release c).wire = c.wire ∧
      (exec release c).place = if c.req.keepsAlive then .block else .free := by
  have hka := keepsAlive_release c.req
  unfold release
  simp only [exec_bind, exec_modReq, value_getReq, exec_getReq, exec_ite, hka]
  split
  · obtain ⟨hp, hw⟩ := recycle_spec (exec _ _)
    exact ⟨by rw [hw, (clrIf_frame _ _ _ _).1, (clrIf_frame _ _ _ _).1], hp⟩
  · obtain ⟨hp, hw, -⟩ := closeConn_spec (exec _ _)
    exact ⟨by rw [hw, (clrIf_frame _ _ _ _).1, (clrIf_frame _ _ _ _).1], hp⟩

/-- A closed request keeps its buffer and its status. -/
theorem release_closed (hk : c.req.keepsAlive = false) :
    (exec release c).req = { c.req.timedOut with ranges := [] } := by
  have hka := keepsAlive_release c.req
  unfold release
  simp only [exec_bind, exec_modReq, value_getReq, exec_getReq, exec_ite, hka, hk]
  simp only [Bool.false_eq_true, if_false, (closeConn_spec _).2.2, (clrIf_frame _ _ _ _).2]

end Dispose

section Filter

variable (e : Config) (c : Conn)

/-- The blocks that end the stream of a filter, the empty one being the end of the body. -/
def endBlocks (zlib : Option (List (List Byte))) : List (List Byte) :=
  match zlib.bind e.deflateEnd with
  | none => []
  | some outs => outs ++ [[]]

theorem mimeFilterFlush_deflate :
    (exec (mimeFilterFlush e .deflate) c).wire =
        c.wire ++ (chunksSent (endBlocks e c.req.zlib) c.sys.sock).2 ∧
      (exec (mimeFilterFlush e .deflate) c).place = c.place ∧
      (exec (mimeFilterFlush e .deflate) c).req.keepsAlive = c.req.keepsAlive ∧
      (exec (mimeFilterFlush e .deflate) c).req.responseStatus = c.req.responseStatus := by
  match hz : c.req.zlib.bind e.deflateEnd with
  | none => simp [mimeFilterFlush, endBlocks, hz, chunksSent]
  | some outs =>
    obtain ⟨d, hw⟩ := writeChunks_sends outs c
    obtain ⟨d', hend⟩ := mimeFilterWriteChunk_sends [] (c.sends (chunksSent outs c.sys.sock) d)
    have hrun : exec (mimeFilterFlush e .deflate) c =
        exec (modReq fun r => { r with zlib := none })
          (c.sends (chunksSent (outs ++ [[]]) c.sys.sock) d') := by
      simp only [mimeFilterFlush, exec_bind, exec_getReq, value_getReq, hz, hw, hend,
        Conn.sends_sends, Conn.sock_sends, chunksSent_append, chunksSent, List.append_nil]
    rw [hrun]
    simp only [endBlocks, hz, exec_modReq]
    exact ⟨rfl, rfl, rfl, rfl⟩

/-- The end of the stream leaves the queue and the fate of the connection as they are. -/
theorem finishFilter_spec (hg : c.req.gzipFl = none) :
    (exec (finishFilter e) c).wire =
        c.wire ++ (if c.req.filter = some .deflate then
          (chunksSent (endBlocks e c.req.zlib) c.sys.sock).2 else []) ∧
      (exec (finishFilter e) c).place = c.place ∧
      (exec (finishFilter e) c).req.keepsAlive = c.req.keepsAlive ∧
      (exec (finishFilter e) c).req.responseStatus = c.req.responseStatus := by
  match hf : c.req.filter with
  | none => simp [finishFilter, hf]
  | some .gzip => simp [finishFilter, hf, mimeFilterFlush, hg]
  | some .deflate =>
    have hrun : exec (finishFilter e) c =
        exec (mimeFilterFlush e .deflate) (exec (mark .filterFlush) c) := by
      simp only [finishFilter, exec_bind, exec_getReq, value_getReq, hf]
    rw [hrun, if_pos rfl]
    exact mimeFilterFlush_deflate e (exec (mark .filterFlush) c)

theorem dispose_spec (hg : c.req.gzipFl = none) :
    (exec (dispose e) c).wire =
        c.wire ++ (if c.req.filter = some .deflate then
          (chunksSent (endBlocks e c.req.zlib) c.sys.sock).2 else []) ∧
      (exec (dispose e) c).place = if c.req.keepsAlive then .block else .free := by
  obtain ⟨hw, -, hk, -⟩ := finishFilter_spec e c hg
  obtain ⟨hw', hp⟩ := release_spec (exec (finishFilter e) c)
  rw [hk] at hp
  exact ⟨hw'.trans hw, hp⟩

theorem dispose_plain (hf : c.req.filter ≠ some .deflate) (hg : c.req.gzipFl = none) :
    (exec (dispose e) c).wire = c.wire := by
  rw [(dispose_spec e c hg).1, if_neg hf, List.append_nil]

theorem dispose_deflate (hf : c.req.filter = some .deflate) (hg : c.req.gzipFl = none) :
    (exec (dispose e) c).wire = c.wire ++ (chunksSent (endBlocks e c.req.zlib) c.sys.sock).2 := by
  rw [(dispose_spec e c hg).1, if_pos hf]

end Filter

theorem keepsAlive_iff (r : Request) :
    r.keepsAlive = true ↔ r.status.over = false ∧ r.keepalive = .active ∧
      r.responseStatus < 500 ∧ r.responseStatus ≠ 0 ∧ 0 < r.kacount := by
  simp [Request.keepsAlive, and_assoc]

theorem keepsAlive_congr {r r' : Request} (hs : r.status.over = r'.status.over)
    (hk : r.keepalive = r'.keepalive) (hr : r.responseStatus = r'.responseStatus)
    (hc : r.kacount = r'.kacount) : r'.keepsAlive = r.keepsAlive := by
  simp only [Request.keepsAlive, hs, hk, hr, hc]

/-! What `free_request` owes the client. -/

/-- Bytes are waiting for the client, and the request has not been given up. -/
def Conn.unsent (c : Conn) : Bool :=
  c.req.bufferStart < c.req.bufferEnd && !c.req.status.over

/-- The bytes are waiting and the socket would not take any. -/
def Conn.refused (c : Conn) : Bool :=
  c.unsent && c.req.filter.isNone && wouldBlock c.sys.sock

/-- The blocks in which the compressor sends what is left of the response. -/
def Conn.lastBlocks (e : Config) (c : Conn) : List (List Byte) :=
  match c.req.zlib with
  | none => []
  | some hist =>
    if c.unsent then
      (e.deflate (hist ++ [c.req.pending])).getD [] ++ endBlocks e (some (hist ++ [c.req.pending]))
    else endBlocks e (some hist)

/-- What the socket still has to accept when `free_request` is called. -/
def Conn.owed (e : Config) (c : Conn) : List Byte :=
  if c.req.filter = some .deflate then (c.lastBlocks e).flatMap chunk else c.req.pending

/-- The promise about the end of a request: blocked output keeps it queued, only an empty
buffer or a dead request leaves the ready queue, and a connection is used again only after
a response all of whose bytes were accepted. -/
structure FreesCleanly (e : Config) (c : Conn) : Prop where
  waits : c.refused → (exec (freeRequest e) c).place ≠ .free ∧
    (exec (freeRequest e) c).req.pending = c.req.pending
  drops : (exec (freeRequest e) c).place ≠ .ready →
    (exec (freeFlush e) c).req.pending = [] ∨ (exec (freeFlush e) c).req.status.over
  recycles : (exec (freeRequest e) c).place = .block →
    c.req.responseStatus ≠ 0 ∧ (exec (freeRequest e) c).wire = c.wire ++ c.owed e

/-- The compressor takes what is waiting. -/
def Conn.compresses (e : Config) (c : Conn) : Bool :=
  if c.unsent then (c.req.zlib.bind fun hist => e.deflate (hist ++ [c.req.pending])).isSome
  else c.req.bufferEnd = 0 || c.req.bufferStart = c.req.bufferEnd

/-- When the connection is to be used again, the socket accepts every chunk the
compressor sends. -/
def Conn.chunksAccepted (e : Config) (c : Conn) : Prop :=
  c.req.filter = some .deflate → c.req.keepsAlive = true → c.compresses e = true →
    (chunksSent (c.lastBlocks e) c.sys.sock).2 = (c.lastBlocks e).flatMap chunk

section Flush

variable (e : Config) {c : Conn}

theorem freeFlush_skip (h : c.req.bufferEnd = 0 ∨ c.req.status.over = true) :
    value (freeFlush e) c = false ∧ exec (freeFlush e) c = c := by
  have hc : ¬(c.req.bufferEnd ≠ 0 ∧ (!c.req.status.over) = true) := by
    rcases h with h | h <;> simp [h]
  constructor
  · simp only [freeFlush, value_bind, exec_getReq, value_getReq, if_neg hc]
    rfl
  · simp only [freeFlush, exec_bind, exec_getReq, value_getReq, if_neg hc]
    rfl

/-- The status that the flush runs in. -/
def Conn.asDone (c : Conn) : Conn := { c with req := { c.req with status := .done } }

theorem freeFlush_run (h0 : c.req.bufferEnd ≠ 0) (hs : c.req.status.over = false) :
    value (freeFlush e) c = decide (0 < value (reqFlush e) c.asDone) ∧
      exec (freeFlush e) c =
        if value (reqFlush e) c.asDone = -2 then
          exec (setStatus .dead) (exec (reqFlush e) c.asDone)
        else exec (reqFlush e) c.asDone := by
  have hdone : exec (setStatus .done) c = c.asDone := rfl
  have hc : c.req.bufferEnd ≠ 0 ∧ (!c.req.status.over) = true := ⟨h0, by rw [hs]; rfl⟩
  simp only [freeFlush, value_bind, exec_bind, exec_getReq, value_getReq, value_ite, exec_ite,
    if_pos hc, hdone]
  split
  · rename_i hi
    simp [hi]
  · simp

theorem freeRequest_stays (h : value (freeFlush e) c = true) :
    exec (freeRequest e) c = exec (freeFlush e) c := by
  simp [freeRequest, h]

theorem freeRequest_leaves (h : value (freeFlush e) c = false) :
    exec (freeRequest e) c = exec (dispose e) (exec (freeFlush e) c) := by
  simp [freeRequest, h]

theorem freesCleanly_stays (hp : c.place = .ready) (hr : c.refused = false)
    (hv : value (freeFlush e) c = true) (hq : (exec (freeFlush e) c).place = c.place) :
    FreesCleanly e c := by
  have hplace : (exec (freeRequest e) c).place = .ready := by
    rw [freeRequest_stays e hv, hq, hp]
  constructor
  · intro h
    simp [hr] at h
  · intro h
    exact absurd hplace h
  · intro h
    rw [hplace] at h
    cases h

/-- A request that leaves the ready queue does so cleanly when nothing is refused and the
rest of the response reaches the client before the connection is used again. -/
theorem freesCleanly_leaves (hr : c.refused = false) (hv : value (freeFlush e) c = false)
    (hg : (exec (freeFlush e) c).req.gzipFl = none)
    (hstatus : (exec (freeFlush e) c).req.responseStatus = c.req.responseStatus)
    (hd : (exec (freeFlush e) c).req.pending = [] ∨ (exec (freeFlush e) c).req.status.over) :
    FreesCleanly e c ↔ ((exec (freeFlush e) c).req.keepsAlive = true →
      (exec (freeRequest e) c).wire = c.wire ++ c.owed e) := by
  obtain ⟨-, hplace⟩ := dispose_spec e (exec (freeFlush e) c) hg
  rw [← freeRequest_leaves e hv] at hplace
  constructor
  · intro h hk
    rw [if_pos hk] at hplace
    exact (h.recycles hplace).2
  · intro h
    constructor
    · intro h'
      simp [hr] at h'
    · intro _
      exact hd
    · intro hb
      by_cases hk : (exec (freeFlush e) c).req.keepsAlive = true
      · obtain ⟨-, -, -, hne, -⟩ := (keepsAlive_iff _).mp hk
        rw [hstatus] at hne
        exact ⟨hne, h hk⟩
      · rw [if_neg hk] at hplace
        rw [hplace] at hb
        cases hb

theorem unsent_iff : c.unsent = true ↔
    c.req.bufferStart < c.req.bufferEnd ∧ c.req.status.over = false := by
  simp [Conn.unsent]

/-- Nothing to flush: what is owed is what the end of the filter's stream sends. -/
theorem freesCleanly_skip (hg : c.req.gzipFl = none)
    (h : c.req.bufferEnd = 0 ∨ c.req.status.over = true) :
    FreesCleanly e c ↔ c.chunksAccepted e := by
  obtain ⟨hv, he⟩ := freeFlush_skip e h
  have hun : c.unsent = false := by
    rcases h with h | h <;> simp [Conn.unsent, h]
  have hr : c.refused = false := by simp [Conn.refused, hun]
  have hd : c.req.pending = [] ∨ c.req.status.over := by
    rcases h with h | h
    · exact .inl (c.req.pending_eq_nil (by omega))
    · exact .inr h
  obtain ⟨hw, -⟩ := dispose_spec e c hg
  rw [freesCleanly_leaves e hr hv (by rw [he]; exact hg) (by rw [he]) (by rw [he]; exact hd),
    freeRequest_leaves e hv, he, hw]
  unfold Conn.chunksAccepted
  by_cases hf : c.req.filter = some .deflate
  · have hb : c.lastBlocks e = endBlocks e c.req.zlib := by
      unfold Conn.lastBlocks
      cases hz : c.req.zlib <;> simp [hun, endBlocks]
    have hc : c.req.keepsAlive = true → c.compresses e = true := by
      intro hk
      obtain ⟨ho, -⟩ := (keepsAlive_iff _).mp hk
      rcases h with h | h
      · simp [Conn.compresses, hun, h]
      · simp [h] at ho
    rw [if_pos hf]
    simp only [Conn.owed, hf, if_true, hb, List.append_cancel_left_eq, forall_true_left]
    exact ⟨fun h hk _ => h hk, fun h hk => h hk (hc hk)⟩
  · rw [if_neg hf]
    have ho : c.req.keepsAlive = true → c.owed e = [] := by
      intro hk
      obtain ⟨ho, -⟩ := (keepsAlive_iff _).mp hk
      rcases h with h | h
      · rw [Conn.owed, if_neg hf, c.req.pending_eq_nil (by omega)]
      · simp [h] at ho
    constructor
    · intro _ hf'
      exact absurd hf' hf
    · intro _ hk
      rw [ho hk]

/-- A flush that loses the connection: the request is closed. -/
theorem freesCleanly_dead {w : World} (h0 : c.req.bufferEnd ≠ 0) (hs : c.req.status.over = false)
    (hg : c.req.gzipFl = none) (hr : c.refused = false) (hv : value (reqFlush e) c.asDone = -2)
    (he : exec (reqFlush e) c.asDone =
      exec (setStatus .dead) { c.asDone with req := c.asDone.req.emptied, sys := w }) :
    FreesCleanly e c := by
  obtain ⟨hvf, hef⟩ := freeFlush_run e h0 hs
  rw [hv] at hvf
  rw [if_pos hv, he] at hef
  have hover : (exec (freeFlush e) c).req.status.over = true := by rw [hef]; rfl
  rw [freesCleanly_leaves e hr hvf (by rw [hef]; exact hg) (by rw [hef]; rfl) (.inr hover)]
  intro hk
  obtain ⟨ho, -⟩ := (keepsAlive_iff _).mp hk
  rw [hover] at ho
  cases ho

/-- A flush that leaves the buffer empty. -/
theorem freesCleanly_emptied (h0 : c.req.bufferEnd ≠ 0) (hs : c.req.status.over = false)
    (hg : c.req.gzipFl = none) (hr : c.refused = false) (hv : value (reqFlush e) c.asDone = 0)
    {c' : Conn} (he : exec (reqFlush e) c.asDone = c')
    {z : Option (List (List Byte))} (hreq : c'.req = c.asDone.req.emptied.withZlib z) :
    FreesCleanly e c ↔ (c.req.keepsAlive = true →
      (exec (dispose e) c').wire = c.wire ++ c.owed e) := by
  obtain ⟨hvf, hef⟩ := freeFlush_run e h0 hs
  rw [hv] at hvf hef
  rw [if_neg (by decide), he] at hef
  have hk : c'.req.keepsAlive = c.req.keepsAlive := by
    rw [hreq]
    exact keepsAlive_congr (show c.req.status.over = Status.over .done from hs) rfl rfl rfl
  have hempty : c'.req.pending = [] := by
    rw [hreq]
    exact Request.pending_eq_nil _ (Nat.le_refl 0)
  rw [freesCleanly_leaves e hr hvf (by rw [hef, hreq]; exact hg) (by rw [hef, hreq]; rfl)
    (.inl (by rw [hef]; exact hempty)), freeRequest_leaves e hvf, hef, hk]

/-- A flush that leaves bytes: the request stays. -/
theorem freesCleanly_left (hp : c.place = .ready) (h0 : c.req.bufferEnd ≠ 0)
    (hs : c.req.status.over = false) (hr : c.refused = false)
    (hv : 0 < value (reqFlush e) c.asDone)
    (hq : (exec (reqFlush e) c.asDone).place = c.place) : FreesCleanly e c := by
  obtain ⟨hvf, hef⟩ := freeFlush_run e h0 hs
  rw [if_neg (by omega)] at hef
  exact freesCleanly_stays e hp hr (by rw [hvf]; exact decide_eq_true hv) (by rw [hef]; exact hq)

/-- A refused flush drops the bytes. -/
theorem not_freesCleanly_refused (hr : c.refused = true) : ¬FreesCleanly e c := by
  have hr' := hr
  simp only [Conn.refused, Bool.and_eq_true, unsent_iff, Option.isNone_iff_eq_none] at hr'
  obtain ⟨⟨⟨hlt, hs⟩, hf⟩, hw⟩ := hr'
  obtain ⟨hv, he⟩ := reqFlush_blocked e (c := c.asDone) rfl hf hlt hw
  obtain ⟨hvf, hef⟩ := freeFlush_run e (by omega) hs
  rw [hv] at hvf hef
  rw [if_neg (by decide), he] at hef
  intro h
  obtain ⟨-, hplace⟩ := release_spec (exec (finishFilter e) (exec (freeFlush e) c))
  have hpend : (exec (freeFlush e) c).req.pending = c.req.pending := by rw [hef]; rfl
  have hne : c.req.pending ≠ [] := by
    rw [← List.length_pos_iff, c.req.length_pending]
    omega
  have hleft : (exec (freeRequest e) c).place ≠ .ready := by
    rw [freeRequest_leaves e hvf]
    change (exec release (exec (finishFilter e) (exec (freeFlush e) c))).place ≠ .ready
    rw [hplace]
    split <;> decide
  rcases h.drops hleft with hd | hd
  · exact hne (hpend ▸ hd)
  · rw [hef] at hd
    cases hd

theorem freesCleanly_plain (hp : c.place = .ready) (hf : c.req.filter = none)
    (hg : c.req.gzipFl = none) (h0 : c.req.bufferEnd ≠ 0) (hs : c.req.status.over = false)
    (hr : c.refused = false) : FreesCleanly e c := by
  have howed : c.owed e = c.req.pending := if_neg (by rw [hf]; decide)
  have hnd : c.req.filter ≠ some .deflate := by rw [hf]; decide
  rcases Nat.lt_trichotomy c.req.bufferStart c.req.bufferEnd with hlt | heq | hgt
  · have hun : c.unsent = true := unsent_iff.mpr ⟨hlt, hs⟩
    match hk : c.sys.sock with
    | [] => simp [Conn.refused, hun, hf, hk, wouldBlock] at hr
    | .fail err :: rest =>
      have herr : err ≠ .again := by
        rintro rfl
        simp [Conn.refused, hun, hf, hk, wouldBlock] at hr
      obtain ⟨hv, he⟩ := reqFlush_failed e (c := c.asDone) rfl hf hlt hk herr
      exact freesCleanly_dead e h0 hs hg hr hv he
    | .done n :: rest =>
      obtain ⟨hv, he⟩ := reqFlush_done e (c := c.asDone) rfl hf hlt hk
      by_cases hn : n < c.req.pending.length
      · have hmin : min n c.asDone.req.pending.length = n := Nat.min_eq_left (Nat.le_of_lt hn)
        rw [hmin, Request.bufferEnd_taken_part c.asDone.req hn] at hv
        refine freesCleanly_left e hp h0 hs hr ?_ (by rw [he]; rfl)
        rw [hv]
        exact Int.natCast_pos.mpr (Nat.pos_of_ne_zero h0)
      · have hmin : min n c.asDone.req.pending.length = c.asDone.req.pending.length :=
          Nat.min_eq_right (Nat.le_of_not_lt hn)
        rw [hmin, Request.taken_all c.asDone.req (Nat.le_of_lt hlt)] at hv he
        refine (freesCleanly_emptied e h0 hs hg hr hv he (z := c.req.zlib) rfl).mpr fun _ => ?_
        refine (dispose_plain e _ ?_ ?_).trans ?_
        · exact hnd
        · exact hg
        · rw [howed]
          exact congrArg (c.wire ++ ·) (List.take_of_length_le (Nat.le_of_not_lt hn))
  · obtain ⟨hv, he⟩ := reqFlush_empty e (c := c.asDone) rfl heq.symm
    refine (freesCleanly_emptied e h0 hs hg hr hv he (z := c.req.zlib) rfl).mpr fun _ => ?_
    refine (dispose_plain e _ ?_ ?_).trans ?_
    · exact hnd
    · exact hg
    · rw [howed, c.req.pending_eq_nil (by omega), List.append_nil]
      rfl
  · obtain ⟨hv, he⟩ := reqFlush_crossed e (c := c.asDone) rfl hf hgt
    exact freesCleanly_dead e (w := c.sys) h0 hs hg hr hv he

theorem freesCleanly_gzip (hf : c.req.filter = some .gzip) (hg : c.req.gzipFl = none)
    (h0 : c.req.bufferEnd ≠ 0) (hs : c.req.status.over = false) : FreesCleanly e c := by
  have hr : c.refused = false := by simp [Conn.refused, hf]
  by_cases heq : c.req.bufferEnd = c.req.bufferStart
  · obtain ⟨hv, he⟩ := reqFlush_empty e (c := c.asDone) rfl heq
    refine (freesCleanly_emptied e h0 hs hg hr hv he (z := c.req.zlib) rfl).mpr fun _ => ?_
    have hnd : ¬c.req.filter = some .deflate := by rw [hf]; decide
    refine (dispose_plain e _ ?_ ?_).trans ?_
    · exact hnd
    · exact hg
    · rw [Conn.owed, if_neg hnd, c.req.pending_eq_nil (by omega), List.append_nil]
      rfl
  · have hw : value (mimeFilterWrite e .gzip) c.asDone = -2 ∧
        exec (mimeFilterWrite e .gzip) c.asDone = c.asDone := by
      have hg' : c.asDone.req.gzipFl = none := hg
      simp [mimeFilterWrite, hg']
    obtain ⟨hv, he⟩ := reqFlush_filterFails e (c := c.asDone) rfl hf heq hw
    exact freesCleanly_dead e (w := c.sys) h0 hs hg hr hv he

theorem freesCleanly_deflate (hp : c.place = .ready) (hf : c.req.filter = some .deflate)
    (hg : c.req.gzipFl = none) (h0 : c.req.bufferEnd ≠ 0) (hs : c.req.status.over = false) :
    FreesCleanly e c ↔ c.chunksAccepted e := by
  have hr : c.refused = false := by simp [Conn.refused, hf]
  have howed : c.owed e = (c.lastBlocks e).flatMap chunk := if_pos hf
  by_cases heq : c.req.bufferEnd = c.req.bufferStart
  · obtain ⟨hv, he⟩ := reqFlush_empty e (c := c.asDone) rfl heq
    have hun : c.unsent = false := by simp [Conn.unsent, heq]
    have hb : c.lastBlocks e = endBlocks e c.req.zlib := by
      unfold Conn.lastBlocks
      cases hz : c.req.zlib <;> simp [hun, endBlocks]
    have hc : c.compresses e = true := by simp [Conn.compresses, hun, heq]
    rw [freesCleanly_emptied e h0 hs hg hr hv he (z := c.req.zlib) rfl]
    have hw : (exec (dispose e) { c.asDone with req := c.asDone.req.emptied }).wire =
        c.wire ++ (chunksSent (c.lastBlocks e) c.sys.sock).2 := by
      refine (dispose_deflate e _ ?_ ?_).trans ?_
      · exact hf
      · exact hg
      · rw [hb]
        rfl
    rw [hw, howed, List.append_cancel_left_eq]
    exact ⟨fun h _ hk _ => h hk, fun h hk => h hf hk hc⟩
  · match hz : c.req.zlib.bind fun hist => e.deflate (hist ++ [c.req.pending]) with
    | none =>
      have hw : value (mimeFilterWrite e .deflate) c.asDone = -2 ∧
          exec (mimeFilterWrite e .deflate) c.asDone = c.asDone :=
        mimeFilterWrite_stuck e (Ne.symm heq) hz
      obtain ⟨hv, he⟩ := reqFlush_filterFails e (c := c.asDone) rfl hf heq hw
      have hclean := freesCleanly_dead e (w := c.sys) h0 hs hg hr hv he
      refine iff_of_true hclean fun _ _ hc => ?_
      by_cases hun : c.unsent = true
      · simp [Conn.compresses, hun, hz] at hc
      · simp [Conn.compresses, hun, h0, Ne.symm heq] at hc
    | some outs =>
      obtain ⟨hist, hz, hd⟩ := Option.bind_eq_some_iff.mp hz
      obtain ⟨d, he, hv⟩ := reqFlush_compressed e (c := c.asDone) rfl hf heq hz hd
      rcases Nat.lt_or_gt_of_ne heq with hgt | hlt
      · -- the indices have crossed: nothing is consumed
        have hnil : c.asDone.req.pending = [] := Request.pending_eq_nil _ (Nat.le_of_lt hgt)
        have hun : c.unsent = false := by simp [Conn.unsent]; omega
        have hsame : ((c.asDone.fed hist).req.taken 0).bufferEnd = c.req.bufferEnd :=
          Request.bufferEnd_taken_none (c.asDone.fed hist).req (Ne.symm heq)
        rw [hnil, List.length_nil, hsame] at hv
        have hclean := freesCleanly_left e hp h0 hs hr
          (by rw [hv]; exact Int.natCast_pos.mpr (Nat.pos_of_ne_zero h0)) (by rw [he]; rfl)
        refine iff_of_true hclean fun _ _ hc => ?_
        simp [Conn.compresses, hun, h0, Ne.symm heq] at hc
      · have hun : c.unsent = true := unsent_iff.mpr ⟨hlt, hs⟩
        have hall : (c.asDone.fed hist).req.taken c.asDone.req.pending.length =
            (c.asDone.fed hist).req.emptied :=
          Request.taken_all (c.asDone.fed hist).req (Nat.le_of_lt hlt)
        have hc : c.compresses e = true := by
          rw [Conn.compresses, if_pos hun, show c.req.zlib = some hist from hz]
          exact Option.isSome_iff_exists.mpr ⟨outs, hd⟩
        have hb : c.lastBlocks e = outs ++ endBlocks e (some (hist ++ [c.req.pending])) := by
          have hd' : e.deflate (hist ++ [c.req.pending]) = some outs := hd
          rw [Conn.lastBlocks, show c.req.zlib = some hist from hz]
          simp only [hun, if_true, hd', Option.getD_some]
        rw [hall] at hv
        rw [exec_modReq, Conn.req_sends, hall] at he
        rw [freesCleanly_emptied e h0 hs hg hr hv he (z := some (hist ++ [c.req.pending])) rfl]
        have hw : (exec (dispose e) { (c.asDone.fed hist).sends (chunksSent outs c.asDone.sys.sock) d
            with req := (c.asDone.fed hist).req.emptied }).wire =
            c.wire ++ (chunksSent (c.lastBlocks e) c.sys.sock).2 := by
          refine (dispose_deflate e _ ?_ ?_).trans ?_
          · exact hf
          · exact hg
          · rw [hb, chunksSent_append, ← List.append_assoc]
            rfl
        rw [hw, howed, List.append_cancel_left_eq]
        exact ⟨fun h _ hk _ => h hk, fun h hk => h hf hk hc⟩

end Flush

/-- A request ends cleanly unless the socket refuses bytes that are waiting, or fails to
accept what the compressor sends on a connection to be used again. -/
theorem freeRequest_clean_iff (e : Config) (c : Conn) (hp : c.place = .ready)
    (hg : c.req.gzipFl = none) :
    FreesCleanly e c ↔ c.refused = false ∧ c.chunksAccepted e := by
  by_cases hr : c.refused = true
  · refine iff_of_false (not_freesCleanly_refused e hr) fun h => ?_
    rw [hr] at h
    cases h.1
  · have hr' : c.refused = false := by simpa using hr
    rw [and_iff_right hr']
    by_cases hskip : c.req.bufferEnd = 0 ∨ c.req.status.over = true
    · exact freesCleanly_skip e hg hskip
    · have h0 : c.req.bufferEnd ≠ 0 := fun h => hskip (.inl h)
      have hs : c.req.status.over = false := by simpa using fun h => hskip (.inr h)
      have hvac : c.req.filter ≠ some .deflate → c.chunksAccepted e := fun hf h => absurd h hf
      match hf : c.req.filter with
      | none =>
        exact iff_of_true (freesCleanly_plain e hp hf hg h0 hs hr') (hvac (by rw [hf]; decide))
      | some .gzip =>
        exact iff_of_true (freesCleanly_gzip e hf hg h0 hs) (hvac (by rw [hf]; decide))
      | some .deflate => exact freesCleanly_deflate e hp hf hg h0 hs

/-! A request for a missing file: the socket would block when the page is to be sent. -/

def missing : Conn :=
  step {} { req := { fd := 5, kacount := 10 } } (.process { recv := [.data (str "GET /x\n")] })

/-- The second turn, up to its call of `free_request`. -/
def missingDone : Conn :=
  exec (do
    let _ ← topFlush {}
    let _ ← processStatus {}
    touch) { missing with sys := {}, waits := none }

/-- `free_request` gives the socket these results. -/
def missingDone.on (sock : List IoRes) : Conn := { missingDone with sys := { sock := sock } }

theorem freeRequest_clean_taken : FreesCleanly {} (missingDone.on [.done 143]) :=
  (freeRequest_clean_iff {} (missingDone.on [.done 143]) (by decide +kernel)
    (by decide +kernel)).mpr ⟨by decide +kernel, fun hf => absurd hf (by decide +kernel)⟩

/-- The whole page is dropped and the connection closed. -/
theorem freeRequest_drops_page :
    ¬FreesCleanly {} (missingDone.on []) ∧
      (step {} missing (.process {})).place = .free ∧
      (step {} missing (.process {})).req.status = .done ∧
      (step {} missing (.process {})).req.pending.length = 143 ∧
      (step {} missing (.process {})).wire = [] :=
  ⟨not_freesCleanly_refused {} (by decide +kernel), by decide +kernel, by decide +kernel,
    by decide +kernel, by decide +kernel⟩

end Crotalus
