import Crotalus.Framework.Run
import Crotalus.Spec.Reply
import Crotalus.Properties.Order
import Crotalus.Properties.ShuffleProgress

namespace Crotalus

open Stateful

/-! The number of bytes that `log_access` prints for a response from a file. -/

/-- A response on its way. Once `logged`, the connection is the one `log_access` sees, behind
the flush of `free_request`. -/
structure Logged where
  conn : Conn
  logged : Bool

/-- What a turn whose handler has returned `ret` goes on with. -/
def Conn.logs (e : Config) (c : Conn) (ret : Int) : Logged :=
  if ret = 0 then ⟨exec (freeFlush e) c, !value (freeFlush e) c⟩ else ⟨c, false⟩

def logTurn (e : Config) (s : Logged) (w : World) : Logged :=
  if s.logged then s
  else
    (exec (serveTurn e) { s.conn with sys := w }).logs e
      (value (serveTurn e) { s.conn with sys := w })

/-- The turn in which `init_get` answers. -/
def logStart (e : Config) (fd : Nat) (f : File) (c : Conn) : Logged :=
  (exec (initGetFile e fd f) c).logs e (value (initGetFile e fd f) c)

/-- The response has been accepted to its end. -/
def Logged.completed (s : Logged) : Prop :=
  s.logged = true ∧ s.conn.req.status.over = false ∧ s.conn.req.pending = []

/-- Of the `total` bytes of the range `left` are still to come; all others have been counted,
and stand in the buffer or have gone out behind the `base` bytes up to the header. -/
structure Counting (base total left : Nat) (c : Conn) : Prop where
  filter : c.req.filter = none
  order : c.req.bufferStart ≤ c.req.bufferEnd
  counted : c.req.bytesWritten + left = total
  sent : c.wire.length + c.req.pending.length + left = base + total

/-- One range is served from the mapping or by `sendfile`, unless the request is over. -/
structure ServesOne (e : Config) (base total : Nat) (c : Conn) : Prop where
  counting : Counting base total c.req.left c
  method : c.req.method = .get
  source : c.req.status.over = true ∨ c.req.status = .write ∨
    c.req.status = .ioshuffle ∧ e.build.haveSendfile = true
  range : ∃ r, c.req.ranges = [r] ∧ r.start ≤ r.stop + 1 ∧ r.stop + 1 < 2^64
  single : ¬c.req.multipart

inductive Accounted (e : Config) (base total : Nat) (c : Conn) : Prop where
  | serving (h : ServesOne e base total c)
  | ended (h : Counting base total 0 c) (hs : c.req.status = .done)
  | gone (h : c.req.status.over = true)

/-- What a handler that returned `ret` leaves. -/
inductive Returned (e : Config) (base total : Nat) (c : Conn) : Int → Prop where
  | goesOn (ret : Int) (hret : ret ≠ 0) (h : Accounted e base total c) : Returned e base total c ret
  | ends (h : Counting base total 0 c) (hs : c.req.status = .done) : Returned e base total c 0
  | dies (h : c.req.status.over = true) : Returned e base total c 0

section Steps

variable (e : Config) {base total left : Nat} {c : Conn}

/-- Bytes of the buffer have gone out. -/
theorem Counting.took (h : Counting base total left c) {k : Nat} (hk : k ≤ c.req.pending.length)
    (w : World) :
    Counting base total left
      { c with req := c.req.taken k, wire := c.wire ++ c.req.pending.take k, sys := w } := by
  have hpend := c.req.pending_taken_le h.order hk
  have horder := c.req.taken_le h.order hk
  have hsent := h.sent
  obtain ⟨b, i, hsame⟩ := taken_same c.req k
  refine ⟨?_, horder, ?_, ?_⟩
  · dsimp only
    rw [hsame]
    exact h.filter
  · dsimp only
    rw [hsame]
    exact h.counted
  · dsimp only
    rw [hpend, List.length_append, List.length_take, List.length_drop]
    omega

theorem Counting.frame (h : Counting base total left c) (w : World) (d : Option (Nat × Dir)) :
    Counting base total left { c with sys := w, waits := d } :=
  ⟨h.filter, h.order, h.counted, h.sent⟩

theorem ServesOne.frame (h : ServesOne e base total c) (w : World) (d : Option (Nat × Dir))
    (t : List Visit) : ServesOne e base total { c with sys := w, waits := d, trace := t } :=
  ⟨⟨h.counting.filter, h.counting.order, h.counting.counted, h.counting.sent⟩, h.method, h.source,
    h.range, h.single⟩

theorem ServesOne.took (h : ServesOne e base total c) {k : Nat} (hk : k ≤ c.req.pending.length)
    (w : World) :
    ServesOne e base total
      { c with req := c.req.taken k, wire := c.wire ++ c.req.pending.take k, sys := w } := by
  have hcount := h.counting.took hk w
  obtain ⟨b, i, hsame⟩ := taken_same c.req k
  rw [hsame] at hcount ⊢
  exact ⟨hcount, h.method, h.source, h.range, h.single⟩

/-- Bytes of the range have gone straight to the socket. -/
theorem ServesOne.sentPart (h : ServesOne e base total c) {bs : List Byte}
    (hle : bs.length ≤ c.req.left) (w : World) (d : Option (Nat × Dir)) :
    ServesOne e base total (c.sentPart bs w d) := by
  obtain ⟨r, hr, horder, hword⟩ := h.range
  have hrange : c.req.range = r := by rw [Request.range, hr]; rfl
  have hleft : (c.sentPart bs w d).req.left = c.req.left - bs.length := by
    change c.req.range.stop + 1 - (c.req.range.start + bs.length) = _
    exact (Nat.sub_sub _ _ _).symm
  have hranges : (c.sentPart bs w d).req.ranges = [{ r with start := r.start + bs.length }] := by
    change { c.req.range with start := c.req.range.start + bs.length } :: c.req.ranges.tail = _
    rw [hrange, hr]
    rfl
  have hcounted := h.counting.counted
  have hsent := h.counting.sent
  refine ⟨⟨h.counting.filter, h.counting.order, ?_, ?_⟩, h.method, h.source, ⟨_, hranges, ?_, hword⟩,
    h.single⟩
  · rw [hleft]
    change c.req.bytesWritten + bs.length + (c.req.left - bs.length) = total
    omega
  · rw [hleft]
    change (c.wire ++ bs).length + c.req.pending.length + (c.req.left - bs.length) = _
    rw [List.length_append]
    omega
  · unfold Request.left at hle
    rw [hrange] at hle
    change r.start + bs.length ≤ r.stop + 1
    omega

/-- Bytes of the range have been put in the buffer. -/
theorem ServesOne.copied (h : ServesOne e base total c) {bs : List Byte}
    (hle : bs.length ≤ c.req.left) :
    ServesOne e base total
      { c with req := ((c.req.append bs).counted bs.length).moveStart bs.length } := by
  have hsent := h.sentPart e hle c.sys c.waits
  have hpend : (c.req.append bs).pending = c.req.pending ++ bs :=
    c.req.pending_append bs h.counting.order
  have hall := hsent.counting.sent
  change (c.wire ++ bs).length + c.req.pending.length + (c.sentPart bs c.sys c.waits).req.left = _
    at hall
  rw [List.length_append] at hall
  refine ⟨⟨h.counting.filter, ?_, hsent.counting.counted, ?_⟩, h.method, h.source, hsent.range,
    h.single⟩
  · exact Nat.le_trans h.counting.order (Nat.le_add_right _ _)
  · change c.wire.length + (c.req.append bs).pending.length +
      (c.sentPart bs c.sys c.waits).req.left = _
    rw [hpend, List.length_append]
    omega

/-- The range is used up. -/
theorem completeResponse_returned (h : ServesOne e base total c) (h0 : c.req.left = 0) :
    Returned e base total (exec (completeResponse e) c) (value (completeResponse e) c) := by
  obtain ⟨hv, he⟩ := completeResponse_single e h.single
  have hcount := h.counting
  rw [h0] at hcount
  rw [hv, he]
  exact .ends ⟨hcount.filter, hcount.order, hcount.counted, hcount.sent⟩ rfl

/-- The lengths as the code computes them. -/
theorem ServesOne.u64s (h : ServesOne e base total c) :
    u64 (c.req.range.stop + 2^64 - c.req.range.start + 1) = c.req.left ∧
      u64 (c.req.range.stop + 1 + 2^64 - c.req.range.start) = c.req.left := by
  obtain ⟨r, hr, horder, hword⟩ := h.range
  have hrange : c.req.range = r := by rw [Request.range, hr]; rfl
  refine u64_left (hrange ▸ horder) ?_
  unfold Request.left
  rw [hrange]
  omega

/-- Some of the range has been written; the flag is the code's test for its end. -/
theorem sentPart_returned (h : ServesOne e base total c) {bs : List Byte}
    (hle : bs.length ≤ c.req.left) (w : World) (d : Option (Nat × Dir)) {p : Prop} [Decidable p]
    (hp : p ↔ (c.sentPart bs w d).req.left = 0) :
    Returned e base total
      (if p then exec (completeResponse e) (c.sentPart bs w d) else c.sentPart bs w d)
      (if p then value (completeResponse e) (c.sentPart bs w d) else 1) := by
  have hnext := h.sentPart e hle w d
  split
  · rename_i hend
    exact completeResponse_returned e hnext (hp.mp hend)
  · exact .goesOn 1 (by decide) (.serving hnext)

theorem processGet_returned (h : ServesOne e base total c) :
    Returned e base total (exec (processGet e) c) (value (processGet e) c) := by
  have hhead : c.req.method ≠ .head := by rw [h.method]; decide
  have hn : min (u32 (u64 (c.req.range.stop + 2^64 - c.req.range.start + 1))) e.systemBufsize ≤
      c.req.left := by
    rw [h.u64s.1]
    exact Nat.le_trans (Nat.min_le_left _ _) (Nat.mod_le _ _)
  simp only [processGet, exec_bind, value_bind, exec_getReq, value_getReq, if_neg hhead]
  generalize min (u32 (u64 (c.req.range.stop + 2^64 - c.req.range.start + 1))) e.systemBufsize = n
    at hn
  have hmark : ServesOne e base total (exec (mark (.fileAccess c.req.range.start n)) c) :=
    h.frame e c.sys c.waits _
  have hleft : (exec (mark (.fileAccess c.req.range.start n)) c).req.left = c.req.left := rfl
  generalize (c.req.dataMem.getD []).drop c.req.range.start = data
  rw [← hleft] at hn
  generalize exec (mark (.fileAccess c.req.range.start n)) c = c1 at hmark hn ⊢
  have hbus : ServesOne e base total (exec sigbus c1) := hmark.frame e _ c1.waits c1.trace
  have hn' : n ≤ (exec sigbus c1).req.left := hn
  by_cases hb : value sigbus c1 = true
  · simp only [hb, if_true]
    exact .dies rfl
  · simp only [hb, Bool.false_eq_true, if_false, exec_bind, value_bind]
    generalize exec sigbus c1 = c2 at hbus hn' ⊢
    have hw := sockWrite_wrote (data.take n) c2
    generalize value (sockWrite (data.take n)) c2 = v at hw ⊢
    generalize exec (sockWrite (data.take n)) c2 = c3 at hw ⊢
    cases hw with
    | failed err w d =>
      have hnext : ServesOne e base total { c2 with sys := w, waits := d } := hbus.frame e w d _
      cases err with
      | again => exact .goesOn (-1) (by decide) (.serving hnext)
      | _ => exact .dies rfl
    | took k w d =>
      have hlen : ((data.take n).take k).length ≤ c2.req.left := by
        rw [List.length_take, List.length_take]
        omega
      have hstep : ∀ bs : List Byte,
          exec (modReq fun r => (r.counted bs.length).moveStart bs.length)
            { c2 with wire := c2.wire ++ bs, sys := w, waits := d } = c2.sentPart bs w d :=
        fun _ => rfl
      simp only [exec_bind, value_bind, hstep, exec_getReq, value_getReq, exec_ite, value_ite,
        exec_pure, value_pure]
      refine sentPart_returned e hbus hlen w d ?_
      rw [(hbus.sentPart e hlen w d).u64s.2]

/-- `io_shuffle_sendfile` asks whether the start of the range has passed its end. -/
theorem ServesOne.passed (h : ServesOne e base total c) :
    u64 (c.req.range.stop + 1) ≤ c.req.range.start ↔ c.req.left = 0 := by
  obtain ⟨r, hr, horder, hword⟩ := h.range
  have hrange : c.req.range = r := by rw [Request.range, hr]; rfl
  have hstop : u64 (r.stop + 1) = r.stop + 1 := Nat.mod_eq_of_lt hword
  unfold Request.left
  rw [hrange, hstop]
  omega

theorem ioShuffleSendfile_returned (h : ServesOne e base total c) :
    Returned e base total (exec (ioShuffleSendfile e) c) (value (ioShuffleSendfile e) c) := by
  have hhead : c.req.method ≠ .head := by rw [h.method]; decide
  have hn : min c.req.left e.systemBufsize ≤ c.req.left := Nat.min_le_left _ _
  simp only [ioShuffleSendfile, exec_bind, value_bind, exec_get, value_get, if_neg hhead, h.u64s.1]
  generalize min c.req.left e.systemBufsize = n at hn
  by_cases hn0 : n = 0
  · simp only [if_pos hn0, exec_ite, value_ite, exec_pure, value_pure]
    split
    · rename_i hend
      exact completeResponse_returned e h (h.passed.mp hend)
    · exact .goesOn 1 (by decide) (.serving h)
  · simp only [if_neg hn0]
    by_cases hoff : c.req.range.start ≥ 2^63
    · simp only [if_pos hoff]
      exact .dies rfl
    · simp only [if_neg hoff, exec_bind, value_bind]
      have hmark : ServesOne e base total (exec (mark (.fileAccess c.req.range.start n)) c) :=
        h.frame e c.sys c.waits _
      have hn' : n ≤ (exec (mark (.fileAccess c.req.range.start n)) c).req.left := hn
      generalize c.req.dataFile.drop c.req.range.start = data
      generalize c.sys.sock.length = tries
      generalize exec (mark (.fileAccess c.req.range.start n)) c = c1 at hmark hn' ⊢
      have hw := retryIntr_wrote (data.take n) tries c1
      generalize value (retryIntr (sockWrite (data.take n)) tries) c1 = v at hw ⊢
      generalize exec (retryIntr (sockWrite (data.take n)) tries) c1 = c2 at hw ⊢
      cases hw with
      | failed err w d =>
        have hnext : ServesOne e base total { c1 with sys := w, waits := d } := hmark.frame e w d _
        cases err with
        | again => exact .goesOn (-1) (by decide) (.serving hnext)
        | _ => exact .dies rfl
      | took k w d =>
        have hlen : ((data.take n).take k).length ≤ c1.req.left := by
          rw [List.length_take, List.length_take]
          omega
        generalize (data.take n).take k = bs at hlen
        have hstep : exec (modReq fun r => (r.counted bs.length).moveStart bs.length)
            { c1 with wire := c1.wire ++ bs, sys := w, waits := d } = c1.sentPart bs w d := rfl
        by_cases hnone : bs.length = 0
        · have hnil : bs = [] := List.length_eq_zero_iff.mp hnone
          subst hnil
          simp only [List.length_nil, if_true, List.append_nil]
          exact .goesOn (-1) (by decide) (.serving (hmark.frame e w d _))
        · simp only [if_neg hnone, exec_bind, value_bind, hstep, exec_getReq, value_getReq, exec_ite,
            value_ite, exec_pure, value_pure]
          exact sentPart_returned e hmark hlen w d (hmark.sentPart e hlen w d).passed

/-- The response is complete; what is left of it is in the buffer. -/
theorem processDone_returned (h : Counting base total 0 c) (hs : c.req.status = .done) :
    Returned e base total (exec (processDone e) c) (value (processDone e) c) := by
  have hout := reqFlush_outcome e (c := c) (by rw [hs]; rfl) h.filter h.order
  simp only [processDone, exec_bind, value_bind]
  generalize value (reqFlush e) c = i at hout ⊢
  generalize exec (reqFlush e) c = c' at hout ⊢
  cases hout with
  | took k w hk hshort he =>
    have hnext := h.took hk w
    have hstatus : (c.req.taken k).status = .done := by
      obtain ⟨b, i, hsame⟩ := taken_same c.req k
      rw [hsame]
      exact hs
    rw [if_neg (by omega), he]
    by_cases hpos : ((c.req.taken k).bufferEnd : Int) > 0
    · rw [if_pos hpos]
      exact .goesOn 1 (by decide) (.ended hnext hstatus)
    · have hzero : ((c.req.taken k).bufferEnd : Int) = 0 := by omega
      rw [if_neg hpos, hzero]
      exact .ends hnext hstatus
  | blocked w he =>
    rw [he]
    exact .goesOn (-1) (by decide) (.ended (h.frame w _) hs)
  | failed w he => exact .dies (he ▸ rfl)

theorem processStatus_over (h : c.req.status.over = true) :
    Returned e base total (exec (processStatus e) c) (value (processStatus e) c) := by
  rcases (over_iff _).mp h with hs | hs <;>
    simp only [processStatus, exec_bind, value_bind, exec_getReq, value_getReq, hs]
  · exact .dies h
  · exact .dies h

theorem processStatus_serving (h : ServesOne e base total c) :
    Returned e base total (exec (processStatus e) c) (value (processStatus e) c) := by
  rcases h.source with hs | hs | ⟨hs, hsend⟩
  · exact processStatus_over e hs
  · simp only [processStatus, exec_bind, value_bind, exec_getReq, value_getReq, hs]
    exact processGet_returned e h
  · simp only [processStatus, exec_bind, value_bind, exec_getReq, value_getReq, hs, hsend, if_true]
    exact ioShuffleSendfile_returned e h

theorem processStatus_ended (h : Counting base total 0 c) (hs : c.req.status = .done) :
    Returned e base total (exec (processStatus e) c) (value (processStatus e) c) := by
  simp only [processStatus, exec_bind, value_bind, exec_getReq, value_getReq, hs]
  exact processDone_returned e h hs

/-- Bytes that the flush in front of the handler takes are not counted, and need not be. -/
theorem serveTurn_flushed (hs : c.req.status.over = false) (hc : Counting base total left c)
    (hstay : ∀ w d, Accounted e base total { c with sys := w, waits := d })
    (hnext : ∀ k w, k ≤ c.req.pending.length →
      let c' : Conn := { c with
        req := c.req.taken k, wire := c.wire ++ c.req.pending.take k, sys := w }
      Returned e base total (exec (processStatus e) c') (value (processStatus e) c'))
    (hskip : Returned e base total (exec (processStatus e) c) (value (processStatus e) c)) :
    Returned e base total (exec (serveTurn e) c) (value (serveTurn e) c) := by
  by_cases h0 : c.req.bufferEnd = 0
  · obtain ⟨he, hv⟩ := serveTurn_drained e h0
    rw [he, hv]
    exact hskip
  · simp only [serveTurn, exec_bind, value_bind]
    rcases topFlush_cases e hs hc.filter hc.order h0 with
      ⟨k, w, hk, -, hv, he⟩ | ⟨w, hv, he⟩ | ⟨hv, -, -, ho⟩
    · rw [hv, he, if_pos rfl]
      exact hnext k w hk
    · rw [hv, he, if_neg (by decide)]
      exact .goesOn (-1) (by decide) (hstay w _)
    · rw [hv, if_neg (by decide)]
      exact .dies ho

theorem serveTurn_over (h : c.req.status.over = true) :
    Returned e base total (exec (serveTurn e) c) (value (serveTurn e) c) := by
  obtain ⟨hv, he⟩ := topFlush_skip e (.inr h)
  simp only [serveTurn, exec_bind, value_bind, hv, he, if_true]
  exact processStatus_over e h

theorem serveTurn_returned (h : Accounted e base total c) :
    Returned e base total (exec (serveTurn e) c) (value (serveTurn e) c) := by
  cases h with
  | serving h =>
    by_cases hover : c.req.status.over = true
    · exact serveTurn_over e hover
    · refine serveTurn_flushed e (Bool.eq_false_iff.mpr hover) h.counting
        (fun w d => .serving (h.frame e w d _)) ?_ (processStatus_serving e h)
      intro k w hk
      exact processStatus_serving e (h.took e hk w)
  | ended h hs =>
    refine serveTurn_flushed e (by rw [hs]; rfl) h (fun w d => .ended (h.frame w d) hs) ?_
      (processStatus_ended e h hs)
    intro k w hk
    refine processStatus_ended e (h.took hk w) ?_
    obtain ⟨b, i, hsame⟩ := taken_same c.req k
    change (c.req.taken k).status = .done
    rw [hsame]
    exact hs
  | gone h => exact serveTurn_over e h

/-- The response on its way, and as `log_access` finds it. -/
inductive PrintsCount (e : Config) (base total : Nat) : Logged → Prop where
  | waits (c : Conn) (h : Accounted e base total c) : PrintsCount e base total ⟨c, false⟩
  | prints (c : Conn) (h : Counting base total 0 c) : PrintsCount e base total ⟨c, true⟩
  | lost (c : Conn) (h : c.req.status.over = true) : PrintsCount e base total ⟨c, true⟩

/-- The flush of `free_request`, in front of `log_access`. -/
theorem freeFlush_prints (h : Counting base total 0 c) (hs : c.req.status = .done) :
    PrintsCount e base total ⟨exec (freeFlush e) c, !value (freeFlush e) c⟩ := by
  by_cases h0 : c.req.bufferEnd = 0
  · obtain ⟨hv, he⟩ := freeFlush_skip e (.inl h0)
    rw [hv, he]
    exact .prints c h
  · have hdone : c.asDone = c := by
      unfold Conn.asDone
      rw [← hs]
    obtain ⟨hv, he⟩ := freeFlush_run e h0 (by rw [hs]; rfl)
    rw [hdone] at hv he
    have hout := reqFlush_outcome e (c := c) (by rw [hs]; rfl) h.filter h.order
    rw [hv, he]
    generalize value (reqFlush e) c = i at hout ⊢
    generalize exec (reqFlush e) c = c' at hout ⊢
    cases hout with
    | took k w hk hshort he =>
      have hnext := h.took hk w
      rw [if_neg (by omega), he]
      by_cases hpos : 0 < ((c.req.taken k).bufferEnd : Int)
      · rw [decide_eq_true hpos]
        refine .waits _ (.ended hnext ?_)
        obtain ⟨b, i, hsame⟩ := taken_same c.req k
        change (c.req.taken k).status = .done
        rw [hsame]
        exact hs
      · rw [decide_eq_false hpos]
        exact .prints _ hnext
    | blocked w he =>
      rw [he]
      exact .prints _ (h.frame w _)
    | failed w he => exact .lost _ rfl

theorem Returned.logs {ret : Int} (h : Returned e base total c ret) :
    PrintsCount e base total (c.logs e ret) := by
  cases h with
  | goesOn ret hret h =>
    rw [Conn.logs, if_neg hret]
    exact .waits c h
  | ends h hs =>
    rw [Conn.logs, if_pos rfl]
    exact freeFlush_prints e h hs
  | dies h =>
    obtain ⟨hv, he⟩ := freeFlush_skip e (.inr h)
    rw [Conn.logs, if_pos rfl, hv, he]
    exact .lost c h

theorem logTurn_prints (s : Logged) (w : World) (h : PrintsCount e base total s) :
    PrintsCount e base total (logTurn e s w) := by
  cases h with
  | waits c h =>
    have hnext : Accounted e base total { c with sys := w } := by
      cases h with
      | serving h => exact .serving (h.frame e w _ _)
      | ended h hs => exact .ended (h.frame w _) hs
      | gone h => exact .gone h
    exact (serveTurn_returned e hnext).logs
  | prints c h => exact .prints c h
  | lost c h => exact .lost c h

theorem PrintsCount.agrees {s : Logged} (h : PrintsCount e base total s) (hc : s.completed) :
    s.conn.req.bytesWritten + base = s.conn.wire.length := by
  obtain ⟨hlogged, hover, hpend⟩ := hc
  cases h with
  | waits c h => cases hlogged
  | prints c h =>
    have hcounted := h.counted
    have hsent := h.sent
    change c.req.pending = [] at hpend
    rw [hpend, List.length_nil] at hsent
    change c.req.bytesWritten + base = c.wire.length
    omega
  | lost c h =>
    rw [h] at hover
    cases hover

/-- The copy into the buffer is counted, and the socket is given it behind the header. -/
theorem fillBuffer_returned (h : ServesOne e base total c) (hbus : c.busError = false)
    (hheld : ∀ mem, c.req.dataMem = some mem →
      c.req.range.stop < maxFileMmap ∧ c.req.range.stop < mem.length) :
    Returned e base total (exec (fillBuffer e) c) (value (fillBuffer e) c) := by
  match hm : c.req.dataMem with
  | none =>
    simp only [fillBuffer, exec_bind, value_bind, exec_getReq, value_getReq, hm]
    exact .goesOn 1 (by decide) (.serving h)
  | some mem =>
    simp only [fillBuffer, exec_bind, value_bind, exec_getReq, value_getReq, hm]
    by_cases hroom : u32 (bufferSize + 2^32 - c.req.bufferEnd) ≤ 256
    · simp only [if_pos hroom]
      exact .goesOn 1 (by decide) (.serving h)
    · obtain ⟨hlt, hlen⟩ := hheld mem hm
      have hwant : u32 (u64 (c.req.range.stop + 2^64 - c.req.range.start + 1)) = c.req.left := by
        have hleft : c.req.left = c.req.range.stop + 1 - c.req.range.start := rfl
        unfold maxFileMmap at hlt
        rw [h.u64s.1, u32, Nat.mod_eq_of_lt (by omega)]
      have hnobus : c.sys.sigbus.headD false = false := by
        have hnle : 256 < u32 (bufferSize + 2^32 - c.req.bufferEnd) := by omega
        rw [Conn.busError, hm] at hbus
        simpa only [Option.isSome_some, Bool.true_and, gt_iff_lt, hnle, decide_true] using hbus
      simp only [if_neg hroom, hwant, exec_bind, value_bind]
      have hn : min (u32 (bufferSize + 2^32 - c.req.bufferEnd)) c.req.left ≤ c.req.left :=
        Nat.min_le_right _ _
      generalize min (u32 (bufferSize + 2^32 - c.req.bufferEnd)) c.req.left = n at hn
      have hmark : ServesOne e base total (exec (mark (.fileAccess c.req.range.start n)) c) :=
        h.frame e c.sys c.waits _
      have hn' : n ≤ (exec (mark (.fileAccess c.req.range.start n)) c).req.left := hn
      have hheld' : c.req.range.start + n ≤ mem.length := by
        obtain ⟨r, hr, horder, -⟩ := h.range
        have hrange : c.req.range = r := by rw [Request.range, hr]; rfl
        unfold Request.left at hn
        rw [hrange] at hn hlen ⊢
        omega
      have hstart : (exec (mark (.fileAccess c.req.range.start n)) c).req.range.start =
        c.req.range.start := rfl
      have hnobus' : value sigbus (exec (mark (.fileAccess c.req.range.start n)) c) = false := hnobus
      have hleft : (exec (mark (.fileAccess c.req.range.start n)) c).req.left = c.req.left := rfl
      rw [← hstart] at hheld'
      rw [← hleft]
      generalize exec (mark (.fileAccess c.req.range.start n)) c = c1 at hmark hn' hheld' hnobus' ⊢
      have hbus' : ServesOne e base total (exec sigbus c1) := hmark.frame e _ c1.waits c1.trace
      simp only [hnobus', Bool.false_eq_true, if_false, exec_bind, value_bind]
      obtain ⟨bs, hbs⟩ : ∃ bs, (mem.drop c1.req.range.start).take n = bs := ⟨_, rfl⟩
      have hlen' : bs.length = n := by
        rw [← hbs, List.length_take, List.length_drop]
        omega
      have hcopy : exec (modReq fun r =>
            ((r.append ((mem.drop r.range.start).take n)).counted n).moveStart n) (exec sigbus c1) =
          { exec sigbus c1 with
            req := (((exec sigbus c1).req.append bs).counted bs.length).moveStart bs.length } := by
        rw [hlen', ← hbs]
        rfl
      have hnext := hbus'.copied e (show bs.length ≤ (exec sigbus c1).req.left from hlen' ▸ hn')
      rw [hcopy]
      generalize hc2 : ({ exec sigbus c1 with
        req := (((exec sigbus c1).req.append bs).counted bs.length).moveStart bs.length } : Conn) = c2
        at hnext ⊢
      have hleft2 : c2.req.left = c1.req.left - n := by
        rw [← hc2, ← hlen']
        exact (Nat.sub_sub _ _ _).symm
      split
      · rename_i hend
        exact completeResponse_returned e hnext (by omega)
      · exact .goesOn 1 (by decide) (.serving hnext)

end Steps

/-! The start of the response. -/

/-- A GET of one range of a file with contents, or of all of it. -/
structure AsksOne (e : Config) (f : File) (c : Conn) : Prop where
  asked : Asked f c
  serves : c.servesFile e f = true
  ranges : c.req.ranges.length ≤ 1
  numranges : c.req.numranges ≤ 1
  fresh : c.req.bytesWritten = 0

/-- `io_shuffle` has no part in the response: the file is mapped, and the copy of `init_get` has
not failed on it, or there is `sendfile`. -/
def Conn.countsAll (e : Config) (fd : Nat) (f : File) (c : Conn) : Prop :=
  (e.build.haveSendfile = true ∨ f.size ≤ maxFileMmap ∧ c.sys.mmap = true) ∧
    (headed e fd f (c.opened f)).busError = false

/-- The bytes up to the end of the header of this response. -/
def Conn.headerEnd (e : Config) (fd : Nat) (f : File) (c : Conn) : Nat :=
  (headed e fd f (c.opened f)).page.length

section Start

variable (e : Config) {f : File} {c : Conn}

theorem rangesLeft_length (size : Nat) (rs : List Range) :
    (rangesLeft size rs).length ≤ rs.length := by
  unfold rangesLeft
  split
  · exact Nat.zero_le _
  · exact List.length_filterMap_le _ _

theorem serveHeader_ranges (h : c.req.ranges.length ≤ 1) :
    (exec (serveHeader e) c).req.ranges.length ≤ 1 := by
  simp only [serveHeader, exec_bind, exec_getReq, value_getReq]
  split
  · simp only [rangesFixup, exec_bind, value_bind, exec_modReq, value_getReq, exec_getReq]
    have hone := rangesLeft_length c.req.filesize [⟨0, minusOne⟩]
    split
    · rw [if_neg (by exact Bool.false_ne_true)]
      change (exec (sendRInvalidRange e) _).req.ranges.length ≤ 1
      rw [(sendRInvalidRange_outputs e _).ranges]
      exact hone
    · rw [if_pos (by rfl)]
      change (exec (sendRRequestOk e) _).req.ranges.length ≤ 1
      rw [(sendRRequestOk_outputs e _).ranges]
      exact hone
  · change (exec (sendRPartialContent e) c).req.ranges.length ≤ 1
    rw [(sendRPartialContent_outputs e c).ranges]
    exact h

theorem mapFile_keeps (fd : Nat) :
    (exec (mapFile fd f) c).req.bytesWritten = c.req.bytesWritten ∧
      (exec (mapFile fd f) c).req.numranges = c.req.numranges ∧
      (exec (mapFile fd f) c).req.ranges = c.req.ranges ∧
      (c.req.filesize ≤ maxFileMmap → c.sys.mmap = true →
        (exec (mapFile fd f) c).req.dataMem = some f.mapped) := by
  simp only [mapFile, exec_bind, exec_get, value_get, exec_ite]
  split
  · rename_i hno
    refine ⟨rfl, rfl, rfl, fun hsize hmap => ?_⟩
    rcases hno with hbig | hnot
    · exact absurd hsize (Nat.not_le.mpr hbig)
    · rw [hmap] at hnot
      cases hnot
  · exact ⟨rfl, rfl, rfl, fun _ _ => rfl⟩

/-- Behind its header the response is as the handlers expect it. -/
theorem headed_serves (fd : Nat) (h : AsksOne e f c) (hc : c.countsAll e fd f) :
    ServesOne e (c.headerEnd e fd f) (headed e fd f (c.opened f)).req.left
      (headed e fd f (c.opened f)) := by
  obtain ⟨-, hhead, ⟨hopen, r, rs, hr, hok⟩, -⟩ := headed_open e fd (h.asked.settled e h.serves)
  obtain ⟨hcount, hnum, hranges, hmem⟩ :=
    mapFile_keeps (c := exec (mark .serveFile) (c.opened f)) (f := f) fd
  simp only [exec_bind] at hhead
  have haside := (serveHeader_replies e
    (exec (mapFile fd f) (exec (mark .serveFile) (c.opened f)))).aside
  have hsingle := serveHeader_ranges e (c := exec (mapFile fd f) (exec (mark .serveFile) (c.opened f)))
    (by rw [hranges]; exact Nat.le_trans (rangesLeft_length _ _) h.ranges)
  rw [hhead] at haside hsingle
  have hcount' := (congrArg Request.bytesWritten haside).trans hcount
  have hnum' := (congrArg Request.numranges haside).trans hnum
  have hmem' := congrArg Request.dataMem haside
  unfold Conn.headerEnd
  generalize headed e fd f (c.opened f) = c1 at *
  have hzero : c1.req.bytesWritten = 0 := hcount'.trans h.fresh
  have hone : c1.req.numranges ≤ 1 := (Nat.le_of_eq hnum').trans h.numranges
  have hlast : rs = [] := by
    rw [hr, List.length_cons] at hsingle
    exact List.length_eq_zero_iff.mp (by omega)
  refine ⟨⟨hopen.filter, hopen.order, ?_, ?_⟩, hopen.method, ?_, ⟨r, hlast ▸ hr, ?_, hok.2⟩, ?_⟩
  · rw [hzero, Nat.zero_add]
  · rw [Conn.page, List.length_append]
  · rcases hopen.source with hs | ⟨hs, -⟩ | ⟨hs, hnone⟩
    · exact .inl hs
    · exact .inr (.inl hs)
    · refine .inr (.inr ⟨hs, hc.1.resolve_right ?_⟩)
      rintro ⟨hsize, hmap⟩
      have hsome : c1.req.dataMem = some f.mapped := hmem'.trans (hmem hsize hmap)
      rw [hsome] at hnone
      cases hnone
  · exact Nat.le_succ_of_le hok.1
  · rintro ⟨-, hmany⟩
    omega

theorem logStart_prints (fd : Nat) (h : AsksOne e f c) (hc : c.countsAll e fd f) :
    PrintsCount e (c.headerEnd e fd f) (headed e fd f (c.opened f)).req.left (logStart e fd f c) := by
  have hsettled := h.asked.settled e h.serves
  obtain ⟨hopened, hret⟩ := initGetFile_serves e fd h.serves
  obtain ⟨hfilled, hret'⟩ := serveFile_filled e fd hsettled
  obtain ⟨-, -, ⟨-, r, rs, hr, -⟩, hshort⟩ := headed_open e fd hsettled
  have hserves := headed_serves e fd h hc
  have hheld : ∀ mem, (headed e fd f (c.opened f)).req.dataMem = some mem →
      (headed e fd f (c.opened f)).req.range.stop < maxFileMmap ∧
        (headed e fd f (c.opened f)).req.range.stop < mem.length := by
    intro mem hm
    refine hshort mem hm _ ?_
    rw [Request.range, hr]
    exact List.mem_cons_self ..
  rw [logStart, hopened, hret, hfilled, hret']
  exact (fillBuffer_returned e hserves hc.2 hheld).logs

/-- Transfer accounting: when the response is out, the number that `log_access` prints is that
of the bytes behind its header, in whatever pieces the socket has taken them. -/
theorem accounting_agrees (fd : Nat) (ws : List World) (h : AsksOne e f c)
    (hc : c.countsAll e fd f) :
    ∀ s ∈ Run.states (logTurn e) (logStart e fd f c) ws, s.completed →
      c.headerEnd e fd f + s.conn.req.bytesWritten = s.conn.wire.length := by
  intro s hs hdone
  have hstep : ∀ s w, PrintsCount e (c.headerEnd e fd f) (headed e fd f (c.opened f)).req.left s →
      True → PrintsCount e (c.headerEnd e fd f) (headed e fd f (c.opened f)).req.left (logTurn e s w) :=
    fun s w hp _ => logTurn_prints e s w hp
  have hprints := Run.invariant hstep (logStart_prints e fd h hc) (Run.allSteps_true _ ws) s hs
  rw [Nat.add_comm]
  exact hprints.agrees e hdone

end Start

/-- A GET of the file `twoBytes` behind its header. -/
def twoBytesAsked (mmap : Bool) : Conn where
  req := {
    status := .write, method := .get, httpVersion := .http11, requestUri := str "/f"
    fd := 5, kacount := 10 }
  sys := { mmap := mmap, sock := [.done 100] }

theorem twoBytesAsked_asksOne (mmap : Bool) : AsksOne {} twoBytes (twoBytesAsked mmap) :=
  ⟨⟨rfl, rfl, rfl, rfl, Nat.le_refl 0, by decide⟩, rfl, Nat.zero_le 1, Nat.zero_le 1, rfl⟩

instance (s : Logged) : Decidable s.completed := inferInstanceAs (Decidable (_ ∧ _ ∧ _))

/-- The socket takes 100 bytes of the header, and then the rest with the data. -/
theorem accounting_agrees_twoBytes :
    (Run.final (logTurn {}) (logStart {} 7 twoBytes (twoBytesAsked true))
        [{ sock := [.done 500] }]).completed ∧
      (twoBytesAsked true).headerEnd {} 7 twoBytes +
          (Run.final (logTurn {}) (logStart {} 7 twoBytes (twoBytesAsked true))
            [{ sock := [.done 500] }]).conn.req.bytesWritten =
        (Run.final (logTurn {}) (logStart {} 7 twoBytes (twoBytesAsked true))
          [{ sock := [.done 500] }]).conn.wire.length := by
  have hdone : (Run.final (logTurn {}) (logStart {} 7 twoBytes (twoBytesAsked true))
      [{ sock := [.done 500] }]).completed := by decide +kernel
  refine ⟨hdone, accounting_agrees {} 7 _ (twoBytesAsked_asksOne true) ?_ _
    (Run.final_mem_states _ _) hdone⟩
  exact ⟨.inr ⟨by decide, rfl⟩, by decide +kernel⟩

/-- The header goes out before `io_shuffle` reads the two bytes; the flush of `free_request`
sends these, and nothing has been counted. -/
theorem shuffled_uncounted :
    AsksOne {} twoBytes (twoBytesAsked false) ∧
      ∃ ws, ∃ s ∈ Run.states (logTurn {}) (logStart {} 7 twoBytes (twoBytesAsked false)) ws,
        s.completed ∧ s.conn.req.bytesWritten = 0 ∧
          (twoBytesAsked false).headerEnd {} 7 twoBytes + 2 = s.conn.wire.length := by
  refine ⟨twoBytesAsked_asksOne false,
    [{ sock := [.done 500, .done 2], file := [.done 2] }], _, Run.final_mem_states _ _, ?_⟩
  decide +kernel

end Crotalus
