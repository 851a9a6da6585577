import Crotalus.Server.Request
import Crotalus.Framework.Run
import Crotalus.Spec.Output
import Crotalus.Spec.Turn
import Crotalus.Properties.FreeRequest

namespace Crotalus

open Stateful

/-! The bytes a response to GET still owes, in the order in which they are to be sent. -/

/-- The data of a range. -/
def part (data : List Byte) (r : Range) : List Byte :=
  (data.drop r.start).take (r.stop + 1 - r.start)

/-- A range whose numbers fit the machine words that count it. -/
def Range.Ok (r : Range) : Prop := r.start ≤ r.stop ∧ r.stop + 1 < 2^64

/-- What is sent between two parts, when `rs` is what is left. -/
def partHeader (e : Config) (r : Request) (rs : List Range) : Text :=
  texts (printPartialContentContinue e { r with ranges := rs } ++ [nl])

/-- What follows the part of the current range. -/
def laterParts (e : Config) (r : Request) (data : List Byte) : List Range → Text
  | [] => closing
  | r1 :: rs => partHeader e r (r1 :: rs) ++ part data r1 ++ laterParts e r data rs

def Request.content (r : Request) : List Byte := r.dataMem.getD r.dataFile

/-- What no channel has been given yet. -/
def Request.remaining (e : Config) (r : Request) : Text :=
  match r.ranges with
  | [] => []
  | r1 :: rs =>
    part r.content r1 ++ if r.multipart then laterParts e r r.content rs else []

theorem laterParts_congr {e : Config} {r r' : Request}
    (hp : ∀ rs, partHeader e r' rs = partHeader e r rs) (data : List Byte) (rs : List Range) :
    laterParts e r' data rs = laterParts e r data rs := by
  induction rs with
  | nil => rfl
  | cons r1 rs ih => rw [laterParts, laterParts, hp, ih]

/-- Only the ranges, the data and what the part headers say matter. -/
theorem remaining_congr {e : Config} {r r' : Request} (hr : r'.ranges = r.ranges)
    (hd : r'.content = r.content) (hs : r'.responseStatus = r.responseStatus)
    (hn : r'.numranges = r.numranges) (hp : ∀ rs, partHeader e r' rs = partHeader e r rs) :
    r'.remaining e = r.remaining e := by
  have hm : r'.multipart ↔ r.multipart := by unfold Request.multipart; rw [hs, hn]
  unfold Request.remaining
  rw [hr, hd]
  cases r.ranges with
  | nil => rfl
  | cons r1 rs =>
    by_cases h : r.multipart
    · simp only [if_pos h, if_pos (hm.mpr h), laterParts_congr hp]
    · simp only [if_neg h, if_neg (fun h' => h (hm.mp h'))]

theorem part_spent (data : List Byte) (r : Range) (h : r.start = r.stop + 1) :
    part data r = [] := by
  rw [part, h, Nat.sub_self, List.take_zero]

/-- Some bytes from the front of a part, and the part that is left. -/
theorem part_advance (data : List Byte) (r : Range) (n k : Nat) (hn : n ≤ r.stop + 1 - r.start) :
    ((data.drop r.start).take n).take k ++
        part data { r with start := r.start + (((data.drop r.start).take n).take k).length } =
      part data r := by
  let x := data.drop r.start
  let m := ((x.take n).take k).length
  have hm : m = min (min k n) x.length := by
    simp only [m, List.length_take, Nat.min_assoc]
  have htake : (x.take n).take k = x.take m := by
    rw [List.take_take, List.take_eq_take_iff]
    omega
  have hrest : part data { r with start := r.start + m } =
      (x.drop m).take (r.stop + 1 - r.start - m) := by
    rw [part, List.drop_drop]
    congr 1
    change r.stop + 1 - (r.start + m) = _
    omega
  calc (x.take n).take k ++ part data { r with start := r.start + m }
      = x.take m ++ (x.drop m).take (r.stop + 1 - r.start - m) := by rw [htake, hrest]
    _ = x.take (m + (r.stop + 1 - r.start - m)) := List.take_add.symm
    _ = part data r := by
      rw [part, Nat.add_sub_of_le (by omega)]

/-! The phases of a response. `text` is all it puts on the wire, if nothing goes wrong. -/

/-- Bytes are waiting, and the text goes on behind them. -/
structure Closing (text : Text) (c : Conn) : Prop where
  filter : c.req.filter = none
  order : c.req.bufferStart ≤ c.req.bufferEnd
  sent : c.wire ++ c.req.pending <+: text

structure Dead (text : Text) (c : Conn) : Prop where
  filter : c.req.filter = none
  ended : c.req.status.over = true
  sent : c.wire <+: text

/-- The indices of the buffer have crossed: nothing more can be sent. -/
structure Lost (text : Text) (c : Conn) : Prop where
  filter : c.req.filter = none
  crossed : c.req.bufferEnd < c.req.bufferStart
  sent : c.wire <+: text

/-- The request whose current range is to be served from the mapping or the descriptor. -/
structure Serving (e : Config) (text : Text) (c : Conn) : Prop where
  source : c.req.status.over = true ∨ (c.req.status = .write ∧ c.req.dataMem.isSome) ∨
    (c.req.status = .ioshuffle ∧ c.req.dataMem = none)
  method : c.req.method = .get
  filter : c.req.filter = none
  order : c.req.bufferStart ≤ c.req.bufferEnd
  later : ∀ r ∈ c.req.ranges.tail, r.Ok
  sent : c.wire ++ c.req.pending ++ c.req.remaining e = text

/-- The current range has bytes left. -/
def Open (e : Config) (text : Text) (c : Conn) : Prop :=
  Serving e text c ∧ ∃ r rs, c.req.ranges = r :: rs ∧ r.Ok

/-- It has, and the request is not given up. -/
def Live (e : Config) (text : Text) (c : Conn) : Prop :=
  Serving e text c ∧ c.req.status.over = false ∧ ∃ r rs, c.req.ranges = r :: rs ∧ r.Ok

/-- The current range is used up. -/
def Spent (e : Config) (text : Text) (c : Conn) : Prop :=
  Serving e text c ∧ ∃ r rs, c.req.ranges = r :: rs ∧ r.start = r.stop + 1

def Ended (text : Text) (c : Conn) : Prop := c.req.status = .done ∧ Closing text c

inductive Phase (e : Config) (text : Text) (c : Conn) : Prop where
  | live (h : Live e text c)
  | ended (h : Ended text c)
  | dead (h : Dead text c)

/-- The connection is closed, or ready for its next request. -/
def Gone (text : Text) (c : Conn) : Prop :=
  (c.place = .free ∨ c.req.status = .readHeader) ∧ c.wire <+: text

def InOrder (e : Config) (text : Text) (c : Conn) : Prop := Phase e text c ∨ Gone text c

theorem Closing.wire {text : Text} {c : Conn} (h : Closing text c) : c.wire <+: text :=
  (List.prefix_append _ _).trans h.sent

theorem Serving.closing {e : Config} {text : Text} {c : Conn} (h : Serving e text c) :
    Closing text c :=
  ⟨h.filter, h.order, h.sent ▸ List.prefix_append _ _⟩

theorem Phase.wire {e : Config} {text : Text} {c : Conn} (h : Phase e text c) :
    c.wire <+: text := by
  cases h with
  | live h => exact h.1.closing.wire
  | ended h => exact h.2.wire
  | dead h => exact h.sent

theorem InOrder.wire {e : Config} {text : Text} {c : Conn} (h : InOrder e text c) :
    c.wire <+: text := by
  rcases h with h | h
  · exact h.wire
  · exact h.2

/-! The end of a turn. -/

section Turn

variable (e : Config) {text : Text} {c : Conn}

theorem release_gone (h : c.wire <+: text) : Gone text (exec release c) := by
  obtain ⟨hw, hp⟩ := release_spec c
  refine ⟨?_, hw ▸ h⟩
  by_cases hk : c.req.keepsAlive = true
  · right
    have hka := keepsAlive_release c.req
    unfold release
    simp only [exec_bind, exec_modReq, value_getReq, exec_getReq, hka, hk, if_true,
      recycle, exec_modify, req_fdSet, req_fdClr]
    rfl
  · left
    rw [hp, if_neg hk]

theorem dispose_gone (hf : c.req.filter = none) (h : c.wire <+: text) :
    Gone text (exec (dispose e) c) := by
  have hrun : exec (dispose e) c = exec release c := by
    simp only [dispose, finishFilter, exec_bind, exec_getReq, value_getReq, hf, exec_pure]
  exact hrun ▸ release_gone h

/-- A flush that takes bytes, or would block, leaves the order as it was. -/
theorem Closing.took (h : Closing text c) {k : Nat} (w : World)
    (hk : k ≤ c.req.pending.length) :
    Closing text { c with
      req := c.req.taken k, wire := c.wire ++ c.req.pending.take k, sys := w } := by
  refine ⟨?_, c.req.taken_le h.order hk, ?_⟩
  · have hf : (c.req.taken k).filter = c.req.filter := by
      unfold Request.taken
      split <;> rfl
    exact hf.trans h.filter
  · change c.wire ++ c.req.pending.take k ++ (c.req.taken k).pending <+: text
    rw [c.req.pending_taken_le h.order hk, List.append_assoc, List.take_append_drop]
    exact h.sent

theorem freeRequest_over (hf : c.req.filter = none) (h : c.wire <+: text)
    (hskip : c.req.bufferEnd = 0 ∨ c.req.status.over = true) :
    InOrder e text (exec (freeRequest e) c) := by
  obtain ⟨hv, he⟩ := freeFlush_skip e hskip
  rw [freeRequest_leaves e hv, he]
  exact .inr (dispose_gone e hf h)

theorem freeRequest_lost (h : Lost text c) : InOrder e text (exec (freeRequest e) c) := by
  by_cases hskip : c.req.bufferEnd = 0 ∨ c.req.status.over = true
  · exact freeRequest_over e h.filter h.sent hskip
  · have h0 : c.req.bufferEnd ≠ 0 := fun h => hskip (.inl h)
    have hs : c.req.status.over = false := by simpa using fun h => hskip (.inr h)
    obtain ⟨hvf, hef⟩ := freeFlush_run e h0 hs
    obtain ⟨hv, he⟩ := reqFlush_crossed e (c := c.asDone) rfl h.filter h.crossed
    rw [hv] at hvf hef
    rw [if_pos rfl, he] at hef
    rw [freeRequest_leaves e (by rw [hvf]; rfl), hef]
    exact .inr (dispose_gone e h.filter h.sent)

theorem freeRequest_closing (hc : Closing text c) : InOrder e text (exec (freeRequest e) c) := by
  by_cases hskip : c.req.bufferEnd = 0 ∨ c.req.status.over = true
  · exact freeRequest_over e hc.filter hc.wire hskip
  · have hf := hc.filter
    have h0 : c.req.bufferEnd ≠ 0 := fun h => hskip (.inl h)
    have hs : c.req.status.over = false := by simpa using fun h => hskip (.inr h)
    have hdone : Closing text c.asDone := ⟨hc.filter, hc.order, hc.sent⟩
    obtain ⟨hvf, hef⟩ := freeFlush_run e h0 hs
    generalize hv : value (reqFlush e) c.asDone = i at hvf hef
    have hout := reqFlush_outcome e (c := c.asDone) rfl hf hc.order
    rw [hv] at hout
    cases hout with
    | took k w hk hshort he =>
      rw [if_neg (by omega), he] at hef
      have hnext := hdone.took w hk
      by_cases hpos : 0 < (c.asDone.req.taken k).bufferEnd
      · rw [freeRequest_stays e (by rw [hvf]; exact decide_eq_true (Int.natCast_pos.mpr hpos)), hef]
        refine .inl (.ended ⟨?_, hnext⟩)
        change (c.asDone.req.taken k).status = .done
        unfold Request.taken
        split <;> rfl
      · rw [freeRequest_leaves e (by rw [hvf]; exact decide_eq_false (by omega)), hef]
        exact .inr (dispose_gone e hnext.filter hnext.wire)
    | blocked w he =>
      rw [if_neg (by decide), he] at hef
      rw [freeRequest_leaves e (by rw [hvf]; rfl), hef]
      exact .inr (dispose_gone e hf hc.wire)
    | failed w he =>
      rw [if_pos rfl, he] at hef
      rw [freeRequest_leaves e (by rw [hvf]; rfl), hef]
      exact .inr (dispose_gone e hf hc.wire)

theorem freeRequest_dead (h : Dead text c) : InOrder e text (exec (freeRequest e) c) :=
  freeRequest_over e h.filter h.sent (.inr h.ended)

/-- What a handler that returned `ret` leaves to `settle`. -/
inductive Turned (e : Config) (text : Text) (c : Conn) : Int → Prop where
  | blocks (h : Phase e text c) : Turned e text c (-1)
  | ends (h : Closing text c) : Turned e text c 0
  | dies (h : Dead text c) : Turned e text c 0
  | loses (h : Lost text c) : Turned e text c 0
  | goesOn (h : Phase e text c) : Turned e text c 1

/-- Nothing has changed but the queue, the descriptor sets, the clock and keep-alive. -/
structure SameOutput (c c' : Conn) : Prop where
  wire : c'.wire = c.wire
  req : ∃ k t, c'.req = { c.req with keepalive := k, timeLast := t }

theorem SameOutput.trans {c c' c'' : Conn} (h : SameOutput c c') (h' : SameOutput c' c'') :
    SameOutput c c'' := by
  obtain ⟨k, t, hr⟩ := h.req
  obtain ⟨k', t', hr'⟩ := h'.req
  exact ⟨h'.wire.trans h.wire, k', t', by rw [hr', hr]⟩

theorem Closing.same {c' : Conn} (h : Closing text c) (hs : SameOutput c c') :
    Closing text c' := by
  obtain ⟨k, t, hr⟩ := hs.req
  constructor
  · rw [hr]; exact h.filter
  · rw [hr]; exact h.order
  · rw [hr, hs.wire]; exact h.sent

theorem Dead.same {c' : Conn} (h : Dead text c) (hs : SameOutput c c') : Dead text c' := by
  obtain ⟨k, t, hr⟩ := hs.req
  constructor
  · rw [hr]; exact h.filter
  · rw [hr]; exact h.ended
  · rw [hs.wire]; exact h.sent

theorem Lost.same {c' : Conn} (h : Lost text c) (hs : SameOutput c c') : Lost text c' := by
  obtain ⟨k, t, hr⟩ := hs.req
  constructor
  · rw [hr]; exact h.filter
  · rw [hr]; exact h.crossed
  · rw [hs.wire]; exact h.sent

theorem Serving.same {c' : Conn} (h : Serving e text c) (hs : SameOutput c c') :
    Serving e text c' := by
  obtain ⟨k, t, hr⟩ := hs.req
  have hp : c'.req.pending = c.req.pending := by rw [hr]; rfl
  have hrem : c'.req.remaining e = c.req.remaining e := by
    rw [hr]
    exact remaining_congr rfl rfl rfl rfl fun _ => rfl
  constructor
  · rw [hr]; exact h.source
  · rw [hr]; exact h.method
  · rw [hr]; exact h.filter
  · rw [hr]; exact h.order
  · rw [hr]; exact h.later
  · rw [hs.wire, hp, hrem]; exact h.sent

theorem Phase.same {c' : Conn} (h : Phase e text c) (hs : SameOutput c c') :
    Phase e text c' := by
  obtain ⟨k, t, hr⟩ := hs.req
  cases h with
  | live h => exact .live ⟨h.1.same e hs, by rw [hr]; exact h.2⟩
  | ended h => exact .ended ⟨by rw [hr]; exact h.1, h.2.same hs⟩
  | dead h => exact .dead (h.same hs)

theorem sameOutput_touch : SameOutput c (exec touch c) :=
  ⟨rfl, c.req.keepalive, c.sys.now, rfl⟩

theorem sameOutput_squash (b : Bool) : SameOutput c (exec (onlyIf b squashKa) c) := by
  cases b
  · exact ⟨rfl, c.req.keepalive, c.req.timeLast, rfl⟩
  · exact ⟨rfl, .stopped, c.req.timeLast, rfl⟩

theorem sameOutput_block : SameOutput c (exec (blockRequest e) c) := by
  refine ⟨?_, c.req.keepalive, c.req.timeLast, ?_⟩
  · simp only [blockRequest, exec_bind, exec_setPlace, exec_getReq, wire_fdSet]
  · simp only [blockRequest, exec_bind, exec_setPlace, exec_getReq, req_fdSet]

theorem settle_inOrder {ret : Int} (h : Turned e text c ret) :
    InOrder e text (exec (settle e ret) c) := by
  have hq := sameOutput_squash (c := c) c.sys.sigterm
  simp only [settle, exec_bind, exec_get, value_get]
  cases h with
  | blocks h =>
    exact .inl ((h.same e hq).same e (sameOutput_block e))
  | ends h => exact freeRequest_closing e (h.same (hq.trans sameOutput_touch))
  | dies h => exact freeRequest_dead e (h.same (hq.trans sameOutput_touch))
  | loses h => exact freeRequest_lost e (h.same (hq.trans sameOutput_touch))
  | goesOn h =>
    exact .inl (h.same e (hq.trans sameOutput_touch))

end Turn

/-! The handlers of a file response. -/

section Handlers

variable (e : Config) {text : Text} {c : Conn}

theorem Live.source (h : Live e text c) :
    (c.req.status = .write ∧ c.req.dataMem.isSome) ∨
      (c.req.status = .ioshuffle ∧ c.req.dataMem = none) :=
  h.1.source.resolve_left (by rw [h.2.1]; decide)

theorem raw_partHeader (r : Request) :
    (printPartialContentContinue e r ++ [nl]).all Piece.isRaw = true := by
  have hct : (printContentType e r).all Piece.isRaw = true := by
    unfold printContentType
    cases e.defaultCharset with
    | none => rfl
    | some cs =>
      simp only [List.all_append]
      split <;> rfl
  have hsep : (if r.numranges > 1 then [Piece.raw separator] else []).all Piece.isRaw = true := by
    split <;> rfl
  simp only [printPartialContentContinue, List.all_append, hsep, hct, Bool.and_true]
  rfl

theorem Closing.buffers (h : Closing text c) {msg : Text}
    (hm : c.wire ++ c.req.pending ++ msg <+: text) : Closing text (c.buffers msg) := by
  refine ⟨h.filter, Nat.le_trans h.order (Nat.le_add_right _ _), ?_⟩
  change c.wire ++ (c.req.append msg).pending <+: text
  rw [c.req.pending_append msg h.order, ← List.append_assoc]
  exact hm

theorem endParts_phase (hc : Closing text c)
    (ht : c.wire ++ c.req.pending ++ closing = text) : Phase e text (exec (endParts e) c) := by
  -- whatever fits of the boundary is in the buffer
  have hput : ∃ st d msg, exec (puts printPartialContentDone) c =
      { c.buffers msg with req := { c.req.append msg with status := st }, died := d } ∧
        msg <+: closing := by
    by_cases hs : c.req.status.over = true
    · refine ⟨c.req.status, c.died, [], ?_, List.nil_prefix⟩
      rw [puts_over _ rfl c hs, Conn.buffers, Request.append_nil]
    · rcases puts_raw printPartialContentDone rfl c (by simpa using hs) with h | ⟨msg, hm, h⟩
      · exact ⟨c.req.status, c.died, closing, h, List.prefix_refl _⟩
      · exact ⟨.dead, _, msg, h, hm⟩
  obtain ⟨st, d, msg, hput, hm⟩ := hput
  have hb : Closing text (c.buffers msg) :=
    hc.buffers (ht ▸ (List.prefix_append_right_inj _).mpr hm)
  let c1 : Conn := { (c.buffers msg).asDone with died := d }
  have hrun : exec (endParts e) c = exec (reqFlush e) c1 := by
    simp only [endParts, exec_bind, hput]
    rfl
  have h1 : Closing text c1 := ⟨hb.filter, hb.order, hb.sent⟩
  rw [hrun]
  have hout := reqFlush_outcome e (c := c1) rfl h1.filter h1.order
  generalize value (reqFlush e) c1 = i at hout
  cases hout with
  | took k w hk hshort he =>
    rw [he]
    refine .ended ⟨?_, h1.took w hk⟩
    change (c1.req.taken k).status = .done
    unfold Request.taken
    split <;> rfl
  | blocked w he =>
    rw [he]
    exact .ended ⟨rfl, h1.filter, h1.order, h1.sent⟩
  | failed w he =>
    rw [he]
    exact .dead ⟨h1.filter, rfl, h1.wire⟩

theorem Live.open (h : Live e text c) : Open e text c := ⟨h.1, h.2.2⟩

theorem completeResponse_turned (h : Spent e text c) :
    Turned e text (exec (completeResponse e) c) (value (completeResponse e) c) := by
  obtain ⟨hs, r0, rs, hr, hspent⟩ := h
  have htail : c.req.ranges.tail = rs := congrArg List.tail hr
  have hc : Closing text c.popRange := ⟨hs.filter, hs.order, hs.closing.sent⟩
  by_cases hm : c.req.multipart
  · have hrem : c.req.remaining e = laterParts e c.req c.req.content rs := by
      rw [Request.remaining, hr]
      simp only [part_spent _ _ hspent, List.nil_append, if_pos hm]
    cases rs with
    | nil =>
      obtain ⟨hv, he⟩ := completeResponse_last e hm htail
      rw [hv, he]
      refine .goesOn (endParts_phase e hc ?_)
      rw [← hs.sent, hrem]
      rfl
    | cons r1 rs =>
      obtain ⟨hv, he⟩ := completeResponse_next e hm (by rw [htail]; exact List.cons_ne_nil _ _)
      have htext : c.wire ++ c.req.pending ++ partHeader e c.req (r1 :: rs) ++
          (part c.req.content r1 ++ laterParts e c.req c.req.content rs) = text := by
        rw [← hs.sent, hrem, laterParts]
        simp only [List.append_assoc]
      have hhdr : texts (printPartialContentContinue e c.popRange.req ++ [nl]) =
          partHeader e c.req (r1 :: rs) := by
        rw [partHeader, ← htail]
        rfl
      rw [hv, he]
      refine .goesOn ?_
      by_cases hover : c.req.status.over = true
      · rw [puts_over _ (raw_partHeader e c.popRange.req) c.popRange hover]
        exact .dead ⟨hs.filter, hover, hs.closing.wire⟩
      have hover' : c.popRange.req.status.over = false := Bool.eq_false_iff.mpr hover
      rcases puts_raw _ (raw_partHeader e c.popRange.req) c.popRange hover' with h | ⟨msg, -, h⟩
      · rw [h, hhdr]
        have hpend : (c.popRange.buffers (partHeader e c.req (r1 :: rs))).req.pending =
            c.req.pending ++ partHeader e c.req (r1 :: rs) := c.popRange.req.pending_append _ hs.order
        have hmore : (c.popRange.buffers (partHeader e c.req (r1 :: rs))).req.remaining e =
            part c.req.content r1 ++ laterParts e c.req c.req.content rs := by
          have hr' : (c.popRange.buffers (partHeader e c.req (r1 :: rs))).req.ranges = r1 :: rs :=
            htail
          have hm' : (c.popRange.buffers (partHeader e c.req (r1 :: rs))).req.multipart := hm
          rw [Request.remaining, hr']
          simp only [if_pos hm']
          refine congrArg (part c.req.content r1 ++ ·) (laterParts_congr ?_ _ _)
          intro _
          rfl
        have hok : ∀ r ∈ r1 :: rs, r.Ok := htail ▸ hs.later
        refine .live ⟨⟨hs.source, hs.method, hs.filter, ?_, ?_, ?_⟩, hover', r1, rs, htail,
          hok r1 (List.mem_cons_self ..)⟩
        · exact Nat.le_trans hs.order (Nat.le_add_right _ _)
        · intro r hmem
          have hmem' : r ∈ c.req.ranges.tail.tail := hmem
          rw [htail] at hmem'
          exact hok r (List.mem_cons_of_mem _ hmem')
        · rw [hpend, hmore, ← htext]
          simp only [List.append_assoc]
          rfl
      · rw [h]
        exact .dead ⟨hs.filter, rfl, hs.closing.wire⟩
  · obtain ⟨hv, he⟩ := completeResponse_single e hm
    rw [hv, he]
    exact .ends (⟨hs.filter, hs.order, hs.closing.sent⟩)

/-! The range numbers as the code computes them. -/

theorem u64_length {r : Range} (h : r.Ok) :
    u64 (r.stop + 2^64 - r.start + 1) = r.stop + 1 - r.start := by
  obtain ⟨hle, hlt⟩ := h
  have hsum : r.stop + 2^64 - r.start + 1 = (r.stop + 1 - r.start) + 2^64 := by omega
  rw [u64, hsum, Nat.add_mod_right, Nat.mod_eq_of_lt (by omega)]

theorem u64_spent {a b : Nat} (hle : a ≤ b + 1) (hlt : b + 1 < 2^64) :
    u64 (b + 1 + 2^64 - a) = 0 ↔ a = b + 1 := by
  have hsum : b + 1 + 2^64 - a = (b + 1 - a) + 2^64 := by omega
  rw [u64, hsum, Nat.add_mod_right, Nat.mod_eq_of_lt (by omega)]
  omega

theorem range_moveStart {r : Request} {r0 : Range} {rs : List Range} (hr : r.ranges = r0 :: rs)
    (m : Nat) : (r.moveStart m).ranges = { r0 with start := r0.start + m } :: rs := by
  unfold Request.moveStart Request.range
  rw [hr]
  rfl

theorem remaining_moveStart {r : Request} {r0 : Range} {rs : List Range}
    (hr : r.ranges = r0 :: rs) {n : Nat} (k : Nat) (hn : n ≤ r0.stop + 1 - r0.start) :
    ((r.content.drop r0.start).take n).take k ++
        (r.moveStart (((r.content.drop r0.start).take n).take k).length).remaining e =
      r.remaining e := by
  have hlater : ∀ m, laterParts e (r.moveStart m) r.content rs = laterParts e r r.content rs := by
    intro m
    refine laterParts_congr ?_ _ _
    intro _
    rfl
  have hcontent : ∀ m, (r.moveStart m).content = r.content := fun _ => rfl
  have hmulti : ∀ m, (r.moveStart m).multipart = r.multipart := fun _ => rfl
  rw [Request.remaining, Request.remaining, range_moveStart hr, hr]
  simp only [hcontent, hmulti, hlater]
  rw [← List.append_assoc, part_advance _ _ _ _ hn]

/-- A channel has taken some bytes of the current range: it is used up or still open. -/
theorem Open.advance (h : Open e text c) {c' : Conn} {bs : List Byte} {n k : Nat} {r0 : Range}
    {rs : List Range} (hr : c.req.ranges = r0 :: rs) (hn : n ≤ r0.stop + 1 - r0.start)
    (hbs : bs = ((c.req.content.drop r0.start).take n).take k)
    (hsrc : c'.req.status.over = true ∨ (c'.req.status = .write ∧ c'.req.dataMem.isSome) ∨
      (c'.req.status = .ioshuffle ∧ c'.req.dataMem = none))
    (hmethod : c'.req.method = .get) (hfilter : c'.req.filter = none)
    (horder : c'.req.bufferStart ≤ c'.req.bufferEnd)
    (hranges : c'.req.ranges = (c.req.moveStart bs.length).ranges)
    (hrem : c'.req.remaining e = (c.req.moveStart bs.length).remaining e)
    (hsent : c'.wire ++ c'.req.pending = c.wire ++ c.req.pending ++ bs) :
    r0.start + bs.length ≤ r0.stop + 1 ∧
      c'.req.range = { r0 with start := r0.start + bs.length } ∧
      (r0.start + bs.length = r0.stop + 1 → Spent e text c') ∧
      (r0.start + bs.length ≠ r0.stop + 1 → Open e text c') := by
  obtain ⟨hs, r1, rs1, hr1, hle, hlt⟩ := h
  obtain ⟨rfl, rfl⟩ : r0 = r1 ∧ rs = rs1 := by simpa [hr] using hr1
  rw [range_moveStart hr] at hranges
  have hlen : bs.length ≤ n := by
    rw [hbs]
    simp only [List.length_take]
    omega
  have hserve : Serving e text c' := by
    refine ⟨hsrc, hmethod, hfilter, horder, ?_, ?_⟩
    · rw [hranges]
      have hlater := hs.later
      rwa [hr] at hlater
    · rw [hsent, hrem, hbs, List.append_assoc, remaining_moveStart e hr k hn]
      exact hs.sent
  refine ⟨by omega, ?_, fun hend => ⟨hserve, _, rs, hranges, hend⟩,
    fun hend => ⟨hserve, _, rs, hranges, ?_, hlt⟩⟩
  · rw [Request.range, hranges]
    rfl
  · change r0.start + bs.length ≤ r0.stop
    omega

/-- The same for a request that is not given up, with the new start of the range as `m`. -/
theorem Live.advance (h : Live e text c) {c' : Conn} {bs : List Byte} {n k : Nat} {r0 : Range}
    {rs : List Range} (hr : c.req.ranges = r0 :: rs) (hn : n ≤ r0.stop + 1 - r0.start)
    (hbs : bs = ((c.req.content.drop r0.start).take n).take k)
    (hstatus : c'.req.status = c.req.status) (hmem : c'.req.dataMem = c.req.dataMem)
    (hmethod : c'.req.method = c.req.method) (hfilter : c'.req.filter = c.req.filter)
    (horder : c'.req.bufferStart ≤ c'.req.bufferEnd)
    (hranges : c'.req.ranges = (c.req.moveStart bs.length).ranges)
    (hrem : c'.req.remaining e = (c.req.moveStart bs.length).remaining e)
    (hsent : c'.wire ++ c'.req.pending = c.wire ++ c.req.pending ++ bs) :
    ∃ m, c'.req.range = { r0 with start := m } ∧ m ≤ r0.stop + 1 ∧
      (m = r0.stop + 1 → Spent e text c') ∧ (m ≠ r0.stop + 1 → Live e text c') := by
  obtain ⟨hle, hrange, hspent, hopen⟩ := h.open.advance e hr hn hbs
    (by rw [hstatus, hmem]; exact h.1.source) (by rw [hmethod]; exact h.1.method)
    (by rw [hfilter]; exact h.1.filter) horder hranges hrem hsent
  refine ⟨_, hrange, hle, hspent, fun hne => ?_⟩
  obtain ⟨hs, hr'⟩ := hopen hne
  exact ⟨hs, by rw [hstatus]; exact h.2.1, hr'⟩

theorem Live.frame (h : Live e text c) (w : World) (d : Option (Nat × Dir)) :
    Live e text { c with sys := w, waits := d } :=
  ⟨⟨h.1.source, h.1.method, h.1.filter, h.1.order, h.1.later, h.1.sent⟩, h.2⟩

theorem Live.marked (h : Live e text c) (t : List Visit) : Live e text { c with trace := t } :=
  ⟨⟨h.1.source, h.1.method, h.1.filter, h.1.order, h.1.later, h.1.sent⟩, h.2⟩

theorem Live.dies (h : Live e text c) : Turned e text (exec (setStatus .dead) c) 0 :=
  .dies (⟨h.1.filter, rfl, h.1.closing.wire⟩)

theorem Live.range (h : Live e text c) : ∃ r0 rs, c.req.ranges = r0 :: rs ∧ c.req.range = r0 ∧
    r0.Ok := by
  obtain ⟨-, -, r0, rs, hr, hok⟩ := h
  exact ⟨r0, rs, hr, by rw [Request.range, hr]; rfl, hok⟩

theorem Live.mapped (h : Live e text c) (hs : c.req.status = .write) :
    c.req.dataMem.getD [] = c.req.content := by
  rcases h.source with ⟨-, hm⟩ | ⟨hs', -⟩
  · obtain ⟨mem, hmem⟩ := Option.isSome_iff_exists.mp hm
    rw [Request.content, hmem]
    rfl
  · rw [hs] at hs'
    cases hs'

/-- Bytes of the current range have gone straight to the socket. -/
def Conn.sentPart (c : Conn) (bs : List Byte) (w : World) (d : Option (Nat × Dir)) : Conn :=
  { c with
    req := (c.req.counted bs.length).moveStart bs.length
    wire := c.wire ++ bs, sys := w, waits := d }

/-- What `process_get` and `io_shuffle_sendfile` find after such a write. -/
theorem Live.sentPart (h : Live e text c) (hp : c.req.pending = []) {r0 : Range}
    {rs : List Range} (hr : c.req.ranges = r0 :: rs) {n k : Nat}
    (hn : n ≤ r0.stop + 1 - r0.start) (bs : List Byte)
    (hbs : bs = ((c.req.content.drop r0.start).take n).take k) (w : World)
    (d : Option (Nat × Dir)) :
    ∃ m, (c.sentPart bs w d).req.range = { r0 with start := m } ∧ m ≤ r0.stop + 1 ∧
      (m = r0.stop + 1 → Spent e text (c.sentPart bs w d)) ∧
      (m ≠ r0.stop + 1 → Live e text (c.sentPart bs w d)) := by
  have hpend : (c.sentPart bs w d).req.pending = [] := hp
  refine h.advance e hr hn hbs rfl rfl rfl rfl h.1.order rfl ?_ ?_
  · refine remaining_congr rfl rfl rfl rfl ?_
    intro _
    rfl
  · rw [hpend, hp, List.append_nil, List.append_nil]
    rfl

theorem processGet_turned (h : Live e text c) (hs : c.req.status = .write)
    (hp : c.req.pending = []) :
    Turned e text (exec (processGet e) c) (value (processGet e) c) := by
  obtain ⟨r0, rs, hr, hrange, hok⟩ := h.range
  have hhead : c.req.method ≠ .head := by rw [h.1.method]; decide
  have hn : min (u32 (u64 (r0.stop + 2^64 - r0.start + 1))) e.systemBufsize ≤
      r0.stop + 1 - r0.start := by
    rw [u64_length hok]
    exact Nat.le_trans (Nat.min_le_left _ _) (Nat.mod_le _ _)
  simp only [processGet, exec_bind, value_bind, exec_getReq, value_getReq, if_neg hhead, hrange,
    h.mapped e hs]
  generalize min (u32 (u64 (r0.stop + 2^64 - r0.start + 1))) e.systemBufsize = n at hn
  have hmark : Live e text (exec (mark (.fileAccess r0.start n)) c) := h.marked e _
  have hreq : (exec (mark (.fileAccess r0.start n)) c).req = c.req := rfl
  rw [← hreq] at hr hp
  have hcontent : c.req.content = (exec (mark (.fileAccess r0.start n)) c).req.content := rfl
  rw [hcontent]
  generalize exec (mark (.fileAccess r0.start n)) c = c at hmark hr hp ⊢
  have hbus : Live e text (exec sigbus c) := hmark.frame e _ c.waits
  by_cases hb : value sigbus c = true
  · simp only [hb, if_true]
    exact hbus.dies
  · simp only [hb, Bool.false_eq_true, if_false, exec_bind, value_bind]
    have hw := sockWrite_wrote ((c.req.content.drop r0.start).take n) (exec sigbus c)
    generalize value (sockWrite ((c.req.content.drop r0.start).take n)) (exec sigbus c) = v at hw ⊢
    generalize exec (sockWrite ((c.req.content.drop r0.start).take n)) (exec sigbus c) = c2 at hw ⊢
    cases hw with
    | failed err w d =>
      cases err with
      | again => exact .blocks (.live (hbus.frame e w d))
      | _ => exact (hbus.frame e w d).dies
    | took k w d =>
      obtain ⟨m, hnext, hle, hspent, hlive⟩ := hbus.sentPart e hp hr hn
        (((c.req.content.drop r0.start).take n).take k) rfl w d
      have hstep : ∀ bs : List Byte,
          exec (modReq fun r => (r.counted bs.length).moveStart bs.length)
            { exec sigbus c with wire := (exec sigbus c).wire ++ bs, sys := w, waits := d } =
              (exec sigbus c).sentPart bs w d := fun _ => rfl
      simp only [exec_bind, value_bind, hstep, exec_getReq, value_getReq]
      rw [hnext]
      split
      · rename_i hz
        exact completeResponse_turned e (hspent ((u64_spent hle hok.2).mp hz))
      · rename_i hz
        exact .goesOn (.live (hlive fun h => hz ((u64_spent hle hok.2).mpr h)))

theorem Live.unmapped (h : Live e text c) (hs : c.req.status = .ioshuffle) :
    c.req.dataFile = c.req.content := by
  rcases h.source with ⟨hs', -⟩ | ⟨-, hm⟩
  · rw [hs] at hs'
    cases hs'
  · rw [Request.content, hm]
    rfl

theorem ioShuffleSendfile_turned (h : Live e text c) (hs : c.req.status = .ioshuffle)
    (hp : c.req.pending = []) :
    Turned e text (exec (ioShuffleSendfile e) c) (value (ioShuffleSendfile e) c) := by
  obtain ⟨r0, rs, hr, hrange, hok⟩ := h.range
  have hhead : c.req.method ≠ .head := by rw [h.1.method]; decide
  have hstop : u64 (r0.stop + 1) = r0.stop + 1 := Nat.mod_eq_of_lt hok.2
  have hn : min (u64 (r0.stop + 2^64 - r0.start + 1)) e.systemBufsize ≤
      r0.stop + 1 - r0.start := by
    rw [u64_length hok]
    exact Nat.min_le_left _ _
  simp only [ioShuffleSendfile, exec_bind, value_bind, exec_get, value_get, if_neg hhead, hrange,
    h.unmapped e hs, hstop]
  generalize min (u64 (r0.stop + 2^64 - r0.start + 1)) e.systemBufsize = n at hn
  by_cases hn0 : n = 0
  · have hlt : ¬r0.stop + 1 ≤ r0.start := by have := hok.1; omega
    simp only [if_pos hn0, if_neg hlt]
    exact .goesOn (.live h)
  · simp only [if_neg hn0]
    by_cases hoff : r0.start ≥ 2^63
    · simp only [if_pos hoff]
      exact h.dies
    · simp only [if_neg hoff, exec_bind, value_bind]
      have hmark : Live e text (exec (mark (.fileAccess r0.start n)) c) := h.marked e _
      have hreq : (exec (mark (.fileAccess r0.start n)) c).req = c.req := rfl
      have hsock : c.sys.sock.length =
          (exec (mark (.fileAccess r0.start n)) c).sys.sock.length := rfl
      have hcontent : c.req.content = (exec (mark (.fileAccess r0.start n)) c).req.content := rfl
      rw [← hreq] at hr hp
      rw [hcontent, hsock]
      clear h
      generalize exec (mark (.fileAccess r0.start n)) c = c at hmark hr hp ⊢
      have h := hmark
      have hw := retryIntr_wrote ((c.req.content.drop r0.start).take n) c.sys.sock.length c
      generalize value (retryIntr (sockWrite ((c.req.content.drop r0.start).take n))
        c.sys.sock.length) c = v at hw ⊢
      generalize exec (retryIntr (sockWrite ((c.req.content.drop r0.start).take n))
        c.sys.sock.length) c = c2 at hw ⊢
      cases hw with
      | failed err w d =>
        cases err with
        | again => exact .blocks (.live (h.frame e w d))
        | _ => exact (h.frame e w d).dies
      | took k w d =>
        by_cases hk : (((c.req.content.drop r0.start).take n).take k).length = 0
        · have hnil : ((c.req.content.drop r0.start).take n).take k = [] :=
            List.length_eq_zero_iff.mp hk
          simp only [hnil, List.length_nil, if_true, List.append_nil]
          exact .blocks (.live ((h.frame e w d).marked _ _))
        · obtain ⟨m, hnext, hle, hspent, hlive⟩ := h.sentPart e hp hr hn
            (((c.req.content.drop r0.start).take n).take k) rfl w d
          have hstep : ∀ bs : List Byte,
              exec (modReq fun r => (r.counted bs.length).moveStart bs.length)
                { c with wire := c.wire ++ bs, sys := w, waits := d } = c.sentPart bs w d :=
            fun _ => rfl
          simp only [if_neg hk, exec_bind, value_bind, hstep, exec_getReq, value_getReq]
          rw [hnext, hstop]
          split
          · rename_i hz
            exact completeResponse_turned e (hspent (Nat.le_antisymm hle hz))
          · rename_i hz
            exact .goesOn (.live (hlive fun h => hz (Nat.le_of_eq h.symm)))

/-- A flush of some kind: what the buffer has lost the wire has got. -/
theorem Live.flushed (h : Live e text c) {c' : Conn} {b i n : Nat}
    (hreq : c'.req = { c.req with bufferStart := b, bufferEnd := i, bytesWritten := n })
    (hle : b ≤ i) (hsent : c'.wire ++ c'.req.pending = c.wire ++ c.req.pending) :
    Live e text c' := by
  obtain ⟨hs, hr⟩ := h
  have hrem : c'.req.remaining e = c.req.remaining e := by
    rw [hreq]
    refine remaining_congr rfl rfl rfl rfl ?_
    intro _
    rfl
  refine ⟨⟨?_, ?_, ?_, ?_, ?_, ?_⟩, ?_⟩
  · rw [hreq]; exact hs.source
  · rw [hreq]; exact hs.method
  · rw [hreq]; exact hs.filter
  · rw [hreq]; exact hle
  · rw [hreq]; exact hs.later
  · rw [hsent, hrem]; exact hs.sent
  · rw [hreq]; exact hr

theorem taken_same (r : Request) (k : Nat) :
    ∃ b i, r.taken k = { r with bufferStart := b, bufferEnd := i } := by
  unfold Request.taken
  split
  · exact ⟨_, _, rfl⟩
  · exact ⟨_, _, rfl⟩

/-- The first `k` waiting bytes have been sent. -/
theorem Live.took (h : Live e text c) {k : Nat} (hk : k ≤ c.req.pending.length) (n : Nat)
    (w : World) (d : Option (Nat × Dir)) :
    Live e text { c with
      req := (c.req.taken k).counted n
      wire := c.wire ++ c.req.pending.take k, sys := w, waits := d } := by
  have hpend := c.req.pending_taken_le h.1.order hk
  have hle := c.req.taken_le h.1.order hk
  obtain ⟨b, i, hsame⟩ := taken_same c.req k
  have hcount : ((c.req.taken k).counted n).pending = (c.req.taken k).pending := rfl
  refine h.flushed e (b := b) (i := i) (n := c.req.bytesWritten + n) ?_ ?_ ?_
  · rw [hsame]
    rfl
  · rw [hsame] at hle
    exact hle
  · change c.wire ++ c.req.pending.take k ++ ((c.req.taken k).counted n).pending = _
    rw [hcount, hpend, List.append_assoc, List.take_append_drop]

theorem Live.emptied (h : Live e text c) (hp : c.req.pending = []) :
    Live e text { c with req := c.req.emptied } := by
  refine h.flushed e (b := 0) (i := 0) (n := c.req.bytesWritten) rfl (Nat.le_refl 0) ?_
  change c.wire ++ c.req.emptied.pending = _
  rw [Request.pending_emptied, hp]

theorem ioShuffleWrite_turned (h : Live e text c) :
    Turned e text (exec ioShuffleWrite c) (value ioShuffleWrite c) := by
  simp only [ioShuffleWrite, exec_bind, value_bind, exec_get, value_get]
  by_cases hempty : c.req.bufferEnd = c.req.bufferStart
  · simp only [if_pos hempty]
    by_cases hfd : c.req.dataFd = 0
    · simp only [if_pos hfd]
      exact .ends h.1.closing
    · simp only [if_neg hfd, exec_bind, value_bind, exec_modReq]
      exact .goesOn (.live (h.emptied e (c.req.pending_eq_nil (Nat.le_of_eq hempty))))
  · simp only [if_neg hempty, exec_bind, value_bind]
    have hw := writePending_wrote c.sys.sock.length c h.1.order
    generalize value (retryIntr writePending c.sys.sock.length) c = v at hw ⊢
    generalize exec (retryIntr writePending c.sys.sock.length) c = c2 at hw ⊢
    cases hw with
    | failed err w d =>
      cases err with
      | again => exact .blocks (.live (h.frame e w d))
      | _ => exact (h.frame e w d).dies
    | took k w d =>
      have htake : c.req.pending.take (c.req.pending.take k).length = c.req.pending.take k := by
        rw [List.length_take, ← List.take_take, List.take_length]
      have hnext := h.took e (k := (c.req.pending.take k).length) (List.length_take_le' ..)
        (c.req.pending.take k).length w d
      rw [htake] at hnext
      exact .goesOn (.live hnext)

/-- File data has been read into the buffer. -/
theorem Live.buffered (h : Live e text c) {r0 : Range} {rs : List Range}
    (hr : c.req.ranges = r0 :: rs) {n k : Nat} (hn : n ≤ r0.stop + 1 - r0.start) (bs : List Byte)
    (hbs : bs = ((c.req.content.drop r0.start).take n).take k) (w : World)
    (d : Option (Nat × Dir)) :
    let c' : Conn :=
      { c with req := (c.req.append bs).moveStart bs.length, sys := w, waits := d }
    ∃ m, c'.req.range = { r0 with start := m } ∧ m ≤ r0.stop + 1 ∧
      (m = r0.stop + 1 → Spent e text c') ∧ (m ≠ r0.stop + 1 → Live e text c') := by
  intro c'
  have hpend : c'.req.pending = c.req.pending ++ bs := c.req.pending_append bs h.1.order
  have horder : c'.req.bufferStart ≤ c'.req.bufferEnd :=
    Nat.le_trans h.1.order (Nat.le_add_right _ _)
  refine h.advance e hr hn hbs rfl rfl rfl rfl horder rfl ?_ ?_
  · refine remaining_congr rfl rfl rfl rfl ?_
    intro _
    rfl
  · rw [hpend, ← List.append_assoc]

/-- The data file came to its end. -/
theorem Live.closed (h : Live e text c) (w : World) (d : Option (Nat × Dir)) :
    Live e text { c with req := { c.req with dataFd := 0 }, sys := w, waits := d } := by
  obtain ⟨hs, hr⟩ := h
  have hrem : ({ c.req with dataFd := 0 } : Request).remaining e = c.req.remaining e := by
    refine remaining_congr rfl rfl rfl rfl ?_
    intro _
    rfl
  refine ⟨⟨hs.source, hs.method, hs.filter, hs.order, hs.later, ?_⟩, hr⟩
  rw [← hs.sent, ← hrem]
  rfl

theorem i32_le (n : Nat) : i32 n ≤ n := by
  simp only [i32, Int.bmod]
  split <;> omega

theorem shuffleWant_le {r : Request} {r0 : Range} (hrange : r.range = r0) (hok : r0.Ok)
    (hpos : 0 < r.shuffleWant) : r.shuffleWant.toNat ≤ r0.stop + 1 - r0.start := by
  unfold Request.shuffleWant at hpos ⊢
  rw [hrange, u64_length hok] at hpos ⊢
  have hmod := i32_le (r0.stop + 1 - r0.start)
  omega

theorem ioShuffle_turned (h : Live e text c) (hs : c.req.status = .ioshuffle) :
    Turned e text (exec (ioShuffle e) c) (value (ioShuffle e) c) := by
  obtain ⟨r0, rs, hr, hrange, hok⟩ := h.range
  have hhead : c.req.method ≠ .head := by rw [h.1.method]; decide
  simp only [ioShuffle, exec_bind, value_bind, exec_get, value_get, if_neg hhead, hrange]
  by_cases hwant : c.req.shuffleWant > 0 ∧ c.req.dataFd ≠ 0
  · have hn := shuffleWant_le hrange hok hwant.1
    simp only [if_pos hwant, exec_bind, value_bind]
    generalize c.req.shuffleWant.toNat = n at hn
    have hseek : Live e text (exec seekOk c) := h.frame e _ c.waits
    by_cases hok' : value seekOk c = true
    · simp only [hok', if_true, exec_bind, value_bind]
      have hmark : Live e text (exec (mark (.fileAccess r0.start n)) (exec seekOk c)) :=
        hseek.marked e _
      have hreq : (exec (mark (.fileAccess r0.start n)) (exec seekOk c)).req = c.req := rfl
      generalize exec (mark (.fileAccess r0.start n)) (exec seekOk c) = c1 at hmark hreq ⊢
      rw [← hreq] at hr hs
      have hread := retryIntr_readFile r0.start n c.sys.file.length c1
      generalize value (retryIntr (fileRead r0.start n) c.sys.file.length) c1 = v
        at hread ⊢
      generalize exec (retryIntr (fileRead r0.start n) c.sys.file.length) c1 = c2
        at hread ⊢
      cases hread with
      | failed err w d =>
        have hnext := hmark.frame e w d
        cases err with
        | again =>
          simp only
          split
          · exact .blocks (.live hnext)
          · exact ioShuffleWrite_turned e hnext
        | _ => exact hnext.dies
      | got k w d =>
        have hcontent : c1.req.dataFile = c1.req.content := hmark.unmapped e hs
        rw [hcontent]
        generalize hbs : ((c1.req.content.drop r0.start).take n).take k = bs
        cases bs with
        | nil =>
          simp only [exec_bind, value_bind, exec_modReq]
          exact ioShuffleWrite_turned e (hmark.closed e w d)
        | cons b bs =>
          obtain ⟨m, hnext, hle, hspent, hlive⟩ := hmark.buffered e hr hn (b :: bs) hbs.symm w d
          have hstep : exec (modReq fun r => (r.append (b :: bs)).moveStart (b :: bs).length)
              { c1 with sys := w, waits := d } =
                { c1 with
                  req := (c1.req.append (b :: bs)).moveStart (b :: bs).length
                  sys := w, waits := d } := rfl
          simp only [exec_bind, value_bind, hstep, exec_getReq, value_getReq]
          rw [hnext]
          split
          · rename_i hz
            exact completeResponse_turned e (hspent ((u64_spent hle hok.2).mp hz))
          · rename_i hz
            exact ioShuffleWrite_turned e (hlive fun h => hz ((u64_spent hle hok.2).mpr h))
    · simp only [hok', Bool.false_eq_true, if_false]
      exact hseek.dies
  · simp only [if_neg hwant]
    exact ioShuffleWrite_turned e h

end Handlers

/-! A turn of `process_requests`. -/

/-- The handler of this status writes file data straight to the socket. -/
def Conn.direct (e : Config) (c : Conn) : Bool :=
  c.req.status = .write || (c.req.status = .ioshuffle && e.build.haveSendfile)

section Process

variable (e : Config) {text : Text} {c : Conn}

/-- The flush before the switch: the request goes on, waits, or is dead. -/
theorem topFlush_cases (hs : c.req.status.over = false) (hf : c.req.filter = none)
    (hle : c.req.bufferStart ≤ c.req.bufferEnd) (h0 : c.req.bufferEnd ≠ 0) :
    (∃ k w, k ≤ c.req.pending.length ∧
      (k < c.req.pending.length → shortWrite c.req.pending c.sys.sock = true) ∧
      value (topFlush e) c = 1 ∧ exec (topFlush e) c = { c with
        req := c.req.taken k, wire := c.wire ++ c.req.pending.take k, sys := w }) ∨
    (∃ w, value (topFlush e) c = -1 ∧
      exec (topFlush e) c = { c with waits := some (c.req.fd, .write), sys := w }) ∨
    (value (topFlush e) c = 0 ∧ (exec (topFlush e) c).wire = c.wire ∧
      (exec (topFlush e) c).req.filter = none ∧
      (exec (topFlush e) c).req.status.over = true) := by
  have hc : c.req.bufferEnd ≠ 0 ∧ (!c.req.status.over) = true := ⟨h0, by rw [hs]; rfl⟩
  have hout := reqFlush_outcome e hs hf hle
  have hv : value (topFlush e) c = value (do
      if value (reqFlush e) c = -2 then
        setStatus .dead
        return 0
      else if value (reqFlush e) c ≥ 0 then return 1
      else return value (reqFlush e) c : Srv Int) (exec (reqFlush e) c) := by
    simp only [topFlush, value_bind, exec_getReq, value_getReq, if_pos hc]
  have he : exec (topFlush e) c = exec (do
      if value (reqFlush e) c = -2 then
        setStatus .dead
        return 0
      else if value (reqFlush e) c ≥ 0 then return 1
      else return value (reqFlush e) c : Srv Int) (exec (reqFlush e) c) := by
    simp only [topFlush, exec_bind, exec_getReq, value_getReq, if_pos hc]
  rw [hv, he]
  generalize value (reqFlush e) c = i at hout ⊢
  generalize exec (reqFlush e) c = c' at hout ⊢
  cases hout with
  | took k w hk hshort he =>
    have hpos : ((c.req.taken k).bufferEnd : Int) ≥ 0 := Int.natCast_nonneg _
    left
    refine ⟨k, w, hk, hshort, ?_, ?_⟩
    · rw [if_neg (by omega), if_pos hpos]
      rfl
    · rw [if_neg (by omega), if_pos hpos]
      exact he
  | blocked w he =>
    right; left
    exact ⟨w, rfl, he⟩
  | failed w he =>
    right; right
    rw [he]
    exact ⟨rfl, rfl, hf, rfl⟩

theorem Live.status (h : Live e text c) :
    c.req.status = .write ∨ c.req.status = .ioshuffle := h.source.imp (·.1) (·.1)

theorem topFlush_live (h : Live e text c)
    (hshort : c.direct e = true → shortWrite c.req.pending c.sys.sock = false) :
    (value (topFlush e) c = 1 ∧ Live e text (exec (topFlush e) c) ∧
      (c.direct e = true → (exec (topFlush e) c).req.pending = []) ∧
      (exec (topFlush e) c).req.status = c.req.status) ∨
    (value (topFlush e) c ≠ 1 ∧ Turned e text (exec (topFlush e) c) (value (topFlush e) c)) := by
  by_cases h0 : c.req.bufferEnd = 0
  · obtain ⟨hv, he⟩ := topFlush_skip e (.inl h0)
    rw [hv, he]
    exact .inl ⟨rfl, h, fun _ => c.req.pending_eq_nil (by omega), rfl⟩
  · rcases topFlush_cases e h.2.1 h.1.filter h.1.order h0 with
      ⟨k, w, hk, hk', hv, he⟩ | ⟨w, hv, he⟩ | ⟨hv, hw, hf, ho⟩
    · have hnext := h.took e hk 0 w c.waits
      obtain ⟨b, i, hsame⟩ := taken_same c.req k
      have hcount : (c.req.taken k).counted 0 = c.req.taken k := rfl
      rw [hcount] at hnext
      rw [hv, he]
      refine .inl ⟨rfl, hnext, fun hd => ?_, ?_⟩
      · have hall : k = c.req.pending.length := by
          have hns := hshort hd
          by_contra hne
          rw [hk' (by omega)] at hns
          cases hns
        change (c.req.taken k).pending = []
        rw [c.req.pending_taken_le h.1.order hk, hall, List.drop_length]
      · change (c.req.taken k).status = c.req.status
        rw [hsame]
    · rw [hv, he]
      exact .inr ⟨by decide, .blocks (.live (h.frame e w _))⟩
    · rw [hv]
      exact .inr ⟨by decide, .dies (⟨hf, ho, hw ▸ h.1.closing.wire⟩)⟩

theorem topFlush_ended (h : Ended text c) :
    (value (topFlush e) c = 1 ∧ Ended text (exec (topFlush e) c)) ∨
    (value (topFlush e) c ≠ 1 ∧ Turned e text (exec (topFlush e) c) (value (topFlush e) c)) := by
  obtain ⟨hs, hc⟩ := h
  by_cases h0 : c.req.bufferEnd = 0
  · obtain ⟨hv, he⟩ := topFlush_skip e (.inl h0)
    rw [hv, he]
    exact .inl ⟨rfl, hs, hc⟩
  · rcases topFlush_cases e (by rw [hs]; rfl) hc.filter hc.order h0 with
      ⟨k, w, hk, -, hv, he⟩ | ⟨w, hv, he⟩ | ⟨hv, hw, hf, ho⟩
    · obtain ⟨b, i, hsame⟩ := taken_same c.req k
      rw [hv, he]
      refine .inl ⟨rfl, ?_, hc.took w hk⟩
      change (c.req.taken k).status = .done
      rw [hsame]
      exact hs
    · rw [hv, he]
      exact .inr ⟨by decide, .blocks (.ended ⟨hs, hc.filter, hc.order, hc.sent⟩)⟩
    · rw [hv]
      exact .inr ⟨by decide, .dies (⟨hf, ho, hw ▸ hc.wire⟩)⟩

theorem processDone_turned (h : Ended text c) :
    Turned e text (exec (processDone e) c) (value (processDone e) c) := by
  obtain ⟨hs, hc⟩ := h
  have hout := reqFlush_outcome e (c := c) (by rw [hs]; rfl) hc.filter hc.order
  simp only [processDone, exec_bind, value_bind]
  generalize value (reqFlush e) c = i at hout ⊢
  generalize exec (reqFlush e) c = c' at hout ⊢
  cases hout with
  | took k w hk hshort he =>
    have hnext := hc.took w hk
    have hstatus : (c.req.taken k).status = .done := by
      obtain ⟨b, i, hsame⟩ := taken_same c.req k
      rw [hsame]
      exact hs
    rw [if_neg (by omega), he]
    by_cases hpos : ((c.req.taken k).bufferEnd : Int) > 0
    · rw [if_pos hpos]
      exact .goesOn (.ended ⟨hstatus, hnext⟩)
    · have hzero : ((c.req.taken k).bufferEnd : Int) = 0 := by omega
      rw [if_neg hpos, hzero]
      exact .ends hnext
  | blocked w he =>
    rw [he]
    exact .blocks (.ended ⟨hs, hc.filter, hc.order, hc.sent⟩)
  | failed w he =>
    rw [he]
    exact .dies (⟨hc.filter, rfl, hc.wire⟩)

theorem processOver_turned (h : Dead text c) :
    Turned e text (exec processOver c) (value processOver c) :=
  .dies (⟨h.filter, h.ended, h.sent⟩)

theorem processStatus_live (h : Live e text c) (hp : c.direct e = true → c.req.pending = []) :
    Turned e text (exec (processStatus e) c) (value (processStatus e) c) := by
  rcases h.status e with hs | hs
  · simp only [processStatus, exec_bind, value_bind, exec_getReq, value_getReq, hs]
    exact processGet_turned e h hs (hp (by simp [Conn.direct, hs]))
  · simp only [processStatus, exec_bind, value_bind, exec_getReq, value_getReq, hs]
    by_cases hb : e.build.haveSendfile = true
    · simp only [hb, if_true]
      exact ioShuffleSendfile_turned e h hs (hp (by simp [Conn.direct, hs, hb]))
    · simp only [hb, Bool.false_eq_true, if_false]
      exact ioShuffle_turned e h hs

theorem processRequest_done (h : value (topFlush e) c = 1)
    (ht : Turned e text (exec (processStatus e) (c.dispatched e))
      (value (processStatus e) (c.dispatched e))) :
    InOrder e text (exec (processRequest e) c) := by
  rcases processRequest_run e c with ⟨-, hrun⟩ | ⟨hne, -⟩
  · rw [hrun]
    exact settle_inOrder e ht
  · exact absurd h hne

theorem processRequest_stops (h : value (topFlush e) c ≠ 1)
    (ht : Turned e text (exec (topFlush e) c) (value (topFlush e) c)) :
    InOrder e text (exec (processRequest e) c) := by
  rcases processRequest_run e c with ⟨heq, -⟩ | ⟨-, hrun⟩
  · exact absurd heq h
  · rw [hrun]
    exact settle_inOrder e ht

theorem processRequest_inOrder (h : Phase e text c)
    (hshort : c.direct e = true → shortWrite c.req.pending c.sys.sock = false) :
    InOrder e text (exec (processRequest e) c) := by
  cases h with
  | live h =>
    rcases topFlush_live e h hshort with ⟨hv, hlive, hp, hs⟩ | ⟨hv, ht⟩
    · have hdirect : (c.dispatched e).direct e = c.direct e := by
        simp only [Conn.direct, Conn.dispatched, hs]
      have hfresh : Live e text (c.dispatched e) := hlive.frame e (exec (topFlush e) c).sys none
      exact processRequest_done e hv (processStatus_live e hfresh (hdirect ▸ hp))
    · exact processRequest_stops e hv ht
  | ended h =>
    rcases topFlush_ended e h with ⟨hv, hend⟩ | ⟨hv, ht⟩
    · refine processRequest_done e hv ?_
      have hst : ∀ c' : Conn, c'.req.status = .done →
          exec (processStatus e) c' = exec (processDone e) c' ∧
            value (processStatus e) c' = value (processDone e) c' := by
        intro c' hs
        simp only [processStatus, exec_bind, value_bind, exec_getReq, value_getReq, hs, and_self]
      have hfresh : Ended text (c.dispatched e) :=
        ⟨hend.1, hend.2.same ⟨rfl, _, _, rfl⟩⟩
      obtain ⟨he, hv⟩ := hst _ hfresh.1
      rw [he, hv]
      exact processDone_turned e hfresh
    · exact processRequest_stops e hv ht
  | dead h =>
    obtain ⟨hv, he⟩ := topFlush_skip e (.inr h.ended)
    refine processRequest_done e hv ?_
    have hfresh : Dead text (c.dispatched e) := by
      rw [Conn.dispatched, he]
      exact h.same ⟨rfl, _, _, rfl⟩
    have hst : exec (processStatus e) (c.dispatched e) = exec processOver (c.dispatched e) ∧
        value (processStatus e) (c.dispatched e) = value processOver (c.dispatched e) := by
      rcases (over_iff _).mp hfresh.ended with hs | hs <;>
        simp only [processStatus, exec_bind, value_bind, exec_getReq, value_getReq, hs, and_self]
    rw [hst.1, hst.2]
    exact processOver_turned e hfresh

end Process

/-! Runs. -/

/-- An event that keeps the bytes in order: the connection is still at this response, no
worker's result is delivered to it, and a handler that writes to the socket itself does not
run after a flush that took a part of the buffer. -/
def keepsOrder (e : Config) (c : Conn) : Ev → Prop
  | .process w => c.req.status ≠ .readHeader ∧
      (c.direct e = true → shortWrite c.req.pending w.sock = false)
  | .select .. => c.req.status ≠ .readHeader
  | .results _ => False

instance (e : Config) (c : Conn) (ev : Ev) : Decidable (keepsOrder e c ev) := by
  cases ev <;> unfold keepsOrder <;> infer_instance

/-- When a turn comes to a handler that writes to the socket itself, nothing is waiting. -/
def writesInOrder (e : Config) (c : Conn) : Ev → Prop
  | .process w =>
    c.place = .ready → value (topFlush e) { c with sys := w, waits := none } = 1 →
      (exec (topFlush e) { c with sys := w, waits := none }).direct e = true →
        (exec (topFlush e) { c with sys := w, waits := none }).req.pending = []
  | _ => True

section Run

variable (e : Config) {text : Text} {c : Conn}

theorem Phase.frame (h : Phase e text c) (w : World) (d : Option (Nat × Dir)) :
    Phase e text { c with sys := w, waits := d } :=
  h.same e ⟨rfl, c.req.keepalive, c.req.timeLast, rfl⟩

/-- A pass of `fdset_update` at most ends the request for good. -/
theorem Phase.timed (h : Phase e text c) {c' : Conn} (hw : c'.wire = c.wire)
    (hr : c'.req = c.req ∨ c'.req = { c.req with status := .timedOut }) : Phase e text c' := by
  rcases hr with hr | hr
  · exact h.same e ⟨hw, c.req.keepalive, c.req.timeLast, hr⟩
  · have hf : c.req.filter = none := by
      cases h with
      | live h => exact h.1.filter
      | ended h => exact h.2.filter
      | dead h => exact h.filter
    exact .dead ⟨by rw [hr]; exact hf, by rw [hr]; rfl, hw ▸ h.wire⟩

theorem step_inOrder (c : Conn) (ev : Ev) (h : InOrder e text c) (hok : keepsOrder e c ev) :
    InOrder e text (step e c ev) := by
  cases ev with
  | process w =>
    obtain ⟨hs, hshort⟩ := hok
    simp only [step]
    split
    · rename_i hp
      rcases h with h | ⟨hgone, -⟩
      · exact processRequest_inOrder e (h.frame e w none) hshort
      · rcases hgone with hfree | hread
        · rw [hp] at hfree
          cases hfree
        · exact absurd hread hs
    · exact h
  | select w readyR readyW =>
    simp only [step]
    split
    · rename_i hp
      have hphase : Phase e text c := by
        refine h.resolve_right fun hgone => ?_
        rcases hgone.1 with hfree | hread
        · rw [hp] at hfree
          cases hfree
        · exact hok hread
      obtain ⟨hw, hr⟩ := fdsetUpdate_frame e { c with sys := w } readyR readyW
      exact .inl (hphase.timed e hw hr)
    · exact h
  | results rs => exact hok.elim

theorem writesInOrder_of (c : Conn) (ev : Ev) (h : InOrder e text c) (hok : keepsOrder e c ev) :
    writesInOrder e c ev := by
  cases ev with
  | process w =>
    obtain ⟨hs, hshort⟩ := hok
    intro hp hv hd
    rcases h with h | ⟨hgone, -⟩
    · cases h.frame e w none with
      | live h =>
        rcases topFlush_live e h hshort with ⟨-, -, hpend, hst⟩ | ⟨hne, -⟩
        · simp only [Conn.direct, hst] at hd
          exact hpend hd
        · exact absurd hv hne
      | ended h =>
        rcases topFlush_ended e h with ⟨-, hst, -⟩ | ⟨hne, -⟩
        · simp [Conn.direct, hst] at hd
        · exact absurd hv hne
      | dead h =>
        obtain ⟨-, he⟩ := topFlush_skip e (.inr h.ended)
        rw [he] at hd
        have hover : c.req.status.over = true := h.ended
        rcases (over_iff _).mp hover with hst | hst <;> simp [Conn.direct, hst] at hd
    · rcases hgone with hfree | hread
      · rw [hp] at hfree
        cases hfree
      · exact absurd hread hs
  | select _ _ _ => trivial
  | results _ => trivial

end Run

/-! The start of the response. -/

/-- A GET request without filter for which `init_get` has opened the file; its ranges are
those the header named. -/
structure Asked (f : File) (c : Conn) : Prop where
  status : c.req.status = .write
  method : c.req.method = .get
  filter : c.req.filter = none
  dataMem : c.req.dataMem = none
  order : c.req.bufferStart ≤ c.req.bufferEnd
  size : f.size < 2^63

/-- What is settled when the header is to be written. -/
structure Settled (f : File) (c : Conn) : Prop where
  asked : Asked f c
  filesize : c.req.filesize = f.size
  nonempty : 0 < f.size
  ranges : ∃ rs, c.req.ranges = rangesLeft f.size rs

/-- `init_get` has noted the file and dropped the ranges that lie outside. -/
def Request.opened (f : File) (r : Request) : Request :=
  { r with
    filesize := f.size, lastModified := f.mtime, headerIfrange := none
    ranges := rangesLeft f.size r.ranges }

def Conn.opened (f : File) (c : Conn) : Conn := { c with req := c.req.opened f }

/-- Does the client get data of the file, and not an error, 304 or an empty response? -/
def Conn.servesFile (e : Config) (f : File) (c : Conn) : Bool :=
  f.kind = .reg && (c.req.ifModifiedSince.map (modifiedSince (e.gmtime f.mtime))) ≠ some 0 &&
    f.size ≠ 0 && (c.req.ranges = [] || rangesLeft f.size c.req.ranges ≠ [])

/-- All that is put on the wire from here on if nothing goes wrong: what is buffered, and
what is left of the ranges. -/
def Conn.total (e : Config) (c : Conn) : Text := c.wire ++ c.req.pending ++ c.req.remaining e

/-- The same when the response is complete in the buffer. -/
def Conn.page (c : Conn) : Text := c.wire ++ c.req.pending

/-- `init_get` has put the header in the buffer. -/
def headed (e : Config) (fd : Nat) (f : File) (c : Conn) : Conn :=
  exec (do
    mark .serveFile
    mapFile fd f
    let _ ← serveHeader e) c

/-- The copy of file data into the buffer runs into the end of a file that was cut. -/
def Conn.busError (c : Conn) : Bool :=
  c.req.dataMem.isSome && u32 (bufferSize + 2^32 - c.req.bufferEnd) > 256 &&
    c.sys.sigbus.headD false

/-- The one text of a response with data: the header, and the ranges with what stands
between them. After a SIGBUS it is the error page. -/
def promisedFile (e : Config) (fd : Nat) (f : File) (c : Conn) : Text :=
  if (headed e fd f c).busError then (exec (fillBuffer e) (headed e fd f c)).page
  else (headed e fd f c).total e

/-- The one text of the response; without data it is the page `init_get` buffers. -/
def promised (e : Config) (fd : Nat) (f : File) (c : Conn) : Text :=
  if c.servesFile e f then promisedFile e fd f (c.opened f)
  else (exec (initGetFile e fd f) c).page

/-- The turn in which `init_get` answers from the file, up to its end. -/
def served (e : Config) (fd : Nat) (f : File) (c : Conn) : Conn :=
  exec (do
    let ret ← initGetFile e fd f
    settle e ret) c

section Start

variable (e : Config) {f : File} {c : Conn}

theorem rangeFixup_ok {size : Nat} (hpos : 0 < size) (hsize : size < 2^63) {r0 r : Range}
    (h : rangeFixup size r0 = some r) : r.Ok ∧ r.stop < size := by
  simp only [rangeFixup, Option.ite_none_left_eq_some, not_or, not_le, Option.some.injEq] at h
  obtain ⟨⟨-, hle⟩, rfl⟩ := h
  have hstop : (if r0.stop = 2^32 - 1 ∨ r0.stop ≥ size then size - 1 else r0.stop) < size := by
    split <;> omega
  have hlt : ∀ r : Range, ¬r.start > r.stop → r.stop < size → r.Ok ∧ r.stop < size := by
    intro r hle hlt
    exact ⟨⟨Nat.le_of_not_lt hle, by omega⟩, hlt⟩
  refine hlt _ hle ?_
  split
  · change size - 1 < size
    omega
  · exact hstop

theorem rangesLeft_ok {size : Nat} (hsize : 0 < size ∧ size < 2^63) (rs : List Range) :
    ∀ r ∈ rangesLeft size rs, r.Ok ∧ r.stop < size := by
  intro r hr
  rw [rangesLeft, if_neg (by omega)] at hr
  obtain ⟨r0, -, hr⟩ := List.mem_filterMap.mp hr
  exact rangeFixup_ok hsize.1 hsize.2 hr

theorem rangesLeft_whole {size : Nat} (hsize : 0 < size ∧ size < 2^63) :
    rangesLeft size [⟨0, minusOne⟩] = [⟨0, size - 1⟩] := by
  have hge : minusOne ≥ size := by unfold minusOne; omega
  have hz : ¬(0 = minusOne) := by unfold minusOne; decide
  simp only [rangesLeft, if_neg (show ¬size = 0 by omega), List.filterMap_cons, rangeFixup, hge,
    or_true, if_true, if_neg hz, List.filterMap_nil]
  rw [if_neg (by omega)]

/-- Writing the header leaves the request open. -/
theorem Output.open {c c' : Conn} (h : Output c c') (hm : c.req.method = .get)
    (hf : c.req.filter = none) (hle : c.req.bufferStart ≤ c.req.bufferEnd)
    (hsrc : (c.req.status = .write ∧ c.req.dataMem.isSome) ∨
      (c.req.status = .ioshuffle ∧ c.req.dataMem = none))
    (hr : c.req.ranges ≠ []) (hok : ∀ r ∈ c.req.ranges, r.Ok) : Open e (c'.total e) c' := by
  obtain ⟨r0, rs, hr⟩ := List.exists_cons_of_ne_nil hr
  refine ⟨⟨?_, h.method.trans hm, h.filter.trans hf, h.order hf hle, ?_, rfl⟩, r0, rs,
    h.ranges.trans hr, hok r0 (hr ▸ List.mem_cons_self ..)⟩
  · rcases h.status with hs | hs
    · right
      rw [hs, h.dataMem]
      exact hsrc
    · left
      rw [hs]
      rfl
  · intro r hmem
    rw [h.ranges] at hmem
    exact hok r (List.mem_of_mem_tail hmem)

theorem serveHeader_open (hsize : 0 < c.req.filesize ∧ c.req.filesize < 2^63)
    (hm : c.req.method = .get) (hf : c.req.filter = none)
    (hle : c.req.bufferStart ≤ c.req.bufferEnd)
    (hsrc : (c.req.status = .write ∧ c.req.dataMem.isSome) ∨
      (c.req.status = .ioshuffle ∧ c.req.dataMem = none))
    (hok : ∀ r ∈ c.req.ranges, r.Ok ∧ r.stop < c.req.filesize) :
    value (serveHeader e) c = true ∧
      Open e ((exec (serveHeader e) c).total e) (exec (serveHeader e) c) ∧
      (exec (serveHeader e) c).req.dataMem = c.req.dataMem ∧
      ∀ r ∈ (exec (serveHeader e) c).req.ranges, r.stop < c.req.filesize := by
  by_cases hr : c.req.ranges = []
  · let c1 : Conn := { c with req := { c.req with ranges := [⟨0, c.req.filesize - 1⟩] } }
    have hwhole := rangesLeft_whole hsize
    have hv : value (serveHeader e) c = true := by
      simp [serveHeader, hr, rangesFixup, hwhole]
    have he : exec (serveHeader e) c = exec (sendRRequestOk e) c1 := by
      simp [serveHeader, hr, rangesFixup, hwhole, c1]
    have hout := sendRRequestOk_outputs e c1
    have hok1 : ∀ r ∈ c1.req.ranges, r.Ok ∧ r.stop < c.req.filesize := by
      intro r hmem
      rw [List.mem_singleton.mp hmem]
      have hlt : c.req.filesize - 1 < c.req.filesize := by omega
      exact ⟨⟨Nat.zero_le _, by change c.req.filesize - 1 + 1 < 2^64; omega⟩, hlt⟩
    refine ⟨hv, ?_⟩
    rw [he]
    refine ⟨?_, hout.dataMem, fun r hmem => (hok1 r (hout.ranges ▸ hmem)).2⟩
    exact Output.open e hout hm hf hle hsrc (List.cons_ne_nil _ _) fun r hmem => (hok1 r hmem).1
  · have hv : value (serveHeader e) c = true := by
      simp [serveHeader, hr]
    have he : exec (serveHeader e) c = exec (sendRPartialContent e) c := by
      simp [serveHeader, hr]
    have hout := sendRPartialContent_outputs e c
    refine ⟨hv, ?_⟩
    rw [he]
    refine ⟨?_, hout.dataMem, fun r hmem => (hok r (hout.ranges ▸ hmem)).2⟩
    exact Output.open e hout hm hf hle hsrc hr fun r hmem => (hok r hmem).1

/-- After `mapFile` the data is in memory and the status is still WRITE, or neither. Only
small files are mapped. -/
theorem mapFile_source (fd : Nat) (hs : c.req.status = .write) (hd : c.req.dataMem = none) :
    let c' := exec (mapFile fd f) c
    ((c'.req.status = .write ∧ c'.req.dataMem.isSome) ∨
      (c'.req.status = .ioshuffle ∧ c'.req.dataMem = none)) ∧
    c'.req.method = c.req.method ∧ c'.req.filter = c.req.filter ∧
    c'.req.bufferStart = c.req.bufferStart ∧ c'.req.bufferEnd = c.req.bufferEnd ∧
    c'.req.filesize = c.req.filesize ∧ c'.req.ranges = c.req.ranges ∧
    ∀ mem, c'.req.dataMem = some mem → c.req.filesize ≤ maxFileMmap ∧ f.size ≤ mem.length := by
  simp only [mapFile, exec_bind, exec_get, value_get, exec_ite]
  split
  · refine ⟨.inr ⟨rfl, hd⟩, rfl, rfl, rfl, rfl, rfl, rfl, fun mem hmem => ?_⟩
    have hmem' : c.req.dataMem = some mem := hmem
    rw [hd] at hmem'
    cases hmem'
  · rename_i hc
    refine ⟨.inl ⟨hs, rfl⟩, rfl, rfl, rfl, rfl, rfl, rfl, fun mem hmem => ?_⟩
    have hmapped : mem = f.mapped := (Option.some.inj hmem).symm
    refine ⟨Nat.le_of_not_lt fun h => hc (.inl h), ?_⟩
    rw [hmapped, File.mapped, List.length_append, List.length_replicate]
    omega

theorem headed_open (fd : Nat) (h : Settled f c) :
    let c1 := exec (do mark .serveFile; mapFile fd f) c
    value (serveHeader e) c1 = true ∧ exec (serveHeader e) c1 = headed e fd f c ∧
      Open e ((headed e fd f c).total e) (headed e fd f c) ∧
      ∀ mem, (headed e fd f c).req.dataMem = some mem →
        ∀ r ∈ (headed e fd f c).req.ranges, r.stop < maxFileMmap ∧ r.stop < mem.length := by
  intro c1
  obtain ⟨hsrc, hm, hf, hbs, hbe, hfs, hr, hmap⟩ :=
    mapFile_source (c := exec (mark .serveFile) c) (f := f) fd h.asked.status h.asked.dataMem
  obtain ⟨rs, hrs⟩ := h.ranges
  have hfs' : c1.req.filesize = f.size := hfs.trans h.filesize
  have hle : c1.req.bufferStart ≤ c1.req.bufferEnd := by
    have hbs' : c1.req.bufferStart = c.req.bufferStart := hbs
    have hbe' : c1.req.bufferEnd = c.req.bufferEnd := hbe
    rw [hbs', hbe']
    exact h.asked.order
  have hsize : 0 < f.size ∧ f.size < 2^63 := ⟨h.nonempty, h.asked.size⟩
  have hok : ∀ r ∈ c1.req.ranges, r.Ok ∧ r.stop < c1.req.filesize := by
    have hr' : c1.req.ranges = rangesLeft f.size rs := hr.trans hrs
    rw [hr', hfs']
    exact rangesLeft_ok hsize rs
  obtain ⟨hv, ho, hmem, hstop⟩ := serveHeader_open e (hfs' ▸ hsize) (hm.trans h.asked.method)
    (hf.trans h.asked.filter) hle hsrc hok
  refine ⟨hv, rfl, ho, fun mem hsome r hr => ?_⟩
  obtain ⟨hsmall, hlen⟩ := hmap mem (hmem ▸ hsome)
  have hsmall' : c.req.filesize ≤ maxFileMmap := hsmall
  have hlt : r.stop < c1.req.filesize := hstop r hr
  have hfilesize := h.filesize
  omega

theorem Open.phase {text : Text} (h : Open e text c) : Phase e text c := by
  by_cases hs : c.req.status.over = true
  · exact .dead ⟨h.1.filter, hs, h.1.closing.wire⟩
  · exact .live ⟨h.1, Bool.eq_false_iff.mpr hs, h.2⟩

/-- A page can be sent unless the buffer was emptied while a part of it was out. -/
theorem Turned.page (hf : c.req.filter = none) : Turned e c.page c 0 := by
  have hsent : c.wire ++ c.req.pending <+: c.page := List.prefix_rfl
  by_cases hle : c.req.bufferStart ≤ c.req.bufferEnd
  · exact .ends ⟨hf, hle, hsent⟩
  · exact .loses ⟨hf, Nat.lt_of_not_le hle, (List.prefix_append _ _).trans hsent⟩

theorem fillBuffer_turned {text : Text} (h : Open e text c) (hbus : c.busError = false)
    (hshort : ∀ mem, c.req.dataMem = some mem → ∀ r ∈ c.req.ranges,
      r.stop < maxFileMmap ∧ r.stop < mem.length) :
    Turned e text (exec (fillBuffer e) c) (value (fillBuffer e) c) := by
  obtain ⟨r0, rs, hr, hok⟩ := h.2
  have hrange : c.req.range = r0 := by rw [Request.range, hr]; rfl
  match hm : c.req.dataMem with
  | none =>
    simp only [fillBuffer, exec_bind, value_bind, exec_getReq, value_getReq, hm]
    exact .goesOn h.phase
  | some mem =>
    simp only [fillBuffer, exec_bind, value_bind, exec_getReq, value_getReq, hm, hrange]
    by_cases hroom : u32 (bufferSize + 2^32 - c.req.bufferEnd) ≤ 256
    · simp only [if_pos hroom]
      exact .goesOn h.phase
    · obtain ⟨hlt, hlen⟩ := hshort mem hm r0 (hr ▸ List.mem_cons_self ..)
      have hwant : u32 (u64 (r0.stop + 2^64 - r0.start + 1)) = r0.stop + 1 - r0.start := by
        unfold maxFileMmap at hlt
        rw [u64_length hok, u32, Nat.mod_eq_of_lt (by omega)]
      have hnobus : value sigbus c = false := by
        have hv : value sigbus c = c.sys.sigbus.headD false := rfl
        have hnle : 256 < u32 (bufferSize + 2^32 - c.req.bufferEnd) := by omega
        rw [Conn.busError, hm] at hbus
        rw [hv]
        simpa only [Option.isSome_some, Bool.true_and, gt_iff_lt, hnle, decide_true] using hbus
      have hn : min (u32 (bufferSize + 2^32 - c.req.bufferEnd)) (r0.stop + 1 - r0.start) ≤
          r0.stop + 1 - r0.start := Nat.min_le_right _ _
      simp only [if_neg hroom, hwant, exec_bind, value_bind]
      generalize min (u32 (bufferSize + 2^32 - c.req.bufferEnd)) (r0.stop + 1 - r0.start) = n
        at hn
      have hmark : Open e text (exec (mark (.fileAccess r0.start n)) c) :=
        ⟨⟨h.1.source, h.1.method, h.1.filter, h.1.order, h.1.later, h.1.sent⟩, h.2⟩
      have hreq : (exec (mark (.fileAccess r0.start n)) c).req = c.req := rfl
      have hnobus' : value sigbus (exec (mark (.fileAccess r0.start n)) c) = false := hnobus
      clear hshort hnobus hbus h
      rw [← hreq] at hr hm hrange
      generalize exec (mark (.fileAccess r0.start n)) c = c at hmark hnobus' hr hm hrange ⊢
      have h := hmark
      have hrange1 : (exec sigbus c).req.range = r0 := hrange
      simp only [hnobus', Bool.false_eq_true, if_false, exec_bind, value_bind, exec_modReq, hrange1]
      generalize hbs : (mem.drop r0.start).take n = bs
      have hcontent : (exec sigbus c).req.content = mem := by
        have hm' : (exec sigbus c).req.dataMem = some mem := hm
        rw [Request.content, hm']
        rfl
      have hbs' : bs = (((exec sigbus c).req.content.drop r0.start).take n).take n := by
        rw [hcontent, List.take_take, Nat.min_self, hbs]
      have hlen' : bs.length = n := by
        rw [← hbs, List.length_take, List.length_drop]
        have := hok.1
        omega
      have hbus' : Open e text (exec sigbus c) :=
        ⟨⟨h.1.source, h.1.method, h.1.filter, h.1.order, h.1.later, h.1.sent⟩, h.2⟩
      let c' : Conn := { exec sigbus c with
        req := (((exec sigbus c).req.append bs).counted n).moveStart n }
      have hrem : c'.req.remaining e = ((exec sigbus c).req.moveStart bs.length).remaining e := by
        rw [hlen']
        refine remaining_congr rfl rfl rfl rfl ?_
        intro _
        rfl
      have hsent : c'.wire ++ c'.req.pending =
          (exec sigbus c).wire ++ (exec sigbus c).req.pending ++ bs := by
        rw [List.append_assoc, ← Request.pending_append _ _ hbus'.1.order]
        rfl
      have hranges : c'.req.ranges = ((exec sigbus c).req.moveStart bs.length).ranges := by
        rw [hlen']
        rfl
      have horder : c'.req.bufferStart ≤ c'.req.bufferEnd :=
        Nat.le_trans hbus'.1.order (Nat.le_add_right _ _)
      have hmethod : c'.req.method = .get := hbus'.1.method
      have hfilter : c'.req.filter = none := hbus'.1.filter
      have hadvance := fun hsrc => hbus'.advance e hr hn hbs' hsrc hmethod hfilter horder hranges
        hrem hsent
      obtain ⟨hle, hrange', hspent, hopen⟩ := hadvance hbus'.1.source
      split
      · rename_i hend
        exact completeResponse_turned e (hspent (by omega))
      · rename_i hend
        exact .goesOn (Open.phase e (hopen (by omega)))

/-- The error page takes the place of what was buffered; whether it can be sent depends on
how much of the buffer had gone out before. -/
theorem fillBuffer_busError (hf : c.req.filter = none) (hbus : c.busError = true) :
    Turned e (exec (fillBuffer e) c).page (exec (fillBuffer e) c) (value (fillBuffer e) c) := by
  simp only [Conn.busError, Bool.and_eq_true, decide_eq_true_eq] at hbus
  obtain ⟨⟨hmem, hroom⟩, hsig⟩ := hbus
  obtain ⟨mem, hm⟩ := Option.isSome_iff_exists.mp hmem
  have hnle : ¬u32 (bufferSize + 2^32 - c.req.bufferEnd) ≤ 256 := Nat.not_le.mpr hroom
  obtain ⟨c1, hc1, herr⟩ : ∃ c1 : Conn, c1.req = c.req ∧
      exec (fillBuffer e) c = exec (sendRError e) (exec resetOutputBuffer c1) ∧
      value (fillBuffer e) c = 0 := by
    have hv : ∀ t, value sigbus { c with trace := t } = true := fun _ => hsig
    simp only [fillBuffer, exec_bind, value_bind, exec_getReq, value_getReq, hm, if_neg hnle]
    simp only [mark, exec_modify, hv, if_true, exec_bind, value_bind, exec_pure, value_pure]
    refine ⟨exec sigbus _, ?_, rfl, trivial⟩
    rfl
  have hout := sendRError_outputs e (exec resetOutputBuffer c1)
  have hfilter : (exec (fillBuffer e) c).req.filter = none := by
    rw [herr.1]
    exact hout.filter.trans ((congrArg Request.filter hc1).trans hf)
  rw [herr.2]
  exact Turned.page e hfilter

theorem initGetFile_serves (fd : Nat) (h : c.servesFile e f = true) :
    exec (initGetFile e fd f) c = exec (serveFile e fd f) (c.opened f) ∧
      value (initGetFile e fd f) c = value (serveFile e fd f) (c.opened f) := by
  simp only [Conn.servesFile, Bool.and_eq_true, Bool.or_eq_true, decide_eq_true_eq] at h
  obtain ⟨⟨⟨hkind, h304⟩, hsize⟩, hranges⟩ := h
  have hreg : ¬f.kind ≠ .reg := not_not.mpr hkind
  simp only [initGetFile, exec_bind, value_bind, exec_getReq, value_getReq, exec_modReq,
    if_neg hreg, if_neg h304, if_neg hsize]
  by_cases hr : c.req.ranges = []
  · have hopened : c.opened f = { c with req := { c.req with
        filesize := f.size, lastModified := f.mtime, headerIfrange := none } } := by
      simp only [Conn.opened, Request.opened, hr, rangesLeft, List.filterMap_nil, ite_self]
    have hnr : ¬c.req.ranges ≠ [] := not_not.mpr hr
    rw [hopened, if_neg hnr]
    exact ⟨rfl, rfl⟩
  · have hleft : rangesLeft f.size c.req.ranges ≠ [] := hranges.resolve_left hr
    simp only [if_pos hr, rangesFixup, exec_bind, value_bind, exec_modReq, exec_getReq,
      value_getReq, if_neg hleft, exec_pure, value_pure, if_true]
    exact ⟨rfl, rfl⟩

/-- Everything else is a page and the end of the request. -/
theorem initGetFile_answers (fd : Nat) (h : c.servesFile e f = false) :
    (exec (initGetFile e fd f) c).req.filter = c.req.filter ∧
      value (initGetFile e fd f) c = 0 := by
  simp only [Conn.servesFile, ne_eq, decide_not, Bool.and_eq_false_iff, Bool.not_eq_false',
    Bool.or_eq_false_iff, decide_eq_false_iff_not, decide_eq_true_eq] at h
  simp only [initGetFile, exec_bind, value_bind, exec_getReq, value_getReq]
  by_cases hkind : f.kind ≠ .reg
  · simp only [if_pos hkind]
    exact ⟨(sendRBadRequest_outputs e c).filter, rfl⟩
  by_cases h304 : c.req.ifModifiedSince.map (modifiedSince (e.gmtime f.mtime)) = some 0
  · simp only [if_neg hkind, if_pos h304]
    exact ⟨(sendRNotModified_outputs e c).filter, rfl⟩
  by_cases hsize : f.size = 0
  · simp only [if_neg hkind, if_neg h304, if_pos hsize]
    exact ⟨(serveEmpty_outputs e _).filter, value_serveEmpty e _⟩
  · obtain ⟨hr, hleft⟩ : c.req.ranges ≠ [] ∧ rangesLeft f.size c.req.ranges = [] := by
      rcases h with ((h | h) | h) | h
      · exact absurd h hkind
      · exact absurd h h304
      · exact absurd h hsize
      · exact h
    simp only [if_neg hkind, if_neg h304, if_neg hsize, exec_bind, value_bind, exec_modReq,
      exec_getReq, value_getReq, if_pos hr, rangesFixup, hleft, if_true, exec_pure, value_pure,
      Bool.false_eq_true, if_false]
    exact ⟨(sendRInvalidRange_outputs e _).filter, trivial⟩

/-- Behind the header comes the copy into the buffer. -/
theorem serveFile_filled (fd : Nat) (h : Settled f c) :
    exec (serveFile e fd f) c = exec (fillBuffer e) (headed e fd f c) ∧
      value (serveFile e fd f) c = value (fillBuffer e) (headed e fd f c) := by
  obtain ⟨hv, he, ho, -⟩ := headed_open e fd h
  have hget : (headed e fd f c).req.method ≠ .head := by rw [ho.1.method]; decide
  simp only [exec_bind] at hv he
  simp only [serveFile, exec_bind, value_bind, hv, he, if_true, value_getReq, exec_getReq,
    if_neg hget, and_self]

theorem serveFile_inOrder (fd : Nat) (h : Settled f c) :
    InOrder e (promisedFile e fd f c)
      (exec (settle e (value (serveFile e fd f) c)) (exec (serveFile e fd f) c)) := by
  obtain ⟨-, -, ho, hshort⟩ := headed_open e fd h
  obtain ⟨hrun, hret⟩ := serveFile_filled e fd h
  rw [hrun, hret, promisedFile]
  by_cases hbus : (headed e fd f c).busError = true
  · rw [if_pos hbus]
    exact settle_inOrder e (fillBuffer_busError e ho.1.filter hbus)
  · rw [if_neg hbus]
    exact settle_inOrder e (fillBuffer_turned e ho (Bool.eq_false_iff.mpr hbus) hshort)

theorem Asked.settled (h : Asked f c) (hserves : c.servesFile e f = true) :
    Settled f (c.opened f) := by
  have hne : f.size ≠ 0 := by
    intro h0
    simp [Conn.servesFile, h0] at hserves
  exact ⟨⟨h.status, h.method, h.filter, h.dataMem, h.order, h.size⟩, rfl, Nat.pos_of_ne_zero hne, _,
    rfl⟩

theorem served_inOrder (fd : Nat) (h : Asked f c) :
    InOrder e (promised e fd f c) (served e fd f c) := by
  have hrun : served e fd f c =
      exec (settle e (value (initGetFile e fd f) c)) (exec (initGetFile e fd f) c) := rfl
  rw [hrun, promised]
  by_cases hserves : c.servesFile e f = true
  · obtain ⟨he, hv⟩ := initGetFile_serves e fd hserves
    rw [if_pos hserves, he, hv]
    exact serveFile_inOrder e fd (h.settled e hserves)
  · obtain ⟨hf, hv⟩ := initGetFile_answers e fd (Bool.eq_false_iff.mpr hserves)
    rw [if_neg hserves, hv]
    exact settle_inOrder e (Turned.page e (hf.trans h.filter))

/-- Output order: along every run of a GET response from a file, whose steps do not run a
direct write after a part of a flush, what the socket has accepted is a prefix of the one
text, and direct writes find the buffer empty. -/
theorem output_in_order (f : File) (fd : Nat) (c : Conn) (evs : List Ev) (h : Asked f c)
    (hok : Run.AllSteps (step e) (keepsOrder e) (served e fd f c) evs) :
    (∀ t ∈ Run.states (step e) (served e fd f c) evs, t.wire <+: promised e fd f c) ∧
      Run.AllSteps (step e) (writesInOrder e) (served e fd f c) evs := by
  have hstart := served_inOrder e fd h
  constructor
  · intro t ht
    exact (Run.invariant (step_inOrder e) hstart hok t ht).wire
  · exact Run.allSteps (step_inOrder e) (writesInOrder_of e) hstart hok

end Start

def twoBytes : File := ⟨.reg, 2, 0, 1, 1, [97, 98]⟩

/-- The two bytes asked for as two parts. -/
def twoParts : Conn where
  req := {
    status := .write, method := .get, httpVersion := .http11, requestUri := str "/f"
    ranges := [⟨0, 0⟩, ⟨1, 1⟩], numranges := 2, fd := 5, kacount := 10 }
  sys := { mmap := true }

theorem twoParts_asked : Asked twoBytes twoParts :=
  ⟨rfl, rfl, rfl, rfl, Nat.le_refl 0, by decide⟩

/-- The socket takes one byte of the buffered header, and then the `b` of the second part. -/
theorem output_out_of_order :
    Asked twoBytes twoParts ∧
      ∃ evs, (Run.final (step {}) (served {} 7 twoBytes twoParts) evs).wire = str "Hb" ∧
        ∃ t ∈ Run.states (step {}) (served {} 7 twoBytes twoParts) evs,
          ¬t.wire <+: promised {} 7 twoBytes twoParts := by
  refine ⟨twoParts_asked, [.process { sock := [.done 1, .done 1] }], by decide +kernel, _,
    Run.final_mem_states _ _, ?_⟩
  decide +kernel

theorem output_in_order_twoParts :
    (∀ t ∈ Run.states (step {}) (served {} 7 twoBytes twoParts)
        [.process { sock := [.done 500, .done 1] }, .process { sock := [.done 9] }],
      t.wire <+: promised {} 7 twoBytes twoParts) ∧
    Run.AllSteps (step {}) (writesInOrder {}) (served {} 7 twoBytes twoParts)
      [.process { sock := [.done 500, .done 1] }, .process { sock := [.done 9] }] := by
  refine output_in_order {} twoBytes 7 twoParts _ twoParts_asked ?_
  refine ⟨?_, ?_, trivial⟩
  · decide +kernel
  · decide +kernel

end Crotalus
