import Crotalus.Server.Get
import Crotalus.Spec.FilterWalk
import Crotalus.Spec.Response

namespace Crotalus

open Stateful

/-- What the code that writes and flushes a response leaves alone: the file and its ranges,
and the status unless the request dies. It does not move the start of the buffer past its
end. -/
structure Output (c c' : Conn) : Prop where
  method : c'.req.method = c.req.method
  filter : c'.req.filter = c.req.filter
  ranges : c'.req.ranges = c.req.ranges
  dataMem : c'.req.dataMem = c.req.dataMem
  status : c'.req.status = c.req.status ∨ c'.req.status = .dead
  order : c.req.filter = none → c.req.bufferStart ≤ c.req.bufferEnd →
    c'.req.bufferStart ≤ c'.req.bufferEnd

theorem Output.refl (c : Conn) : Output c c := ⟨rfl, rfl, rfl, rfl, .inl rfl, fun _ h => h⟩

theorem Output.trans {c c' c'' : Conn} (h : Output c c') (h' : Output c' c'') :
    Output c c'' := by
  refine ⟨h'.method.trans h.method, h'.filter.trans h.filter, h'.ranges.trans h.ranges,
    h'.dataMem.trans h.dataMem, ?_, fun hf hle => h'.order (h.filter.trans hf) (h.order hf hle)⟩
  rcases h'.status with hs | hs
  · rw [hs]
    exact h.status
  · exact .inr hs

/-- Such code. -/
def Outputs {α : Type} (m : Srv α) : Prop := Rel Output m

section Rules

@[grind ←]
theorem Outputs.bind {α β : Type} {m : Srv α} {f : α → Srv β} (hm : Outputs m)
    (hf : ∀ a, Returns m a → Outputs (f a)) : Outputs (m >>= f) :=
  Rel.seq (fun h => h.trans) hm hf

@[grind ←]
theorem Outputs.pure {α : Type} (a : α) : Outputs (Pure.pure a : Srv α) := Output.refl

@[grind ←] theorem Outputs.getReq : Outputs getReq := Output.refl
@[grind ←] theorem Outputs.get : Outputs (MonadState.get : Srv Conn) := Output.refl
@[grind ←] theorem Outputs.squashKa : Outputs squashKa :=
  fun _ => ⟨rfl, rfl, rfl, rfl, .inl rfl, fun _ h => h⟩
@[grind ←] theorem Outputs.mark (site : Site) : Outputs (mark site) :=
  fun _ => ⟨rfl, rfl, rfl, rfl, .inl rfl, fun _ h => h⟩
@[grind ←] theorem Outputs.dead : Outputs (setStatus .dead) :=
  fun _ => ⟨rfl, rfl, rfl, rfl, .inr rfl, fun _ h => h⟩

@[grind ←]
theorem Outputs.onlyIf {b : Bool} {m : Srv Unit} (h : Outputs m) : Outputs (onlyIf b m) := by
  cases b
  · exact Output.refl
  · exact h

/-- The fields that `Output` speaks about. -/
@[grind =] def Request.outline (r : Request) :
    Method × Option FilterKind × List Range × Option (List Byte) × Status × Nat × Nat :=
  (r.method, r.filter, r.ranges, r.dataMem, r.status, r.bufferStart, r.bufferEnd)

@[grind ←]
theorem Outputs.modReq {f : Request → Request} (h : ∀ r, (f r).outline = r.outline) :
    Outputs (modReq f) := by
  intro c
  have hr := h c.req
  simp only [Request.outline, Prod.mk.injEq] at hr
  obtain ⟨hm, hf, hr, hd, hst, hs, he⟩ := hr
  refine ⟨hm, hf, hr, hd, .inl hst, fun _ hle => ?_⟩
  change (f c.req).bufferStart ≤ (f c.req).bufferEnd
  omega

end Rules

@[grind ←]
theorem reqWrite_outputs (msg : Text) : Outputs (reqWrite msg) := by
  intro c
  by_cases hs : c.req.status.over = true
  · rw [exec_reqWrite_over msg c hs]
    exact Output.refl c
  · rw [exec_reqWrite msg c (Bool.eq_false_iff.mpr hs)]
    split
    · exact ⟨rfl, rfl, rfl, rfl, .inl rfl, fun _ h => Nat.le_trans h (Nat.le_add_right _ _)⟩
    · exact Outputs.dead c

@[grind ←]
theorem reqWriteEscape_outputs (esc : Byte → Text) (guard : Nat) (msg : Text) :
    Outputs (reqWriteEscape esc guard msg) := by
  intro c
  have happ : Output c (c.buffers
      (escapeLoop esc guard (bufferSize - c.req.bufferEnd) msg).1) :=
    ⟨rfl, rfl, rfl, rfl, .inl rfl, fun _ h => Nat.le_trans h (Nat.le_add_right _ _)⟩
  simp only [reqWriteEscape, exec_bind, exec_getReq, value_getReq, exec_modReq, exec_ite,
    exec_pure]
  split
  · exact happ
  · exact happ.trans (Outputs.dead _)

theorem escapeLoopAt_le (esc : Byte → Text) (guard k : Nat) (m : Nat → Byte) (dest inp : Nat) :
    dest ≤ (escapeLoopAt esc guard k m dest inp).2.1 := by
  induction k generalizing m dest inp with
  | zero => exact Nat.le_refl _
  | succ k ih =>
    unfold escapeLoopAt
    split
    · exact Nat.le_refl _
    · split
      · exact Nat.le_refl _
      · exact Nat.le_trans (Nat.le_add_right _ _) (ih ..)

@[grind ←]
theorem reqWriteEscapeAt_outputs (esc : Byte → Text) (guard off : Nat) :
    Outputs (reqWriteEscapeAt esc guard off) := by
  intro c
  have hle := escapeLoopAt_le esc guard bufferSize c.req.buffer c.req.bufferEnd off
  simp only [reqWriteEscapeAt, exec_bind, exec_getReq, value_getReq, exec_modReq, exec_ite,
    exec_pure]
  split
  · exact ⟨rfl, rfl, rfl, rfl, .inl rfl, fun _ h => Nat.le_trans h hle⟩
  · exact ⟨rfl, rfl, rfl, rfl, .inr rfl, fun _ h => Nat.le_trans h hle⟩

@[grind ←]
theorem put_outputs (p : Piece) : Outputs (put p) := by
  cases p <;> simp only [put, reqWriteAt, reqWriteEscapeHttp, reqWriteEscapeHtml] <;> grind

@[grind ←]
theorem puts_outputs (ps : List Piece) : Outputs (puts ps) := by
  induction ps with
  | nil => exact Output.refl
  | cons p ps ih =>
    unfold puts
    grind

/-! Flushes. -/

@[grind ←]
theorem sockWrite_outputs (bs : List Byte) : Outputs (sockWrite bs) := by
  intro c
  have hw := sockWrite_wrote bs c
  generalize value (sockWrite bs) c = v at hw
  generalize exec (sockWrite bs) c = c' at hw ⊢
  cases hw with
  | took n w d => exact ⟨rfl, rfl, rfl, rfl, .inl rfl, fun _ h => h⟩
  | failed err w d => exact ⟨rfl, rfl, rfl, rfl, .inl rfl, fun _ h => h⟩

theorem Request.outline_unstreamed {r r' : Request} (h : r'.unstreamed = r.unstreamed) :
    r'.outline = r.outline := by
  have ho : r'.unstreamed.outline = r.unstreamed.outline := congrArg Request.outline h
  exact ho

theorem output_streams : Streams Output where
  refl := .refl
  trans := .trans
  write := sockWrite_outputs
  data _ _ := ⟨rfl, rfl, rfl, rfl, .inl rfl, fun _ h => h⟩
  gz _ := ⟨rfl, rfl, rfl, rfl, .inl rfl, fun _ h => h⟩
  stream h := Outputs.modReq fun r => Request.outline_unstreamed (h r)

theorem mimeFilterWrite_outputs (e : Config) (f : FilterKind) :
    Outputs (mimeFilterWrite e f) := mimeFilterWrite_rel output_streams e f

theorem output_taken {c : Conn} (k : Nat)
    (hle : c.req.filter = none → c.req.bufferStart ≤ c.req.bufferEnd → k ≤ c.req.pending.length)
    (wire : List Byte) (w : World) :
    Output c { c with req := c.req.taken k, wire := wire, sys := w } := by
  have horder := fun hf hle' => c.req.taken_le hle' (hle hf hle')
  unfold Request.taken at horder ⊢
  split at horder <;> rename_i hk
  · simp only [if_pos hk]
    exact ⟨rfl, rfl, rfl, rfl, .inl rfl, horder⟩
  · simp only [if_neg hk]
    exact ⟨rfl, rfl, rfl, rfl, .inl rfl, horder⟩

theorem output_failed (c : Conn) : Output c (exec flushFailed c) :=
  ⟨rfl, rfl, rfl, rfl, .inr rfl, fun _ _ => Nat.le_refl 0⟩

@[grind ←]
theorem reqFlush_outputs (e : Config) : Outputs (reqFlush e) := by
  intro c
  by_cases hs : c.req.status.over = true
  · rw [(reqFlush_over e hs).2]
    exact Output.refl c
  have hs : c.req.status.over = false := Bool.eq_false_iff.mpr hs
  match hf : c.req.filter with
  | none =>
    by_cases hle : c.req.bufferStart ≤ c.req.bufferEnd
    · have hout := reqFlush_outcome e hs hf hle
      generalize value (reqFlush e) c = i at hout
      cases hout with
      | took k w hk hshort he =>
        rw [he]
        exact output_taken k (fun _ _ => hk) _ w
      | blocked w he =>
        rw [he]
        exact ⟨rfl, rfl, rfl, rfl, .inl rfl, fun _ h => h⟩
      | failed w he =>
        rw [he]
        exact ⟨rfl, rfl, rfl, rfl, .inr rfl, fun _ _ => Nat.le_refl 0⟩
    · rw [(reqFlush_crossed e hs hf (Nat.lt_of_not_le hle)).2]
      exact ⟨rfl, rfl, rfl, rfl, .inr rfl, fun _ _ => Nat.le_refl 0⟩
  | some f =>
    by_cases heq : c.req.bufferEnd = c.req.bufferStart
    · rw [(reqFlush_empty e hs heq).2]
      exact ⟨rfl, rfl, rfl, rfl, .inl rfl, fun _ _ => Nat.le_refl 0⟩
    · have hw := mimeFilterWrite_outputs e f c
      have hsome : (exec (mimeFilterWrite e f) c).req.filter ≠ none := by
        rw [hw.filter, hf]
        exact Option.some_ne_none f
      simp only [reqFlush, exec_bind, exec_getReq, value_getReq, hs, Bool.false_eq_true,
        if_false, if_neg heq, hf, exec_ite]
      split
      · exact hw.trans (output_failed _)
      · exact hw.trans (output_taken _ (fun h => absurd h hsome) _ _)

@[grind ←]
theorem reqFlushRaw_outputs : Outputs reqFlushRaw := by
  intro c
  by_cases hs : c.req.status.over = true
  · have hrun : exec reqFlushRaw c = c := by simp [reqFlushRaw, hs]
    rw [hrun]
    exact Output.refl c
  by_cases heq : c.req.bufferEnd = c.req.bufferStart
  · have hrun : exec reqFlushRaw c = exec (flushed 0) c := by simp [reqFlushRaw, hs, heq]
    rw [hrun]
    exact output_taken 0 (fun _ _ => Nat.zero_le _) c.wire c.sys
  by_cases hle : c.req.bufferStart ≤ c.req.bufferEnd
  · have hw := writePending_wrote 0 c hle
    simp only [reqFlushRaw, exec_bind, exec_getReq, value_getReq, if_neg hs, if_neg heq]
    simp only [retryIntr] at hw
    generalize value writePending c = v at hw ⊢
    generalize exec writePending c = c' at hw ⊢
    cases hw with
    | took n w d =>
      have hkeep : Output c { c with waits := d } :=
        ⟨rfl, rfl, rfl, rfl, .inl rfl, fun _ h => h⟩
      exact hkeep.trans (output_taken _ (fun _ _ => List.length_take_le' ..) _ w)
    | failed err w d =>
      have hkeep : Output c { c with sys := w, waits := d } :=
        ⟨rfl, rfl, rfl, rfl, .inl rfl, fun _ h => h⟩
      cases err with
      | again => exact hkeep
      | _ => exact hkeep.trans (output_failed _)
  · have hlt : c.req.bufferEnd < c.req.bufferStart := Nat.lt_of_not_le hle
    have hrun : exec reqFlushRaw c = exec flushFailed c := by
      simp [reqFlushRaw, writePending, hs, heq, hlt]
    rw [hrun]
    exact output_failed c

/-! Headers. -/

@[grind ←] theorem now_outputs : Outputs now := Output.refl

@[grind ←]
theorem mimeHead_outputs (e : Config) (h : MimeHandler) : Outputs (mimeHead e h) := by
  cases h <;> unfold mimeHead <;> grind

@[grind ←]
theorem mimeInterpHead_outputs (e : Config) (m : Mime) : Outputs (mimeInterpHead e m) := by
  unfold mimeInterpHead
  refine .bind (.modReq ?_) fun _ _ => .bind .getReq fun r _ => ?_
  · exact fun _ => rfl
  · grind

@[grind ←]
theorem sendRRequestOk_outputs (e : Config) : Outputs (sendRRequestOk e) := by
  refine .bind .getReq fun r _ => ?_
  split
  · grind
  · refine .bind (.modReq ?_) fun _ _ => ?_
    · exact fun _ => rfl
    · refine .bind now_outputs fun t _ => .bind .getReq fun r _ => ?_
      grind

@[grind ←]
theorem sendRPartialContent_outputs (e : Config) : Outputs (sendRPartialContent e) := by
  unfold sendRPartialContent
  grind

@[grind ←]
theorem reply_outputs (e : Config) (code : Nat) (reason : String)
    (fields body : Request → List Piece) : Outputs (reply e code reason fields body) := by
  unfold reply
  grind

theorem sendRError_outputs (e : Config) : Outputs (sendRError e) := by
  unfold sendRError
  exact reply_outputs _ _ _ _ _

theorem sendRBadRequest_outputs (e : Config) : Outputs (sendRBadRequest e) := by
  unfold sendRBadRequest
  exact reply_outputs _ _ _ _ _

theorem sendRInvalidRange_outputs (e : Config) : Outputs (sendRInvalidRange e) := by
  unfold sendRInvalidRange
  exact reply_outputs _ _ _ _ _

@[grind ←]
theorem sendRNoContent_outputs (e : Config) : Outputs (sendRNoContent e) := by
  unfold sendRNoContent
  refine .bind (.modReq ?_) fun _ _ => ?_
  · exact fun _ => rfl
  · grind

theorem sendRNotModified_outputs (e : Config) : Outputs (sendRNotModified e) := by
  unfold sendRNotModified
  refine .bind .squashKa fun _ _ => .bind (.modReq ?_) fun _ _ => ?_
  · exact fun _ => rfl
  · grind

theorem value_serveEmpty (e : Config) (c : Conn) : value (serveEmpty e) c = 0 := by
  simp only [serveEmpty, value_bind, value_getReq, exec_getReq, value_ite, value_pure, ite_self]

theorem serveEmpty_outputs (e : Config) : Outputs (serveEmpty e) := by
  unfold serveEmpty
  grind

end Crotalus
