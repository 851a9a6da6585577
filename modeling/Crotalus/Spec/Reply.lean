import Crotalus.Server.CgiHeader
import Crotalus.Spec.Flush

namespace Crotalus

open Stateful ByteMem

/-! What the writing of an answer leaves alone: the request but for its output buffer and
what a flush changes, and the memory behind the array. -/

/-- The request without the contents of the buffer and what a flush changes. -/
def Request.aside (r : Request) : Request := { r.core with buffer := fun _ => 0 }

structure Replied (c c' : Conn) : Prop where
  aside : c'.req.aside = c.req.aside
  beyond : ∀ i, bufferSize < i → c'.req.buffer i = c.req.buffer i

def Replies {α : Type} (m : Srv α) : Prop := Rel Replied m

section Rules

variable {c c' c'' : Conn}

theorem Replied.same (ha : c'.req.aside = c.req.aside) (hb : c'.req.buffer = c.req.buffer) :
    Replied c c' := ⟨ha, fun i _ => congrFun hb i⟩

theorem Replied.refl (c : Conn) : Replied c c := .same rfl rfl

theorem Replied.trans (h : Replied c c') (h' : Replied c' c'') : Replied c c'' :=
  ⟨h'.aside.trans h.aside, fun i hi => (h'.beyond i hi).trans (h.beyond i hi)⟩

theorem Replies.bind {α β : Type} {m : Srv α} {f : α → Srv β} (hm : Replies m)
    (hf : ∀ a, Replies (f a)) : Replies (m >>= f) :=
  Rel.seq (fun h => h.trans) hm fun a _ => hf a

theorem Replies.pure {α : Type} (a : α) : Replies (Pure.pure a : Srv α) := Replied.refl

theorem Replies.getReq : Replies getReq := Replied.refl
theorem Replies.now : Replies now := Replied.refl
theorem Replies.mark (site : Site) : Replies (mark site) := fun _ => .same rfl rfl
theorem Replies.setStatus (st : Status) : Replies (setStatus st) := fun _ => .same rfl rfl
theorem Replies.squashKa : Replies squashKa := fun _ => .same rfl rfl

theorem Replies.onlyIf {b : Bool} {m : Srv Unit} (h : Replies m) : Replies (onlyIf b m) := by
  cases b
  · exact Replied.refl
  · exact h

theorem Replies.modReq {f : Request → Request} (ha : ∀ r, (f r).aside = r.aside)
    (hb : ∀ r, (f r).buffer = r.buffer) : Replies (modReq f) :=
  fun c => .same (ha c.req) (hb c.req)

theorem Idled.replied (h : Idled c c') : Replied c c' := by
  have hcore : c'.req.core = c.req.core := (Prod.mk.inj h.core).1
  have haside : c'.req.core.aside = c.req.core.aside := by rw [hcore]
  have hbuffer : c'.req.core.buffer = c.req.core.buffer := by rw [hcore]
  exact .same haside hbuffer

theorem Idles.replies {α : Type} {m : Srv α} (h : Idles m) : Replies m := fun c => (h c).replied

end Rules

section Writers

/-- Bytes that end within the array. -/
theorem append_replied {c : Conn} {msg : Text}
    (h : c.req.bufferEnd + msg.length ≤ bufferSize ∨ msg = []) : Replied c (c.buffers msg) := by
  refine ⟨rfl, fun i hi => ?_⟩
  rcases h with h | rfl
  · exact store_above _ _ _ _ (by omega)
  · exact congrFun (store_nil _ _) i

theorem reqWrite_replies (msg : Text) : Replies (reqWrite msg) := by
  intro c
  by_cases hs : c.req.status.over = true
  · rw [exec_reqWrite_over msg c hs]
    exact .refl c
  · rw [exec_reqWrite msg c (Bool.eq_false_iff.mpr hs)]
    split
    · rename_i h
      exact append_replied h
    · exact Replies.setStatus .dead c

/-- No character takes more room when it is escaped than the writer asks for. -/
def Guards (esc : Byte → Text) (guard : Nat) : Prop := ∀ b, (esc b).length ≤ guard

theorem guards_http : Guards escapeHttp 3 := by
  intro b
  unfold escapeHttp
  split
  · exact Nat.le_refl 3
  · exact Nat.le_add_left 1 2

theorem guards_html : Guards escapeHtml 6 := by
  intro b
  unfold escapeHtml
  split
  · decide
  · split
    · decide
    · split
      · decide
      · split
        · decide
        · exact Nat.le_add_left 1 5

theorem escapeLoop_length {esc : Byte → Text} {guard : Nat} (hg : Guards esc guard) (left : Nat)
    (msg : Text) : (escapeLoop esc guard left msg).1.length ≤ left := by
  induction msg generalizing left with
  | nil => exact Nat.zero_le left
  | cons b s ih =>
    unfold escapeLoop
    split
    · exact Nat.zero_le left
    · have hb := hg b
      have hs := ih (left - (esc b).length)
      rw [List.length_append]
      omega

theorem reqWriteEscape_replies {esc : Byte → Text} {guard : Nat} (hg : Guards esc guard)
    (msg : Text) : Replies (reqWriteEscape esc guard msg) := by
  intro c
  have hlen := escapeLoop_length hg (bufferSize - c.req.bufferEnd) msg
  have happ : Replied c
      (c.buffers (escapeLoop esc guard (bufferSize - c.req.bufferEnd) msg).1) := by
    apply append_replied
    rw [← List.length_eq_zero_iff]
    omega
  simp only [reqWriteEscape, exec_bind, exec_getReq, value_getReq, exec_modReq, exec_ite,
    exec_pure]
  split
  · exact happ
  · exact happ.trans (Replies.setStatus .dead _)

theorem escapeLoopAt_beyond {esc : Byte → Text} {guard : Nat} (hg : Guards esc guard) (k : Nat)
    (m : Nat → Byte) (dest inp : Nat) {i : Nat} (hi : bufferSize < i) :
    (escapeLoopAt esc guard k m dest inp).1 i = m i := by
  induction k generalizing m dest inp with
  | zero => rfl
  | succ k ih =>
    unfold escapeLoopAt
    split
    · rfl
    · split
      · rfl
      · rw [ih]
        have hb := hg (m inp)
        by_cases h0 : (esc (m inp)).length = 0
        · rw [List.length_eq_zero_iff.mp h0, store_nil]
        · exact store_above _ _ _ _ (by omega)

theorem reqWriteEscapeAt_replies {esc : Byte → Text} {guard : Nat} (hg : Guards esc guard)
    (off : Nat) : Replies (reqWriteEscapeAt esc guard off) := by
  intro c
  have hloop : Replied c (exec (modReq fun r => { r with
      buffer := (escapeLoopAt esc guard bufferSize c.req.buffer c.req.bufferEnd off).1
      bufferEnd := (escapeLoopAt esc guard bufferSize c.req.buffer c.req.bufferEnd off).2.1 }) c) :=
    ⟨rfl, fun i hi => escapeLoopAt_beyond hg bufferSize c.req.buffer c.req.bufferEnd off hi⟩
  simp only [reqWriteEscapeAt, exec_bind, exec_getReq, value_getReq, exec_ite, exec_pure]
  split
  · exact hloop
  · exact hloop.trans (Replies.setStatus .dead _)

theorem put_replies (p : Piece) : Replies (put p) := by
  cases p with
  | raw msg => exact .bind (reqWrite_replies msg) fun _ => .pure _
  | http msg => exact .bind (reqWriteEscape_replies guards_http msg) fun _ => .pure _
  | html msg => exact .bind (reqWriteEscape_replies guards_html msg) fun _ => .pure _
  | rawAt off => exact .bind (.bind .getReq fun r => reqWrite_replies _) fun _ => .pure _
  | httpAt off => exact .bind (reqWriteEscapeAt_replies guards_http off) fun _ => .pure _
  | htmlAt off => exact .bind (reqWriteEscapeAt_replies guards_html off) fun _ => .pure _

theorem puts_replies (ps : List Piece) : Replies (puts ps) := by
  induction ps with
  | nil => exact .pure _
  | cons p ps ih => exact .bind (put_replies p) fun _ => ih

end Writers

section Responses

variable (e : Config)

theorem reqFlush_replies : Replies (reqFlush e) := (reqFlush_idles e).replies

theorem respond_replies {code : Nat} {m : Nat → Request → Srv Unit}
    (hm : ∀ t r, Replies (m t r)) :
    Replies (do
      modReq fun r => { r with responseStatus := code }
      let t ← now
      let r ← getReq
      m t r) :=
  .bind (.modReq (fun _ => rfl) fun _ => rfl) fun _ => .bind .now fun t => .bind .getReq fun r => hm t r

theorem reply_replies (code : Nat) (reason : String) (fields body : Request → List Piece) :
    Replies (reply e code reason fields body) := by
  refine .bind .squashKa fun _ => respond_replies fun t r => ?_
  refine .bind (.onlyIf (puts_replies _)) fun _ => .bind (.onlyIf (puts_replies _)) fun _ => ?_
  exact .bind (reqFlush_replies e) fun _ => .pure _

theorem mimeHead_replies (k : MimeHandler) : Replies (mimeHead e k) := by
  have hline : Replies (do
      let t ← now
      let r ← getReq
      puts (statusLine e t " 200 OK" r)) :=
    .bind .now fun t => .bind .getReq fun r => puts_replies _
  cases k with
  | cgi => exact hline
  | php => exact hline
  | gzip =>
    refine .bind .now fun t => .bind .getReq fun r => .bind (puts_replies _) fun _ => ?_
    exact .bind (reqFlush_replies e) fun _ => .pure _

theorem mimeInterpHead_replies (m : Mime) : Replies (mimeInterpHead e m) := by
  refine .bind (.modReq (fun _ => rfl) fun _ => rfl) fun _ => .bind .getReq fun r => ?_
  split
  · exact .pure _
  · split
    · exact mimeHead_replies e _
    · refine .bind .now fun t => .bind (puts_replies _) fun _ => ?_
      exact .bind (reqFlush_replies e) fun _ => .pure _

theorem sendRRequestOk_replies : Replies (sendRRequestOk e) := by
  refine .bind .getReq fun r => ?_
  split
  · exact mimeInterpHead_replies e _
  · refine respond_replies fun t r => ?_
    split
    · exact .pure _
    · refine .bind (puts_replies _) fun _ => ?_
      split
      · refine .bind (puts_replies _) fun _ => .onlyIf ?_
        exact .bind reqFlushRaw_idles.replies fun _ => .pure _
      · exact .pure _

theorem sendRPartialContent_replies : Replies (sendRPartialContent e) :=
  respond_replies fun _ _ => puts_replies _

theorem rangesFixup_replies : Replies (rangesFixup e) := by
  refine .bind (.modReq (fun _ => rfl) fun _ => rfl) fun _ => .bind .getReq fun r => ?_
  split
  · exact .bind (reply_replies e _ _ _ _) fun _ => .pure _
  · exact .pure _

theorem serveHeader_replies : Replies (serveHeader e) := by
  refine .bind .getReq fun r => ?_
  split
  · refine .bind (.modReq (fun _ => rfl) fun _ => rfl) fun _ => .bind (rangesFixup_replies e) ?_
    intro b
    split
    · exact .bind (sendRRequestOk_replies e) fun _ => .pure _
    · exact .pure _
  · exact .bind (sendRPartialContent_replies e) fun _ => .pure _

end Responses

end Crotalus
