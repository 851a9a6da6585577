import Crotalus.Spec.Flush

namespace Crotalus

open Stateful

/-! What writing and flushing leave of the world: all but the results of writes and of zlib. -/

def World.still (w : World) : World := { w with sock := [], gz := [] }

def Stills {α : Type} (m : Srv α) : Prop := Keeps (fun c : Conn => c.sys.still) m

section Stills

variable {α β : Type} {e : Config}

theorem Stills.bind {m : Srv α} {f : α → Srv β} (hm : Stills m) (hf : ∀ a,Stills (f a)) :
    Stills (m >>= f) := Keeps.bind hm hf

theorem Stills.pure (a : α) : Stills (Pure.pure a : Srv α) := fun _ => rfl
theorem Stills.getReq : Stills getReq := fun _ => rfl
theorem Stills.modReq (f : Request → Request) : Stills (modReq f) := fun _ => rfl
theorem Stills.setStatus (st : Status) : Stills (setStatus st) := fun _ => rfl

theorem Stills.ite {p : Prop} [Decidable p] {m n : Srv α} (hm : Stills m) (hn : Stills n) :
    Stills (if p then m else n) := Keeps.ite hm hn

theorem sockWrite_stills (bs : List Byte) : Stills (sockWrite bs) := by
  intro c
  cases hs : c.sys.sock with
  | nil => rw [(sockWrite_nil bs hs).2]
  | cons res rest =>
    cases res with
    | done n =>
      rw [(sockWrite_done bs hs).2]
      rfl
    | fail err =>
      rw [(sockWrite_fail bs hs).2]
      unfold Conn.waiting
      split <;> rfl

theorem stills_flushes : Flushes fun c c' : Conn => c'.sys.still = c.sys.still where
  refl _ := rfl
  trans h h' := h'.trans h
  write := sockWrite_stills
  data _ _ := rfl
  gz _ := rfl
  stream _ := Stills.modReq _
  taken _ := Stills.modReq _
  failed := Stills.bind (.modReq _) fun _ => .bind (.setStatus _) fun _ => .pure _

theorem reqFlush_stills : Stills (reqFlush e) := reqFlush_rel stills_flushes e

theorem reqWrite_stills (msg : Text) : Stills (reqWrite msg) := by
  refine .bind .getReq fun r => .ite (.pure _) (.ite ?_ ?_)
  · exact .bind (.setStatus _) fun _ => .pure _
  · exact .bind (.modReq _) fun _ => .pure _

theorem reqWriteEscape_stills (esc : Byte → Text) (guard : Nat) (msg : Text) :
    Stills (reqWriteEscape esc guard msg) := by
  refine .bind .getReq fun r => .bind (.modReq _) fun _ => .ite (.pure _) ?_
  exact .bind (.setStatus _) fun _ => .pure _

theorem reqWriteEscapeAt_stills (esc : Byte → Text) (guard off : Nat) :
    Stills (reqWriteEscapeAt esc guard off) := by
  refine .bind .getReq fun r => .bind (.modReq _) fun _ => .ite (.pure _) ?_
  exact .bind (.setStatus _) fun _ => .pure _

theorem put_stills (p : Piece) : Stills (put p) := by
  cases p with
  | raw msg => exact .bind (reqWrite_stills msg) fun _ => .pure _
  | http msg => exact .bind (reqWriteEscape_stills _ _ msg) fun _ => .pure _
  | html msg => exact .bind (reqWriteEscape_stills _ _ msg) fun _ => .pure _
  | rawAt off => exact .bind (.bind .getReq fun r => reqWrite_stills _) fun _ => .pure _
  | httpAt off => exact .bind (reqWriteEscapeAt_stills _ _ off) fun _ => .pure _
  | htmlAt off => exact .bind (reqWriteEscapeAt_stills _ _ off) fun _ => .pure _

theorem puts_stills (ps : List Piece) : Stills (puts ps) := by
  induction ps with
  | nil => exact .pure _
  | cons p ps ih => exact .bind (put_stills p) fun _ => ih

end Stills

end Crotalus
