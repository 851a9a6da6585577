import Crotalus.Server.Response
import Crotalus.Spec.Buffer

namespace Crotalus

open Stateful ByteMem

/-- `msg` in the buffer of the connection. -/
def Conn.buffers (c : Conn) (msg : Text) : Conn := { c with req := c.req.append msg }

theorem Request.append_nil (r : Request) : r.append [] = r := by
  simp only [Request.append, store_nil, List.length_nil, Nat.add_zero]

theorem Request.append_append (r : Request) (msg rest : Text) :
    (r.append msg).append rest = r.append (msg ++ rest) := by
  simp only [Request.append, store_store_append, List.length_append, Nat.add_assoc]

theorem Conn.buffers_buffers (c : Conn) (msg rest : Text) :
    (c.buffers msg).buffers rest = c.buffers (msg ++ rest) := by
  simp only [Conn.buffers, Request.append_append]

theorem exec_reqWrite (msg : Text) (c : Conn) (hs : c.req.status.over = false) :
    exec (reqWrite msg) c =
      if c.req.bufferEnd + msg.length ≤ bufferSize ∨ msg = [] then c.buffers msg
      else exec (setStatus .dead) c := by
  by_cases hm : msg = []
  · subst hm
    simp [reqWrite, Conn.buffers, Request.append_nil]
  · have hlen : msg.length ≠ 0 := fun h => hm (List.length_eq_zero_iff.mp h)
    by_cases hfit : c.req.bufferEnd + msg.length ≤ bufferSize
    · simp [reqWrite, hm, hs, hfit, Nat.not_lt.mpr hfit, Conn.buffers]
    · have hgt : bufferSize < c.req.bufferEnd + msg.length := by omega
      simp [reqWrite, hm, hs, hfit, hgt]

theorem exec_reqWrite_over (msg : Text) (c : Conn) (hs : c.req.status.over = true) :
    exec (reqWrite msg) c = c := by
  simp [reqWrite, hs]

/-! Pieces written as they are. -/

def Piece.isRaw : Piece → Bool
  | .raw _ => true
  | _ => false

def Piece.text : Piece → Text
  | .raw msg => msg
  | _ => []

def texts (ps : List Piece) : Text := ps.flatMap Piece.text

theorem puts_over (ps : List Piece) (hraw : ps.all Piece.isRaw = true) (c : Conn)
    (hs : c.req.status.over = true) : exec (puts ps) c = c := by
  induction ps with
  | nil => rfl
  | cons p ps ih =>
    obtain ⟨hp, hps⟩ := by simpa using hraw
    cases p with
    | raw msg =>
      simp only [puts, put, exec_bind, exec_reqWrite_over msg c hs]
      exact ih (by simpa using hps)
    | _ => cases hp

theorem puts_append (ps qs : List Piece) (c : Conn) :
    exec (puts (ps ++ qs)) c=exec (puts qs) (exec (puts ps) c) := by
  induction ps generalizing c with
  | nil => rfl
  | cons p ps ih =>
    rw [List.cons_append,puts,puts,exec_bind,exec_bind]
    exact ih _

/-- Raw pieces are all in the buffer, in order, or the request is dead and the buffer has
the first of them. -/
theorem puts_raw (ps : List Piece) (hraw : ps.all Piece.isRaw = true) (c : Conn)
    (hs : c.req.status.over = false) :
    exec (puts ps) c = c.buffers (texts ps) ∨
      ∃ msg, msg <+: texts ps ∧ exec (puts ps) c = exec (setStatus .dead) (c.buffers msg) := by
  induction ps generalizing c with
  | nil => exact .inl (by simp [puts, texts, Conn.buffers, Request.append_nil])
  | cons p ps ih =>
    obtain ⟨hp, hps⟩ := by simpa using hraw
    have hps' : ps.all Piece.isRaw = true := by simpa using hps
    cases p with
    | raw msg =>
      have hput : exec (puts (.raw msg :: ps)) c = exec (puts ps) (exec (reqWrite msg) c) := rfl
      have htext : texts (.raw msg :: ps) = msg ++ texts ps := rfl
      rw [hput, htext, exec_reqWrite msg c hs]
      split
      · rcases ih hps' (c.buffers msg) hs with h | ⟨rest, hrest, h⟩
        · left
          rw [h, Conn.buffers_buffers]
        · right
          exact ⟨msg ++ rest, (List.prefix_append_right_inj msg).mpr hrest,
            by rw [h, Conn.buffers_buffers]⟩
      · right
        rw [puts_over ps hps' _ rfl]
        refine ⟨[], List.nil_prefix, ?_⟩
        rw [Conn.buffers, Request.append_nil]
    | _ => cases hp

/-! The end of a range. -/

def Request.multipart (r : Request) : Prop :=
  r.responseStatus = rPartialContent ∧ r.numranges > 1

instance (r : Request) : Decidable r.multipart := by unfold Request.multipart; infer_instance

/-- The connection whose current range has been dropped. -/
def Conn.popRange (c : Conn) : Conn := exec (do
  mark .completeResponse
  modReq fun r => { r with ranges := r.ranges.tail }) c

/-- The end of a multipart response. -/
def endParts (e : Config) : Srv Unit := do
  puts printPartialContentDone
  setStatus .done
  let _ ← reqFlush e

section Complete

variable (e : Config) {c : Conn}

theorem completeResponse_single (hm : ¬c.req.multipart) :
    value (completeResponse e) c = 0 ∧
      exec (completeResponse e) c = exec (setStatus .done) c.popRange := by
  unfold Request.multipart at hm
  constructor
  · simp [completeResponse, hm]
  · simp [completeResponse, hm, Conn.popRange]

theorem completeResponse_last (hm : c.req.multipart) (hr : c.req.ranges.tail = []) :
    value (completeResponse e) c = 1 ∧
      exec (completeResponse e) c = exec (endParts e) c.popRange := by
  unfold Request.multipart at hm
  constructor
  · simp [completeResponse, hm, hr]
  · simp [completeResponse, hm, hr, Conn.popRange, endParts]

theorem completeResponse_next (hm : c.req.multipart) (hr : c.req.ranges.tail ≠ []) :
    value (completeResponse e) c = 1 ∧
      exec (completeResponse e) c =
        exec (puts (printPartialContentContinue e c.popRange.req ++ [nl])) c.popRange := by
  unfold Request.multipart at hm
  constructor
  · simp [completeResponse, hm, hr]
  · simp [completeResponse, hm, hr, Conn.popRange]

end Complete

end Crotalus
