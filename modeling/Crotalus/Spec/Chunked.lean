import Crotalus.Framework.Chunked
import Crotalus.Spec.Zlib

namespace Crotalus

open Stateful

/-! The blocks of the filters in chunked coding, and a socket that takes all of them. -/

/-- What `req_flush` has in the buffer when it calls the filter. -/
structure Window where
  buffer : Nat → Byte
  start : Nat
  stop : Nat

def Request.filled (r : Request) (w : Window) : Request :=
  { r with buffer := w.buffer, bufferStart := w.start, bufferEnd := w.stop }

def Conn.filled (c : Conn) (w : Window) : Conn := { c with req := c.req.filled w }

theorem hexVal_hexDigit : ∀ d < 16, Chunked.hexVal (hexDigit d) = some d := by decide

theorem hexRev_ne_nil (k n : Nat) : hexRev (k + 1) n ≠ [] := by
  unfold hexRev
  split <;> exact List.cons_ne_nil _ _

/-- The digits, most significant first, continue the number read so far. -/
theorem readDigits_hexRev {k n : Nat} (h : n < 16 ^ (k + 1)) :
    Chunked.readDigits 0 (hexRev (k + 1) n).reverse = some n := by
  induction k generalizing n with
  | zero =>
    have h16 : n / 16 = 0 := by omega
    have hn : n % 16 = n := Nat.mod_eq_of_lt (by omega)
    simp [hexRev, h16, hn, Chunked.readDigits, hexVal_hexDigit n (by omega)]
  | succ k ih =>
    unfold hexRev
    by_cases h16 : n / 16 = 0
    · have hn : n % 16 = n := Nat.mod_eq_of_lt (by omega)
      simp [h16, hn, Chunked.readDigits, hexVal_hexDigit n (by omega)]
    · have hlt : n / 16 < 16 ^ (k + 1) := by
        rw [Nat.pow_succ] at h
        omega
      rw [if_neg h16, List.reverse_cons, Chunked.readDigits_append, ih hlt, Option.bind_some,
        Chunked.readDigits, hexVal_hexDigit _ (Nat.mod_lt n (by decide)), Option.bind_some,
        Chunked.readDigits, Nat.mul_comm, Nat.div_add_mod]

theorem length_hexRev_le (k n : Nat) : (hexRev k n).length ≤ k := by
  induction k generalizing n with
  | zero => exact Nat.le_refl 0
  | succ k ih =>
    rw [hexRev]
    split
    · exact Nat.le_add_left 1 k
    · exact Nat.succ_le_succ (ih _)

theorem length_hex_le (n : Nat) : (hex n).length ≤ 8 := by
  rw [hex, List.length_reverse]
  exact length_hexRev_le 8 _

theorem hex_numeral {n : Nat} (h : n < 2 ^ 32) : Chunked.Numeral (hex n) n := by
  have hn : u32 n = n := Nat.mod_eq_of_lt h
  constructor
  · rw [hex, ne_eq, List.reverse_eq_nil_iff]
    exact hexRev_ne_nil 7 _
  · rw [hex, hn]
    exact readDigits_hexRev h

theorem chunk_eq (w : List Byte) : chunk w = Chunked.encode hex w := rfl

/-- A reader of the stream gets what the blocks hold, and the stream ends with its first
empty block, just when only the last block is empty. -/
theorem decode_chunks {ws : List (List Byte)} (h : ∀ w ∈ ws, w.length < 2 ^ 32) :
    Chunked.decode (Chunked.body hex ws ++ chunk []) = some (ws.flatten, []) ↔
      ∀ w ∈ ws, w ≠ [] :=
  Chunked.decode_body_iff (fun w hw => hex_numeral (h w hw)) (hex_numeral (by decide))

/-- The writes a chunk makes when each is accepted at once. -/
def offers (w : List Byte) : List (List Byte) :=
  (hex w.length ++ crlf) :: (if w = [] then [] else [w]) ++ [crlf]

/-- The socket takes each of these writes whole. -/
def TakesAll : List (List Byte) → List IoRes → Prop
  | [], _ => True
  | b :: bs, .done n :: rest => b.length ≤ n ∧ TakesAll bs rest
  | _ :: _, _ => False

instance decidableTakesAll :
    (bs : List (List Byte)) → (sock : List IoRes) → Decidable (TakesAll bs sock)
  | [], _ => isTrue trivial
  | b :: bs, .done n :: rest =>
    have := decidableTakesAll bs rest
    inferInstanceAs (Decidable (b.length ≤ n ∧ TakesAll bs rest))
  | _ :: _, .fail _ :: _ => isFalse id
  | _ :: _, [] => isFalse id

theorem takesAll_cons {b : List Byte} {bs : List (List Byte)} {sock : List IoRes}
    (h : TakesAll (b :: bs) sock) :
    ∃ n rest, sock = .done n :: rest ∧ b.length ≤ n ∧ TakesAll bs rest := by
  match sock, h with
  | .done n :: rest, ⟨hn, h⟩ => exact ⟨n, rest, rfl, hn, h⟩

/-- A block taken at once leaves the loop. -/
theorem chunkLoop_whole {w : List Byte} {n : Nat} (hn : w.length ≤ n) (hne : w ≠ [])
    (rest : List IoRes) :
    chunkLoop w 0 (.done n :: rest) = (rest, w) := by
  have hpos : 0 < w.length := List.length_pos_iff.mpr hne
  have hend : chunkLoop w w.length rest = (rest, []) := by
    match rest with
    | [] => rfl
    | .done _ :: _ => simp [chunkLoop]
    | .fail _ :: _ => simp [chunkLoop]
  simp [chunkLoop, hpos, List.take_of_length_le hn, hend]

theorem chunkLoop_empty (sock : List IoRes) : chunkLoop [] 0 sock = (sock, []) := by
  match sock with
  | [] => rfl
  | .done _ :: _ => rfl
  | .fail _ :: _ => rfl

theorem chunkSent_whole {w : List Byte} {more : List (List Byte)} {sock : List IoRes}
    (h : TakesAll (offers w ++ more) sock) :
    TakesAll more (chunkSent w sock).1 ∧ (chunkSent w sock).2 = chunk w := by
  obtain ⟨n, rest, rfl, hn, h⟩ := takesAll_cons h
  have hhead : shortWrite (hex w.length ++ crlf) (.done n :: rest) = false := by
    simpa [shortWrite] using hn
  have hloop : ∃ k tail, chunkLoop w 0 rest = (.done k :: tail, w) ∧ crlf.length ≤ k ∧
      TakesAll more tail := by
    by_cases hw : w = []
    · subst hw
      obtain ⟨k, tail, rfl, hk, h⟩ := takesAll_cons h
      exact ⟨k, tail, chunkLoop_empty _, hk, h⟩
    · rw [if_neg hw] at h
      obtain ⟨m, rest, rfl, hm, h⟩ := takesAll_cons h
      obtain ⟨k, tail, rfl, hk, h⟩ := takesAll_cons h
      exact ⟨k, tail, chunkLoop_whole hm hw _, hk, h⟩
  obtain ⟨k, tail, hloop, hk, h⟩ := hloop
  constructor
  · simpa [chunkSent, hhead, hloop] using h
  · simp [chunkSent, hhead, hloop, accepted, List.take_of_length_le hn,
      List.take_of_length_le hk, chunk]

/-- With every write complete the stream is the blocks in chunked coding. -/
theorem chunksSent_whole {ws : List (List Byte)} (more : List (List Byte)) {sock : List IoRes}
    (h : TakesAll (ws.flatMap offers ++ more) sock) :
    TakesAll more (chunksSent ws sock).1 ∧ (chunksSent ws sock).2 = Chunked.body hex ws := by
  induction ws generalizing sock with
  | nil => exact ⟨h, rfl⟩
  | cons w ws ih =>
    rw [List.flatMap_cons, List.append_assoc] at h
    obtain ⟨h, hw⟩ := chunkSent_whole h
    obtain ⟨h, hws⟩ := ih h
    refine ⟨h, ?_⟩
    calc (chunksSent (w :: ws) sock).2
        = (chunkSent w sock).2 ++ (chunksSent ws (chunkSent w sock).1).2 := rfl
      _ = Chunked.body hex (w :: ws) := by rw [hw, hws]; rfl

end Crotalus
