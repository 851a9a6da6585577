import Mathlib.Data.List.TakeDrop
import Crotalus.Spec.Chunked

namespace Crotalus

open Stateful

/-! `mime_filter_write_chunk` under every schedule of write results. The data loop is
followed by the offsets of the bytes it has the socket accept, so that a repeated or a
dropped byte shows even where it equals its neighbour. -/

/-- The offsets of the bytes of a block of `len` bytes that are accepted, in the order in
which they are, from the offset `of` on. -/
def sentOffsets (len : Nat) : Nat → List IoRes → List Nat
  | _, [] => []
  | of, .done n :: rest =>
    if of < len then
      List.range' of (min n (len - of)) ++ sentOffsets len (of + min n (len - of)) rest
    else []
  | of, .fail _ :: rest =>
    if of < len then if of = 0 then [] else sentOffsets len (of - 1) rest else []

/-- The results left when the loop ends, which it may not do with the results given. -/
def loopRest (len : Nat) : Nat → List IoRes → Option (List IoRes)
  | of, [] => if of < len then none else some []
  | of, .done n :: rest =>
    if of < len then loopRest len (of + min n (len - of)) rest else some (.done n :: rest)
  | of, .fail e :: rest =>
    if of < len then if of = 0 then some rest else loopRest len (of - 1) rest
    else some (.fail e :: rest)

/-- The same when no write of the loop fails. -/
def wholeRest (len : Nat) : Nat → List IoRes → Option (List IoRes)
  | of, [] => if of < len then none else some []
  | of, .done n :: rest =>
    if of < len then wholeRest len (of + min n (len - of)) rest else some (.done n :: rest)
  | of, .fail e :: rest => if of < len then none else some (.fail e :: rest)

/-- The next result accepts all the bytes offered. -/
def wholeWrite (bs : List Byte) : List IoRes → Bool
  | .done n :: _ => bs.length ≤ n
  | _ => false

section Loop

variable {len of : Nat} {sock rest : List IoRes}

theorem sentOffsets_head {x : Nat} (h : (sentOffsets len of sock).head? = some x) : x ≤ of := by
  induction sock generalizing of with
  | nil => exact nomatch h
  | cons res sock ih =>
    by_cases hof : of < len
    · cases res with
      | done n =>
        rw [sentOffsets, if_pos hof] at h
        cases hk : min n (len - of) with
        | zero =>
          rw [hk] at h
          exact ih h
        | succ k =>
          rw [hk, List.range'_succ] at h
          exact Nat.le_of_eq (Option.some.inj h).symm
      | fail e =>
        rw [sentOffsets, if_pos hof] at h
        split at h
        · exact nomatch h
        · exact Nat.le_trans (ih h) (Nat.sub_le of 1)
    · cases res <;> simp [sentOffsets, hof] at h

theorem loopRest_end (hof : ¬of < len) : loopRest len of sock = some sock := by
  match sock with
  | [] => exact if_neg hof
  | .done _ :: _ => exact if_neg hof
  | .fail _ :: _ => exact if_neg hof

theorem wholeRest_end (hof : ¬of < len) : wholeRest len of sock = some sock := by
  match sock with
  | [] => exact if_neg hof
  | .done _ :: _ => exact if_neg hof
  | .fail _ :: _ => exact if_neg hof

theorem sentOffsets_end (hof : ¬of < len) : sentOffsets len of sock = [] := by
  match sock with
  | [] => rfl
  | .done _ :: _ => exact if_neg hof
  | .fail _ :: _ => exact if_neg hof

theorem range'_split (k : Nat) (hk : k ≤ len - of) :
    List.range' of (len - of) = List.range' of k ++ List.range' (of + k) (len - (of + k)) := by
  rw [List.range'_append_1, show k + (len - (of + k)) = len - of by omega]

/-- Without a failed write the bytes from `of` on go out once and in order. -/
theorem sentOffsets_whole (h : wholeRest len of sock = some rest) :
    loopRest len of sock = some rest ∧ sentOffsets len of sock = List.range' of (len - of) := by
  induction sock generalizing of with
  | nil =>
    rw [wholeRest] at h
    split at h
    · exact nomatch h
    · rename_i hof
      exact ⟨(loopRest_end hof).trans h, by rw [sentOffsets, Nat.sub_eq_zero_of_le (by omega)]; rfl⟩
  | cons res sock ih =>
    by_cases hof : of < len
    · cases res with
      | done n =>
        rw [wholeRest, if_pos hof] at h
        obtain ⟨hrest, hsent⟩ := ih h
        rw [loopRest, if_pos hof, sentOffsets, if_pos hof, hsent]
        exact ⟨hrest, (range'_split _ (Nat.min_le_right n _)).symm⟩
      | fail e =>
        rw [wholeRest, if_pos hof] at h
        exact nomatch h
    · rw [wholeRest_end hof] at h
      rw [loopRest_end hof, sentOffsets_end hof, Nat.sub_eq_zero_of_le (by omega)]
      exact ⟨h, rfl⟩

/-- A failed write shows in the offsets: the byte before is sent again, or nothing is. -/
theorem wholeRest_of_sent (h : loopRest len of sock = some rest)
    (hsent : sentOffsets len of sock = List.range' of (len - of)) :
    wholeRest len of sock = some rest := by
  induction sock generalizing of with
  | nil => exact h
  | cons res sock ih =>
    by_cases hof : of < len
    · cases res with
      | done n =>
        rw [loopRest, if_pos hof] at h
        rw [sentOffsets, if_pos hof, range'_split _ (Nat.min_le_right n _)] at hsent
        rw [wholeRest, if_pos hof]
        exact ih h (List.append_cancel_left hsent)
      | fail e =>
        obtain ⟨k, hk⟩ : ∃ k, len - of = k + 1 := ⟨len - of - 1, by omega⟩
        rw [sentOffsets, if_pos hof, hk, List.range'_succ] at hsent
        by_cases h0 : of = 0
        · rw [if_pos h0] at hsent
          exact nomatch hsent
        · rw [if_neg h0] at hsent
          have hle := sentOffsets_head (by rw [hsent]; rfl : _ = some of)
          omega
    · rw [loopRest_end hof] at h
      rw [wholeRest_end hof]
      exact h

/-- The loop of the model sends the bytes at these offsets. -/
theorem chunkLoop_sent (w : List Byte) (of : Nat) (sock : List IoRes) :
    (chunkLoop w of sock).2 = (sentOffsets w.length of sock).map fun i => w.getD i 0 := by
  induction sock generalizing of with
  | nil => rfl
  | cons res sock ih =>
    by_cases hof : of < w.length
    · cases res with
      | done n =>
        have hlen : ((w.drop of).take n).length = min n (w.length - of) := by
          rw [List.length_take, List.length_drop]
        have htake : (w.drop of).take n =
            (List.range' of (min n (w.length - of))).map fun i => w.getD i 0 := by
          apply List.ext_getElem
          · rw [List.length_map, List.length_range', hlen]
          · intro i hi hi'
            rw [hlen] at hi
            have hw : of + i < w.length := by omega
            simp [hw]
        rw [sentOffsets, if_pos hof, List.map_append, ← ih, ← htake, ← hlen]
        simp only [chunkLoop, if_pos hof]
      | fail e =>
        simp only [chunkLoop, sentOffsets, if_pos hof]
        split
        · rfl
        · exact ih (of - 1)
    · cases res <;> simp [chunkLoop, sentOffsets, hof]

theorem chunkLoop_rest (w : List Byte) (h : loopRest w.length of sock = some rest) :
    (chunkLoop w of sock).1 = rest := by
  induction sock generalizing of with
  | nil =>
    rw [loopRest] at h
    split at h
    · exact nomatch h
    · exact Option.some.inj h
  | cons res sock ih =>
    by_cases hof : of < w.length
    · cases res with
      | done n =>
        rw [loopRest, if_pos hof, ← List.length_drop, ← List.length_take] at h
        simp only [chunkLoop, if_pos hof]
        exact ih h
      | fail e =>
        rw [loopRest, if_pos hof] at h
        simp only [chunkLoop, if_pos hof]
        split <;> rename_i h0
        · rw [if_pos h0] at h
          exact Option.some.inj h
        · rw [if_neg h0] at h
          exact ih h
    · rw [loopRest_end hof] at h
      cases res <;> simpa [chunkLoop, hof] using h

/-- Results that each accept a byte let the loop end. -/
theorem wholeRest_progress (hdone : ∀ res ∈ sock, ∃ n, res = .done (n + 1))
    (hlen : len - of ≤ sock.length) : ∃ rest, wholeRest len of sock = some rest := by
  induction sock generalizing of with
  | nil =>
    have hof : ¬of < len := by
      rw [List.length_nil] at hlen
      omega
    exact ⟨_, wholeRest_end hof⟩
  | cons res sock ih =>
    by_cases hof : of < len
    · obtain ⟨n, rfl⟩ := hdone res List.mem_cons_self
      rw [wholeRest, if_pos hof]
      rw [List.length_cons] at hlen
      exact ih (fun r hr => hdone r (List.mem_cons_of_mem _ hr)) (by omega)
    · exact ⟨_, wholeRest_end hof⟩

/-- A socket that accepts a byte and then refuses, over and over. -/
def stutter : Nat → List IoRes
  | 0 => []
  | k + 1 => .done 1 :: .fail .again :: stutter k

/-- It keeps the loop going: the offset goes back and forth between 0 and 1. -/
theorem loopRest_stutter (h : 2 ≤ len) (k : Nat) : loopRest len 0 (stutter k) = none := by
  have h1 : min 1 (len - 0) = 1 := by omega
  induction k with
  | zero => exact if_pos (by omega)
  | succ k ih =>
    rw [stutter, loopRest, if_pos (by omega), h1, loopRest, if_pos (by omega),
      if_neg (by decide)]
    exact ih

end Loop

section Chunk

variable {w : List Byte} {c : Conn}

def sizeLine (w : List Byte) : List Byte := hex w.length ++ crlf

theorem wholeWrite_iff {bs : List Byte} {sock : List IoRes} :
    wholeWrite bs sock = true ↔ ∃ n rest, sock = .done n :: rest ∧ bs.length ≤ n := by
  match sock with
  | [] => simp [wholeWrite]
  | .fail _ :: _ => simp [wholeWrite]
  | .done n :: rest => simp [wholeWrite]

theorem accepted_eq_iff {bs : List Byte} (hne : bs ≠ []) {sock : List IoRes} :
    accepted bs sock = bs ↔ wholeWrite bs sock = true := by
  match sock with
  | [] => simpa [accepted, wholeWrite] using hne.symm
  | .fail _ :: _ => simpa [accepted, wholeWrite] using hne.symm
  | .done n :: rest => simp [accepted, wholeWrite]

theorem length_accepted_le (bs : List Byte) (sock : List IoRes) :
    (accepted bs sock).length ≤ bs.length := by
  match sock with
  | [] => exact Nat.zero_le _
  | .fail _ :: _ => exact Nat.zero_le _
  | .done n :: rest => exact List.length_take_le' n bs

/-- The closing CRLF, where an error is not noticed. -/
def chunkEnd : Srv Int := do
  match ← sockWrite crlf with
  | .ok n => if n < crlf.length then return -1 else return 0
  | .error _ => return 0

theorem chunkEnd_value (d : Conn) :
    value chunkEnd d = if shortWrite crlf d.sys.sock then -1 else 0 := by
  match hs : d.sys.sock with
  | [] =>
    simp only [chunkEnd, value_bind, (sockWrite_nil crlf hs).1]
    rfl
  | .fail _ :: _ =>
    simp only [chunkEnd, value_bind, (sockWrite_fail crlf hs).1]
    rfl
  | .done n :: rest =>
    have hmin : min n crlf.length < crlf.length ↔ n < crlf.length := by omega
    simp only [chunkEnd, value_bind, (sockWrite_done crlf hs).1, value_ite, value_pure, hmin,
      shortWrite, decide_eq_true_eq]

theorem mimeFilterWriteChunk_value (w : List Byte) (c : Conn) :
    value (mimeFilterWriteChunk w) c =
      if shortWrite (sizeLine w) c.sys.sock then -2
      else if shortWrite crlf (chunkLoop w 0 c.sys.sock.tail).1 then -1 else 0 := by
  unfold sizeLine
  obtain ⟨d, hhead⟩ := sockWrite_sends (hex w.length ++ crlf) c
  have hdata : (exec (chunkData w) (exec (sockWrite (hex w.length ++ crlf)) c)).sys.sock =
      (chunkLoop w 0 c.sys.sock.tail).1 := by
    rw [hhead, chunkData_sends, Conn.sock_sends, Conn.sock_sends]
  have hend := chunkEnd_value (exec (chunkData w) (exec (sockWrite (hex w.length ++ crlf)) c))
  rw [hdata] at hend
  by_cases hshort : shortWrite (hex w.length ++ crlf) c.sys.sock
  · obtain ⟨n, rest, hs, hn⟩ := shortWrite_iff.mp hshort
    have hlt : min n (hex w.length ++ crlf).length < (hex w.length ++ crlf).length := by omega
    rw [if_pos hshort]
    simp only [mimeFilterWriteChunk, value_bind, (sockWrite_done _ hs).1, if_pos hlt, value_pure]
  · rw [if_neg hshort, ← hend]
    cases hv : value (sockWrite (hex w.length ++ crlf)) c with
    | error err =>
      simp only [mimeFilterWriteChunk, value_bind, hv]
      rfl
    | ok n =>
      have hn : ¬n < (hex w.length ++ crlf).length := fun hn => hshort (shortWrite_value hv hn)
      simp only [mimeFilterWriteChunk, value_bind, hv, if_neg hn]
      rfl

/-- The call ends within the results given, unless the size line already fails. -/
def ChunkEnds (w : List Byte) (sock : List IoRes) : Prop :=
  shortWrite (sizeLine w) sock = true ∨ (loopRest w.length 0 sock.tail).isSome

/-- Success stands for the chunk, the data bytes once and in order; everything else is
reported by a negative value. -/
def ChunkHonest (w : List Byte) (c : Conn) : Prop :=
  ChunkEnds w c.sys.sock ∧
    (value (mimeFilterWriteChunk w) c < 0 ∨
      value (mimeFilterWriteChunk w) c = 0 ∧
        (exec (mimeFilterWriteChunk w) c).wire = c.wire ++ chunk w ∧
        sentOffsets w.length 0 c.sys.sock.tail = List.range w.length)

theorem map_range_getD (w : List Byte) : (List.range w.length).map (fun i => w.getD i 0) = w := by
  apply List.ext_getElem
  · rw [List.length_map, List.length_range]
  · intro i hi hi'
    simp [hi']

theorem range'_zero (n : Nat) : List.range' 0 (n - 0) = List.range n := by
  rw [Nat.sub_zero, List.range_eq_range']

/-- A chunk of which the data is sent and the result is whole was accepted whole. -/
theorem chunk_parts {a b w : List Byte} (ha : a.length ≤ (sizeLine w).length)
    (hb : b.length ≤ crlf.length) (h : a ++ w ++ b = chunk w) : a = sizeLine w ∧ b = crlf := by
  have hlen := congrArg List.length h
  simp only [chunk, List.length_append] at hlen
  simp only [sizeLine, List.length_append] at ha
  have h' : a ++ (w ++ b) = sizeLine w ++ (w ++ crlf) := by
    simpa [chunk, sizeLine, List.append_assoc] using h
  have hparts := List.append_inj h' (by simp only [sizeLine, List.length_append]; omega)
  exact ⟨hparts.1, List.append_cancel_left hparts.2⟩

theorem not_short_of_whole {bs : List Byte} {sock : List IoRes}
    (h : wholeWrite bs sock = true) : ¬shortWrite bs sock = true := by
  obtain ⟨n, rest, rfl, hn⟩ := wholeWrite_iff.mp h
  simpa [shortWrite] using hn

/-- No write of the chunk fails, and its size line and its end are accepted whole. -/
theorem chunkSent_of_whole {w : List Byte} {sock rest : List IoRes}
    (hhead : wholeWrite (sizeLine w) sock = true)
    (hrest : wholeRest w.length 0 sock.tail = some rest) (hlast : wholeWrite crlf rest = true) :
    chunkSent w sock = (rest.tail, chunk w) := by
  have hline : ¬shortWrite (hex w.length ++ crlf) sock = true := not_short_of_whole hhead
  have hacc : accepted (hex w.length ++ crlf) sock = hex w.length ++ crlf :=
    (accepted_eq_iff (by simp [crlf])).mpr hhead
  obtain ⟨hloop, hoff⟩ := sentOffsets_whole hrest
  rw [range'_zero] at hoff
  have hout : (chunkLoop w 0 sock.tail).2 = w := by
    rw [chunkLoop_sent, hoff, map_range_getD]
  simp only [chunkSent, if_neg hline, hacc, hout, chunkLoop_rest w hloop,
    (accepted_eq_iff (by decide)).mpr hlast]
  rfl

/-- The chunk writer keeps its promise exactly when no write fails and the bytes go out
whole, or when the first or the last write is accepted in part: only these two failures are
noticed. -/
theorem mimeFilterWriteChunk_honest_iff (w : List Byte) (c : Conn) :
    ChunkHonest w c ↔
      shortWrite (sizeLine w) c.sys.sock = true ∨
      (∃ rest, loopRest w.length 0 c.sys.sock.tail = some rest ∧ shortWrite crlf rest = true) ∨
      (wholeWrite (sizeLine w) c.sys.sock = true ∧
        ∃ rest, wholeRest w.length 0 c.sys.sock.tail = some rest ∧
          wholeWrite crlf rest = true) := by
  obtain ⟨d, hexec⟩ := mimeFilterWriteChunk_sends w c
  have hvalue := mimeFilterWriteChunk_value w c
  unfold ChunkHonest ChunkEnds
  rw [hvalue, hexec, Conn.wire_sends]
  by_cases hshort : shortWrite (sizeLine w) c.sys.sock = true
  · simp [hshort]
  · have hsent : (chunkSent w c.sys.sock).2 = accepted (sizeLine w) c.sys.sock ++
        (chunkLoop w 0 c.sys.sock.tail).2 ++
          accepted crlf (chunkLoop w 0 c.sys.sock.tail).1 := by
      have hline : ¬shortWrite (hex w.length ++ crlf) c.sys.sock = true := hshort
      simp only [chunkSent, if_neg hline]
      rfl
    rw [if_neg hshort]
    constructor
    · rintro ⟨hend, hout⟩
      rw [hsent, chunkLoop_sent] at hout
      obtain ⟨rest, hrest⟩ := Option.isSome_iff_exists.mp (hend.resolve_left hshort)
      rw [chunkLoop_rest w hrest] at hout
      by_cases hlast : shortWrite crlf rest = true
      · exact .inr (.inl ⟨rest, hrest, hlast⟩)
      · rw [if_neg hlast] at hout
        obtain ⟨-, hwire, hoff⟩ := hout.resolve_left (by decide)
        have hwhole := wholeRest_of_sent hrest (hoff.trans (range'_zero _).symm)
        rw [hoff, map_range_getD] at hwire
        obtain ⟨hhead, hcrlf⟩ := chunk_parts (length_accepted_le _ _) (length_accepted_le _ _)
          (List.append_cancel_left hwire)
        refine .inr (.inr ⟨?_, rest, hwhole, ?_⟩)
        · exact (accepted_eq_iff (by simp [sizeLine, crlf])).mp hhead
        · exact (accepted_eq_iff (by decide)).mp hcrlf
    · rintro (h | ⟨rest, hrest, hlast⟩ | ⟨hhead, rest, hwhole, hlast⟩)
      · exact absurd h hshort
      · refine ⟨.inr (by rw [hrest]; rfl), .inl ?_⟩
        rw [chunkLoop_rest w hrest, if_pos hlast]
        decide
      · obtain ⟨hrest, hoff⟩ := sentOffsets_whole hwhole
        rw [range'_zero] at hoff
        refine ⟨.inr (by rw [hrest]; rfl), .inr ?_⟩
        rw [chunkLoop_rest w hrest, if_neg (not_short_of_whole hlast),
          chunkSent_of_whole hhead hwhole hlast, hoff]
        exact ⟨rfl, rfl, rfl⟩

/-- The last byte of the block is never sent and the first is sent twice, and the call
succeeds. -/
theorem mimeFilterWriteChunk_repeats :
    ¬ChunkHonest [1, 2, 3]
      { sys := { sock := [.done 3, .done 1, .fail .again, .done 2, .done 1, .done 2] } } := by
  rintro ⟨-, h⟩
  revert h
  decide +kernel

/-- The socket sends these chunks: no write fails, and only data is accepted in parts. -/
inductive SendsAll : List (List Byte) → List IoRes → Prop
  | nil (sock : List IoRes) : SendsAll [] sock
  | cons {w : List Byte} {ws : List (List Byte)} {sock rest : List IoRes}
      (head : wholeWrite (sizeLine w) sock = true)
      (data : wholeRest w.length 0 sock.tail = some rest)
      (last : wholeWrite crlf rest = true) (next : SendsAll ws rest.tail) :
      SendsAll (w :: ws) sock

theorem SendsAll.left {ws more : List (List Byte)} {sock : List IoRes}
    (h : SendsAll (ws ++ more) sock) : SendsAll ws sock := by
  induction ws generalizing sock with
  | nil => exact .nil sock
  | cons w ws ih =>
    obtain _ | ⟨hhead, hrest, hlast, h⟩ := h
    exact .cons hhead hrest hlast (ih h)

theorem chunksSent_of_sendsAll {ws : List (List Byte)} (more : List (List Byte))
    {sock : List IoRes}
    (h : SendsAll (ws ++ more) sock) :
    SendsAll more (chunksSent ws sock).1 ∧ (chunksSent ws sock).2 = Chunked.body hex ws := by
  induction ws generalizing sock with
  | nil => exact ⟨h, rfl⟩
  | cons w ws ih =>
    obtain _ | ⟨hhead, hrest, hlast, h⟩ := h
    have hw := chunkSent_of_whole hhead hrest hlast
    obtain ⟨hmore, hws⟩ := ih h
    simp only [chunksSent, hw, hws]
    exact ⟨hmore, rfl⟩

theorem chunksSent_body {ws : List (List Byte)} {sock : List IoRes} (h : SendsAll ws sock) :
    (chunksSent ws sock).2 = Chunked.body hex ws :=
  (chunksSent_of_sendsAll [] (by rwa [List.append_nil])).2

/-- A socket that takes up to `n` bytes at once sends a chunk with at most three writes. -/
theorem wholeRest_replicate {w : List Byte} {n : Nat} (hn : w.length ≤ n) (k : Nat) :
    ∃ m, k + 1 ≤ m ∧ wholeRest w.length 0 (List.replicate (k + 2) (.done n)) =
      some (List.replicate m (.done n)) := by
  rw [List.replicate_succ]
  by_cases hw : 0 < w.length
  · refine ⟨k + 1, Nat.le_refl _, ?_⟩
    rw [wholeRest, if_pos hw]
    exact wholeRest_end (by omega)
  · exact ⟨k + 2, Nat.le_succ _, wholeRest_end hw⟩

theorem sendsAll_replicate {n : Nat} (hn : 10 ≤ n) {ws : List (List Byte)}
    (hws : ∀ w ∈ ws, w.length ≤ n) {k : Nat} (hk : 3 * ws.length ≤ k) :
    SendsAll ws (List.replicate k (.done n)) ∧
      ∃ m, (chunksSent ws (List.replicate k (.done n))).1 = List.replicate m (.done n) ∧
        k ≤ m + 3 * ws.length := by
  induction ws generalizing k with
  | nil => exact ⟨.nil _, k, rfl, Nat.le_refl k⟩
  | cons w ws ih =>
    rw [List.length_cons] at hk
    obtain ⟨k, rfl⟩ : ∃ j, k = j + 3 := ⟨k - 3, by omega⟩
    obtain ⟨m, hm, hdata⟩ := wholeRest_replicate (hws w List.mem_cons_self) k
    obtain ⟨m, rfl⟩ : ∃ j, m = j + 1 := ⟨m - 1, by omega⟩
    have hhead : wholeWrite (sizeLine w) (List.replicate (k + 3) (.done n)) = true := by
      have hle := length_hex_le w.length
      rw [List.replicate_succ, wholeWrite, sizeLine, List.length_append]
      exact decide_eq_true (by simp only [crlf, List.length_cons, List.length_nil]; omega)
    have hlast : wholeWrite crlf (List.replicate (m + 1) (.done n)) = true := by
      rw [List.replicate_succ, wholeWrite]
      exact decide_eq_true (by simp only [crlf, List.length_cons, List.length_nil]; omega)
    obtain ⟨hnext, j, hj, hle⟩ := ih (k := m) (fun v hv => hws v (List.mem_cons_of_mem _ hv))
      (by omega)
    refine ⟨.cons hhead hdata hlast hnext, j, ?_, by rw [List.length_cons]; omega⟩
    simp only [chunksSent, chunkSent_of_whole hhead hdata hlast]
    exact hj

end Chunk

end Crotalus
