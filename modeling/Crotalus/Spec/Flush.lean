import Crotalus.Server.Request
import Crotalus.Spec.FilterWalk
import Crotalus.Spec.Output

namespace Crotalus

open Stateful

/-! What a flush leaves alone: all but the buffer's indices, the state of a filter and the
status of a request that dies. -/

/-- The request without what a flush, or the end of a turn, changes. -/
@[grind =] def Request.core (r : Request) : Request :=
  { r with
    status := .readHeader, keepalive := .inactive, timeLast := 0, ranges := []
    responseStatus := 0, bufferStart := 0, bufferEnd := 0, zlib := none, gzipFl := none
    gzipOf := 0 }

/-- The core, the output filter's name and the status. -/
@[grind =] def Request.idle (r : Request) : Request × Status := (r.core, r.status)

/-- The core of the request, and what of the connection only the reading of a request
changes. -/
def Conn.core (c : Conn) : Request × List Byte × List Byte × List Byte :=
  (c.req.core, c.postFile, c.input, c.body)

structure Idled (c c' : Conn) : Prop where
  core : c'.core = c.core
  place : c'.place = c.place
  trace : c'.trace = c.trace
  status : c'.req.status = c.req.status ∨ c'.req.status = .dead

def Idles {α : Type} (m : Srv α) : Prop := Rel Idled m

section Rules

variable {c c' c'' : Conn}

theorem Idled.same (hr : c'.req.idle = c.req.idle)
    (hc : (c'.postFile, c'.input, c'.body, c'.place, c'.trace) =
      (c.postFile, c.input, c.body, c.place, c.trace)) : Idled c c' := by
  obtain ⟨hcore, hs⟩ := Prod.mk.inj hr
  simp only [Prod.mk.injEq] at hc
  obtain ⟨hp, hi, hb, hplace, ht⟩ := hc
  refine ⟨?_, hplace, ht, .inl hs⟩
  rw [Conn.core, Conn.core, hcore, hp, hi, hb]

theorem Idled.refl (c : Conn) : Idled c c := .same rfl rfl

theorem Idled.trans (h : Idled c c') (h' : Idled c' c'') : Idled c c'' := by
  refine ⟨h'.core.trans h.core, h'.place.trans h.place, h'.trace.trans h.trace, ?_⟩
  rcases h'.status with hs | hs
  · rw [hs]
    exact h.status
  · exact .inr hs

@[grind ←]
theorem Idles.bind {α β : Type} {m : Srv α} {f : α → Srv β} (hm : Idles m)
    (hf : ∀ a, Returns m a → Idles (f a)) : Idles (m >>= f) :=
  Rel.seq (fun h => h.trans) hm hf

@[grind ←]
theorem Idles.map {α β : Type} {m : Srv α} (f : α → β) (hm : Idles m) : Idles (f <$> m) := hm

@[grind ←] theorem Idles.pure {α : Type} (a : α) : Idles (Pure.pure a : Srv α) := Idled.refl
@[grind ←] theorem Idles.get : Idles (MonadState.get : Srv Conn) := Idled.refl
@[grind ←] theorem Idles.getReq : Idles getReq := Idled.refl

@[grind ←]
theorem Idles.modReq {f : Request → Request} (h : ∀ r, (f r).idle = r.idle) :
    Idles (modReq f) :=
  fun c => .same (h c.req) rfl

@[grind ←] theorem Idles.squashKa : Idles squashKa := .modReq fun _ => rfl

@[grind ←] theorem Idles.dead : Idles (setStatus .dead) := fun _ => ⟨rfl, rfl, rfl, .inr rfl⟩

@[grind ←]
theorem Idles.onlyIf {b : Bool} {m : Srv Unit} (h : Idles m) : Idles (onlyIf b m) := by
  cases b
  · exact Idled.refl
  · exact h

end Rules

@[grind ←]
theorem sockWrite_idles (bs : List Byte) : Idles (sockWrite bs) := by
  intro c
  have hw := sockWrite_wrote bs c
  generalize value (sockWrite bs) c = v at hw
  generalize exec (sockWrite bs) c = c' at hw ⊢
  cases hw with
  | took n w d => exact .same rfl rfl
  | failed err w d => exact .same rfl rfl

theorem Request.idle_taken (r : Request) (n : Nat) : (r.taken n).idle = r.idle := by
  unfold Request.taken
  split <;> rfl

theorem Request.idle_unstreamed {r r' : Request} (h : r'.unstreamed = r.unstreamed) :
    r'.idle = r.idle := by
  have hi : r'.unstreamed.idle = r.unstreamed.idle := congrArg Request.idle h
  exact hi

theorem flushFailed_idles : Idles flushFailed :=
  .bind (.modReq fun _ => rfl) fun _ _ => .bind .dead fun _ _ => .pure _

theorem idled_flushes : Flushes Idled where
  refl := .refl
  trans := .trans
  write := sockWrite_idles
  data _ _ := .same rfl rfl
  gz _ := .same rfl rfl
  stream h := Idles.modReq fun r => Request.idle_unstreamed (h r)
  taken n := Idles.modReq fun r => r.idle_taken n
  failed := flushFailed_idles

theorem mimeFilterFlush_idles (e : Config) (f : FilterKind) : Idles (mimeFilterFlush e f) :=
  mimeFilterFlush_rel idled_flushes.toStreams e f

theorem writePending_idles : Idles writePending := writePending_rel idled_flushes.toStreams

@[grind ←] theorem reqFlush_idles (e : Config) : Idles (reqFlush e) := reqFlush_rel idled_flushes e
theorem reqFlushRaw_idles : Idles reqFlushRaw := reqFlushRaw_rel idled_flushes

/-- The status, and the bytes accepted when the request died. -/
def Conn.fate (c : Conn) : Status × Option (List Byte) := (c.req.status, c.died)

/-- A flush leaves the fate of a request alone, or the request dies of it. -/
inductive Fated (c c' : Conn) : Int → Prop where
  | past (hs : c.req.status.over = true) (he : c' = c) : Fated c c' (-2)
  | lives (i : Int) (hi : i ≠ -2) (h : c'.fate = c.fate) : Fated c c' i
  | dies (c1 : Conn) (h : c1.fate = c.fate) (he : c' = exec flushFailed c1) : Fated c c' (-2)

theorem Request.status_unstreamed {r r' : Request} (h : r'.unstreamed = r.unstreamed) :
    r'.status = r.status := by
  have hs : r'.unstreamed.status = r.unstreamed.status := congrArg Request.status h
  exact hs

theorem Request.status_taken (r : Request) (n : Nat) : (r.taken n).status = r.status := by
  unfold Request.taken
  split <;> rfl

theorem fate_streams : Streams fun c c' : Conn => c'.fate = c.fate where
  refl _ := rfl
  trans h h' := h'.trans h
  write bs c := by
    have hw := sockWrite_wrote bs c
    generalize value (sockWrite bs) c = v at hw
    generalize exec (sockWrite bs) c = c' at hw ⊢
    cases hw with
    | took n w d => rfl
    | failed err w d => rfl
  data _ _ := rfl
  gz _ := rfl
  stream h c := congrArg (fun st => (st, c.died)) (Request.status_unstreamed (h c.req))

theorem flushed_fated {c c1 : Conn} (n : Nat) (h : c1.fate = c.fate) :
    Fated c (exec (flushed n) c1) (value (flushed n) c1) := by
  have hi : value (flushed n) c1 ≠ -2 := by
    have hpos : value (flushed n) c1 ≥ 0 := Int.natCast_nonneg _
    omega
  have htaken : (exec (flushed n) c1).fate = c1.fate :=
    congrArg (fun st => (st, c1.died)) (c1.req.status_taken n)
  exact .lives _ hi (htaken.trans h)

/-- What follows a write that returned `res` in a state with the same fate. -/
theorem written_fated {c c1 : Conn} (h : c1.fate = c.fate) (res : Except Errno Nat) :
    Fated c
      (exec (match res with
        | .ok n => flushed n
        | .error .again => return -1
        | .error _ => flushFailed) c1)
      (value (match res with
        | .ok n => flushed n
        | .error .again => return -1
        | .error _ => flushFailed) c1) := by
  split
  · exact flushed_fated _ h
  · exact .lives (-1) (by decide) h
  · exact .dies c1 h rfl

theorem reqFlush_fated (e : Config) (c : Conn) :
    Fated c (exec (reqFlush e) c) (value (reqFlush e) c) := by
  simp only [reqFlush, exec_bind, value_bind, value_getReq, exec_getReq]
  by_cases hs : c.req.status.over = true
  · rw [if_pos hs]
    exact .past hs rfl
  by_cases hne : c.req.bufferEnd = c.req.bufferStart
  · rw [if_neg hs, if_pos hne]
    exact flushed_fated 0 rfl
  rw [if_neg hs, if_neg hne]
  cases c.req.filter with
  | some f =>
    have hw := mimeFilterWrite_rel fate_streams e f c
    simp only [exec_bind, value_bind]
    split
    · exact .dies _ hw rfl
    · exact flushed_fated _ hw
  | none =>
    have hw := writePending_rel fate_streams c
    simp only [exec_bind, value_bind]
    exact written_fated hw _

theorem reqFlushRaw_fated (c : Conn) :
    Fated c (exec reqFlushRaw c) (value reqFlushRaw c) := by
  simp only [reqFlushRaw, exec_bind, value_bind, value_getReq, exec_getReq]
  by_cases hs : c.req.status.over = true
  · rw [if_pos hs]
    exact .past hs rfl
  by_cases hne : c.req.bufferEnd = c.req.bufferStart
  · rw [if_neg hs, if_pos hne]
    exact flushed_fated 0 rfl
  · rw [if_neg hs, if_neg hne]
    have hw := writePending_rel fate_streams c
    simp only [exec_bind, value_bind]
    exact written_fated hw _

theorem reqFlush_values (e : Config) (c : Conn) :
    value (reqFlush e) c ≥ 0 ∨ value (reqFlush e) c = -1 ∨ value (reqFlush e) c = -2 := by
  have hflushed : ∀ (n : Nat) (c' : Conn), value (flushed n) c' ≥ 0 := fun n c' =>
    Int.natCast_nonneg _
  simp only [reqFlush, value_bind, value_getReq, exec_getReq]
  split
  · exact .inr (.inr rfl)
  · split
    · exact .inl (hflushed 0 c)
    · split
      · simp only [value_bind]
        split
        · exact .inr (.inr rfl)
        · exact .inl (hflushed _ _)
      · simp only [value_bind]
        split
        · exact .inl (hflushed _ _)
        · exact .inr (.inl rfl)
        · exact .inr (.inr rfl)

/-- A flush that says it would block has found the client's socket full, and nothing else
has happened. -/
theorem reqFlush_refused (e : Config) {c : Conn} (h : value (reqFlush e) c = -1) :
    wouldBlock c.sys.sock = true ∧ c.req.bufferEnd ≠ 0 ∧
      exec (reqFlush e) c = { c with
        waits := some (c.req.fd, .write)
        sys := { c.sys with sock := c.sys.sock.tail } } := by
  have hs : c.req.status.over = false := by
    cases ho : c.req.status.over with
    | false => rfl
    | true =>
      rw [(reqFlush_over e ho).1] at h
      cases h
  by_cases hne : c.req.bufferEnd = c.req.bufferStart
  · rw [(reqFlush_empty e hs hne).1] at h
    cases h
  cases hf : c.req.filter with
  | some f =>
    simp only [reqFlush, value_bind, value_getReq, exec_getReq, hs, Bool.false_eq_true, if_false,
      if_neg hne, hf] at h
    split at h
    · cases h
    · simp only [flushed, value_bind, value_pure] at h
      omega
  | none =>
    rcases Nat.lt_or_ge c.req.bufferEnd c.req.bufferStart with hlt | hle
    · rw [(reqFlush_crossed e hs hf hlt).1] at h
      cases h
    have hlt : c.req.bufferStart < c.req.bufferEnd := by omega
    have hblock : wouldBlock c.sys.sock = true := by
      rcases hk : c.sys.sock with _ | ⟨n | err, rest⟩
      case nil => rfl
      case cons.fail =>
        by_cases herr : err = .again
        · simp [wouldBlock, herr]
        · rw [(reqFlush_failed e hs hf hlt hk herr).1] at h
          cases h
      case cons.done =>
        rw [(reqFlush_done e hs hf hlt hk).1] at h
        omega
    exact ⟨hblock, by omega, (reqFlush_blocked e hs hf hlt hblock).2⟩

theorem reqFlush_waits (e : Config) {c : Conn} (h : value (reqFlush e) c = -1) :
    (exec (reqFlush e) c).waits = some (c.req.fd, .write) ∧ wouldBlock c.sys.sock = true ∧
      c.req.bufferEnd ≠ 0 := by
  obtain ⟨hblock, hb, hrun⟩ := reqFlush_refused e h
  rw [hrun]
  exact ⟨rfl, hblock, hb⟩

end Crotalus
