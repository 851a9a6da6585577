import Crotalus.Spec.Walk

namespace Crotalus

open Stateful

/-! What the output filters and the flushes do, for any relation that their parts respect. -/

/-- The request without the state of its filter. -/
def Request.unstreamed (r : Request) : Request := { r with zlib := none, gzipFl := none, gzipOf := 0 }

/-- The parts of the filters respect `R`. -/
structure Streams (R : Conn → Conn → Prop) : Prop where
  refl (c : Conn) : R c c
  trans {c c' c'' : Conn} (h : R c c') (h' : R c' c'') : R c c''
  write (bs : List Byte) : Rel R (sockWrite bs)
  data (w : List Byte) : Rel R (chunkData w)
  gz : Rel R takeGz
  stream {f : Request → Request} (h : ∀ r, (f r).unstreamed = r.unstreamed) : Rel R (modReq f)

/-- And so do those of a flush. -/
structure Flushes (R : Conn → Conn → Prop) : Prop extends Streams R where
  taken (n : Nat) : Rel R (modReq fun r => r.taken n)
  failed : Rel R flushFailed

section Filters

variable {R : Conn → Conn → Prop} {α β : Type}

theorem Streams.pure (h : Streams R) (a : α) : Rel R (Pure.pure a : Srv α) := h.refl

theorem Streams.bind (h : Streams R) {m : Srv α} {f : α → Srv β} (hm : Rel R m)
    (hf : ∀ a, Rel R (f a)) : Rel R (m >>= f) :=
  fun c => h.trans (hm c) (hf _ _)

theorem mimeFilterWriteChunk_rel (h : Streams R) (w : List Byte) :
    Rel R (mimeFilterWriteChunk w) := by
  refine h.bind (h.write _) fun res => ?_
  split
  · refine .ite (h.pure _) (h.bind (h.data w) fun _ => h.bind (h.write _) fun res => ?_)
    split
    · exact .ite (h.pure _) (h.pure _)
    · exact h.pure _
  · refine h.bind (h.data w) fun _ => h.bind (h.write _) fun res => ?_
    split
    · exact .ite (h.pure _) (h.pure _)
    · exact h.pure _

theorem writeChunks_rel (h : Streams R) (ws : List (List Byte)) : Rel R (writeChunks ws) := by
  induction ws with
  | nil => exact h.pure _
  | cons w ws ih => exact h.bind (mimeFilterWriteChunk_rel h w) fun _ => ih

theorem forwardMem_rel (h : Streams R) (fl : List Byte) (len : Int) :
    Rel R (forwardMem fl len) := by
  refine readReq_rel fun r => .ite (h.pure _) ?_
  exact h.bind (writeChunks_rel h _) fun _ => h.stream fun _ => rfl

theorem mimeFilterWrite_rel (h : Streams R) (e : Config) (f : FilterKind) :
    Rel R (mimeFilterWrite e f) := by
  cases f with
  | deflate =>
    refine readReq_rel fun r => .ite (h.pure _) ?_
    split
    · exact h.pure _
    · split
      · exact h.pure _
      · refine h.bind (h.stream fun _ => rfl) fun _ => ?_
        exact h.bind (writeChunks_rel h _) fun _ => h.pure _
  | gzip =>
    refine readReq_rel fun r => ?_
    split
    · exact h.pure _
    · refine h.bind h.gz fun res => h.bind (h.stream fun _ => rfl) fun _ => .ite (h.pure _) ?_
      refine h.bind ?_ fun _ => h.pure _
      unfold onlyIf
      split
      · exact forwardMem_rel h _ _
      · exact h.pure _

theorem mimeFilterFlush_rel (h : Streams R) (e : Config) (f : FilterKind) :
    Rel R (mimeFilterFlush e f) := by
  cases f with
  | deflate =>
    refine readReq_rel fun r => ?_
    split
    · exact h.pure _
    · refine h.bind (writeChunks_rel h _) fun _ => ?_
      exact h.bind (mimeFilterWriteChunk_rel h _) fun _ => h.stream fun _ => rfl
  | gzip =>
    refine readReq_rel fun r => ?_
    split
    · exact h.pure _
    · refine h.bind h.gz fun res => .ite (h.stream fun _ => rfl) ?_
      refine h.bind (forwardMem_rel h _ _) fun _ => ?_
      exact h.bind (mimeFilterWriteChunk_rel h _) fun _ => h.pure _

/-! Flushes. -/

theorem writePending_rel (h : Streams R) : Rel R writePending :=
  readReq_rel fun _ => .ite (h.pure _) (h.write _)

theorem flushed_rel (h : Flushes R) (n : Nat) : Rel R (flushed n) :=
  h.bind (h.taken n) fun _ => readReq_rel fun _ => h.pure _

theorem reqFlushRaw_rel (h : Flushes R) : Rel R reqFlushRaw := by
  refine readReq_rel fun r => .ite (h.pure _) (.ite (flushed_rel h 0) ?_)
  refine h.bind (writePending_rel h.toStreams) fun res => ?_
  split
  · exact flushed_rel h _
  · exact h.pure _
  · exact h.failed

theorem reqFlush_rel (h : Flushes R) (e : Config) : Rel R (reqFlush e) := by
  refine readReq_rel fun r => .ite (h.pure _) (.ite (flushed_rel h 0) ?_)
  split
  · exact h.bind (mimeFilterWrite_rel h.toStreams e _) fun _ => .ite h.failed (flushed_rel h _)
  · refine h.bind (writePending_rel h.toStreams) fun res => ?_
    split
    · exact flushed_rel h _
    · exact h.pure _
    · exact h.failed

end Filters

end Crotalus
