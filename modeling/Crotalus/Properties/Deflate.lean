import Crotalus.Spec.Buffer
import Crotalus.Spec.Chunked

namespace Crotalus

open Stateful

/-! The stream of the deflate filter: what `mime_filter_write_deflate` and the final
`mime_filter_flush_deflate` send, for every pattern of outputs of the compressor. -/

/-- A call of `mime_filter_write_deflate` for each window, and the flush. -/
def deflateStream (e : Config) : List Window → Conn → Conn
  | [], c => exec (mimeFilterFlush e .deflate) c
  | w :: ws, c => deflateStream e ws (exec (mimeFilterWrite e .deflate) (c.filled w))

def Window.bytes (w : Window) : List Byte := ByteMem.slice w.buffer w.start (w.stop - w.start)

/-- The outputs of all `deflate` calls of the stream, the calls that finish it included.
An empty window makes no call. -/
def deflateOutputs (e : Config) : List (List Byte) → List Window → List (List Byte)
  | hist, [] => (e.deflateEnd hist).getD []
  | hist, w :: ws =>
    if w.start = w.stop then deflateOutputs e hist ws
    else (e.deflate (hist ++ [w.bytes])).getD [] ++ deflateOutputs e (hist ++ [w.bytes]) ws

/-- The loop over `deflate` goes on while the output buffer is filled to its last byte. -/
def LoopOutputs (outs : List (List Byte)) : Prop :=
  ∃ full last, outs = full ++ [last] ∧ (∀ w ∈ full, w.length = 2 * bufferSize) ∧
    last.length < 2 * bufferSize

/-- What zlib documents of a stream that has been initialised: no stream error, and never
more output than there is room for. -/
structure ZlibContract (e : Config) : Prop where
  deflate : ∀ hist, ∃ outs, e.deflate hist = some outs ∧ LoopOutputs outs
  deflateEnd : ∀ hist, ∃ outs, e.deflateEnd hist = some outs ∧ LoopOutputs outs

theorem LoopOutputs.length_lt {outs : List (List Byte)} (h : LoopOutputs outs) :
    ∀ w ∈ outs, w.length < 2 ^ 32 := by
  obtain ⟨full, last, rfl, hfull, hlast⟩ := h
  intro w hw
  have hle : w.length ≤ 2 * bufferSize := by
    rcases List.mem_append.mp hw with hw | hw
    · exact Nat.le_of_eq (hfull w hw)
    · rw [List.mem_singleton.mp hw]
      exact Nat.le_of_lt hlast
  exact Nat.lt_of_le_of_lt hle (by decide)

section Stream

variable (e : Config)

theorem deflateOutputs_length (he : ZlibContract e) (hist : List (List Byte))
    (ws : List Window) : ∀ w ∈ deflateOutputs e hist ws, w.length < 2 ^ 32 := by
  induction ws generalizing hist with
  | nil =>
    obtain ⟨outs, hd, ho⟩ := he.deflateEnd hist
    simpa [deflateOutputs, hd] using ho.length_lt
  | cons v ws ih =>
    intro w hw
    rw [deflateOutputs] at hw
    split at hw
    · exact ih hist w hw
    · obtain ⟨outs, hd, ho⟩ := he.deflate (hist ++ [v.bytes])
      rw [hd, Option.getD_some] at hw
      rcases List.mem_append.mp hw with hw | hw
      · exact ho.length_lt w hw
      · exact ih _ w hw

/-- One call sends the outputs of its `deflate` calls, each as a chunk. -/
theorem deflateWrite_sends (he : ZlibContract e) {c : Conn} {hist : List (List Byte)}
    (hc : c.req.zlib = some hist) (hne : c.req.bufferStart ≠ c.req.bufferEnd) :
    ∃ d, exec (mimeFilterWrite e .deflate) c =
      (c.fed hist).sends
        (chunksSent ((e.deflate (hist ++ [c.req.pending])).getD []) c.sys.sock) d := by
  obtain ⟨outs, hd, -⟩ := he.deflate (hist ++ [c.req.pending])
  obtain ⟨d, hw⟩ := writeChunks_sends outs (c.fed hist)
  refine ⟨d, ?_⟩
  have hrun : exec (mimeFilterWrite e .deflate) c = exec (writeChunks outs) (c.fed hist) := by
    simp only [mimeFilterWrite, exec_bind, exec_getReq, value_getReq, if_neg hne, hc, hd]
    rfl
  rw [hrun, hw, hd]
  rfl

/-- What the flush hands to the chunk writer, after all that the writes handed to it. -/
theorem deflateStream_wire (he : ZlibContract e) (ws : List Window) {c : Conn}
    (hist : List (List Byte)) (hc : c.req.zlib = some hist) :
    (deflateStream e ws c).wire =
      c.wire ++ (chunksSent (deflateOutputs e hist ws ++ [[]]) c.sys.sock).2 := by
  induction ws generalizing c hist with
  | nil =>
    obtain ⟨outs, hd, -⟩ := he.deflateEnd hist
    obtain ⟨d, hw⟩ := writeChunks_sends outs c
    obtain ⟨d', hend⟩ := mimeFilterWriteChunk_sends [] (c.sends (chunksSent outs c.sys.sock) d)
    have hz : c.req.zlib.bind e.deflateEnd = some outs := by rw [hc, Option.bind_some, hd]
    simp only [deflateStream, deflateOutputs, mimeFilterFlush, exec_bind, exec_getReq,
      value_getReq, hz, hw, hend, hd, Option.getD_some, Conn.sends_sends, Conn.sock_sends,
      chunksSent_append, chunksSent, List.append_nil, exec_modReq, Conn.wire_sends]
  | cons w ws ih =>
    rw [deflateStream, deflateOutputs]
    by_cases hw : w.start = w.stop
    · have hrun : exec (mimeFilterWrite e .deflate) (c.filled w) = c.filled w := by
        have hb : (c.filled w).req.bufferStart = (c.filled w).req.bufferEnd := hw
        simp only [mimeFilterWrite, exec_bind, exec_getReq, value_getReq, if_pos hb, exec_pure]
      rw [hrun, if_pos hw]
      exact ih (c := c.filled w) hist hc
    · obtain ⟨d, hrun⟩ := deflateWrite_sends e he (c := c.filled w) hc hw
      rw [hrun, if_neg hw, ih (hist ++ [w.bytes]) rfl, List.append_assoc,
        chunksSent_append ((e.deflate (hist ++ [w.bytes])).getD []), Conn.wire_sends,
        Conn.sock_sends]
      exact List.append_assoc ..

/-- For a socket that completes every write, the stream is one chunked body with the
outputs of the compressor as its payload just when every `deflate` call has an output. -/
theorem deflateStream_decodes_iff (he : ZlibContract e) (ws : List Window) (c : Conn)
    (hist : List (List Byte)) (hc : c.req.zlib = some hist)
    (hs : TakesAll ((deflateOutputs e hist ws ++ [[]]).flatMap offers) c.sys.sock) :
    Chunked.decode ((deflateStream e ws c).wire.drop c.wire.length) =
        some ((deflateOutputs e hist ws).flatten, []) ↔
      ∀ w ∈ deflateOutputs e hist ws, w ≠ [] := by
  have hwhole := (chunksSent_whole [] (by rwa [List.append_nil])).2
  rw [deflateStream_wire e he ws hist hc, List.drop_left, hwhole, Chunked.body_append,
    Chunked.body_cons, Chunked.body_nil, List.append_nil, ← chunk_eq]
  exact decode_chunks (deflateOutputs_length e he hist ws)

end Stream

/-- A compressor that answers its first input with the header of the stream and holds back
everything else until it is asked to finish. -/
def holdsBack : Config := {
  deflate := fun hist => some [if hist.length = 1 then [120, 156] else []]
  deflateEnd := fun _ => some [[75, 76, 4, 0, 2, 77, 1, 39]] }

/-- One byte at the start of the buffer. -/
def oneByte : Window := ⟨fun _ => 97, 0, 1⟩

def openSocket (k : Nat) : Conn :=
  { req := { zlib := some [] }, sys := { sock := List.replicate k (.done 8192) } }

theorem holdsBack_contract : ZlibContract holdsBack := by
  constructor
  · intro hist
    refine ⟨_, rfl, [], _, rfl, fun w hw => absurd hw (List.not_mem_nil), ?_⟩
    split <;> decide
  · intro hist
    exact ⟨_, rfl, [], _, rfl, fun w hw => absurd hw (List.not_mem_nil), by decide⟩

/-- One write and the flush. -/
theorem deflateStream_decodes_one :
    Chunked.decode ((deflateStream holdsBack [oneByte] (openSocket 8)).wire) =
      some ([120, 156, 75, 76, 4, 0, 2, 77, 1, 39], []) :=
  (deflateStream_decodes_iff holdsBack holdsBack_contract [oneByte] (openSocket 8)
    [] rfl (by decide)).mpr (by decide)

/-- The second write has no output yet: its empty chunk ends the body. -/
theorem deflateStream_ends_early :
    ZlibContract holdsBack ∧
      Chunked.decode ((deflateStream holdsBack [oneByte, oneByte] (openSocket 10)).wire) =
        some ([120, 156], chunk [75, 76, 4, 0, 2, 77, 1, 39] ++ chunk []) ∧
      Chunked.decode ((deflateStream holdsBack [oneByte, oneByte] (openSocket 10)).wire) ≠
        some ((deflateOutputs holdsBack [] [oneByte, oneByte]).flatten, []) := by
  refine ⟨holdsBack_contract, ?_, ?_⟩ <;> decide +kernel

end Crotalus
