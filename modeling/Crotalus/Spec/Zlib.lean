import Crotalus.Server.Zlib
import Crotalus.Spec.Sys

namespace Crotalus

open Stateful

/-- A block in chunked encoding; the empty block is the end of the body. -/
def chunk (w : List Byte) : List Byte := hex w.length ++ crlf ++ w ++ crlf

/-- The bytes of a chunk that the socket accepts, and the results it has left. The size
line stops the chunk when it is accepted in part. -/
def chunkSent (w : List Byte) (sock : List IoRes) : List IoRes × List Byte :=
  let head := hex w.length ++ crlf
  if shortWrite head sock then (sock.tail, accepted head sock)
  else
    let (rest, out) := chunkLoop w 0 sock.tail
    (rest.tail, accepted head sock ++ out ++ accepted crlf rest)

def chunksSent : List (List Byte) → List IoRes → List IoRes × List Byte
  | [], sock => (sock, [])
  | w :: ws, sock =>
    let (rest, out) := chunkSent w sock
    let (rest, outs) := chunksSent ws rest
    (rest, out ++ outs)

theorem chunksSent_append (ws vs : List (List Byte)) (sock : List IoRes) :
    chunksSent (ws ++ vs) sock =
      ((chunksSent vs (chunksSent ws sock).1).1,
        (chunksSent ws sock).2 ++ (chunksSent vs (chunksSent ws sock).1).2) := by
  induction ws generalizing sock with
  | nil => rfl
  | cons w ws ih =>
    simp only [List.cons_append, chunksSent, ih, List.append_assoc]

/-- A connection after the socket has accepted `p.2` and has the results `p.1` left. -/
def Conn.sends (c : Conn) (p : List IoRes × List Byte) (d : Option (Nat × Dir)) : Conn :=
  { c with wire := c.wire ++ p.2, sys := { c.sys with sock := p.1 }, waits := d }

@[simp] theorem Conn.req_sends (c : Conn) (p : List IoRes × List Byte) (d : Option (Nat × Dir)) :
    (c.sends p d).req = c.req := (rfl)
@[simp] theorem Conn.sock_sends (c : Conn) (p : List IoRes × List Byte) (d : Option (Nat × Dir)) :
    (c.sends p d).sys.sock = p.1 := (rfl)
@[simp] theorem Conn.wire_sends (c : Conn) (p : List IoRes × List Byte) (d : Option (Nat × Dir)) :
    (c.sends p d).wire = c.wire ++ p.2 := (rfl)
@[simp] theorem Conn.place_sends (c : Conn) (p : List IoRes × List Byte) (d : Option (Nat × Dir)) :
    (c.sends p d).place = c.place := (rfl)

theorem Conn.sends_sends (c : Conn) (p q : List IoRes × List Byte) (d d' : Option (Nat × Dir)) :
    (c.sends p d).sends q d' = c.sends (q.1, p.2 ++ q.2) d' := by
  simp [Conn.sends, List.append_assoc]

theorem sockWrite_sends (bs : List Byte) (c : Conn) :
    ∃ d, exec (sockWrite bs) c = c.sends (c.sys.sock.tail, accepted bs c.sys.sock) d := by
  match hs : c.sys.sock with
  | [] =>
    refine ⟨some (c.req.fd, .write), ?_⟩
    have ha : accepted bs c.sys.sock = [] := by rw [hs]; rfl
    rw [(sockWrite_nil bs hs).2, List.tail_nil, ← hs]
    simp only [Conn.sends, ha, List.append_nil]
  | .fail err :: rest =>
    refine ⟨(exec (sockWrite bs) c).waits, ?_⟩
    rw [(sockWrite_fail bs hs).2]
    unfold Conn.waiting
    split <;> simp [Conn.sends, accepted]
  | .done n :: rest =>
    refine ⟨c.waits, ?_⟩
    rw [(sockWrite_done bs hs).2]
    simp [Conn.sends, accepted]

theorem chunkData_sends (w : List Byte) (c : Conn) :
    exec (chunkData w) c = c.sends (chunkLoop w 0 c.sys.sock) c.waits := rfl

/-- The end of a chunk writes its closing CRLF whatever came before. -/
theorem chunkTail_sends (w : List Byte) (c : Conn) :
    ∃ d, exec (sockWrite crlf) (exec (chunkData w) c) =
      c.sends ((chunkLoop w 0 c.sys.sock).1.tail,
        (chunkLoop w 0 c.sys.sock).2 ++ accepted crlf (chunkLoop w 0 c.sys.sock).1) d := by
  obtain ⟨d, hd⟩ := sockWrite_sends crlf (exec (chunkData w) c)
  refine ⟨d, ?_⟩
  rw [hd, chunkData_sends, Conn.sends_sends, Conn.sock_sends]

theorem mimeFilterWriteChunk_sends (w : List Byte) (c : Conn) :
    ∃ d, exec (mimeFilterWriteChunk w) c = c.sends (chunkSent w c.sys.sock) d := by
  obtain ⟨d, hhead⟩ := sockWrite_sends (hex w.length ++ crlf) c
  obtain ⟨d', htail⟩ := chunkTail_sends w (exec (sockWrite (hex w.length ++ crlf)) c)
  by_cases hshort : shortWrite (hex w.length ++ crlf) c.sys.sock
  · obtain ⟨n, rest, hs, hn⟩ := shortWrite_iff.mp hshort
    have hv := (sockWrite_done (hex w.length ++ crlf) hs).1
    have hlt : min n (hex w.length ++ crlf).length < (hex w.length ++ crlf).length := by omega
    refine ⟨d, ?_⟩
    simp only [mimeFilterWriteChunk, exec_bind, hv, if_pos hlt, exec_pure]
    rw [hhead]
    simp [chunkSent, hshort]
  · refine ⟨d', ?_⟩
    have hrun : exec (mimeFilterWriteChunk w) c =
        exec (sockWrite crlf) (exec (chunkData w)
          (exec (sockWrite (hex w.length ++ crlf)) c)) := by
      match hv : value (sockWrite (hex w.length ++ crlf)) c with
      | .error err =>
        simp only [mimeFilterWriteChunk, exec_bind, hv]
        split <;> simp
      | .ok n =>
        have hn : ¬n < (hex w.length ++ crlf).length := fun hn =>
          hshort (shortWrite_value hv hn)
        simp only [mimeFilterWriteChunk, exec_bind, hv, if_neg hn]
        split <;> simp
    rw [hrun, htail, hhead, Conn.sends_sends]
    simp [chunkSent, hshort, List.append_assoc]

theorem writeChunks_sends (ws : List (List Byte)) (c : Conn) :
    ∃ d, exec (writeChunks ws) c = c.sends (chunksSent ws c.sys.sock) d := by
  induction ws generalizing c with
  | nil => exact ⟨c.waits, by simp [writeChunks, chunksSent, Conn.sends]⟩
  | cons w ws ih =>
    obtain ⟨d, hw⟩ := mimeFilterWriteChunk_sends w c
    obtain ⟨d', hws⟩ := ih (c.sends (chunkSent w c.sys.sock) d)
    refine ⟨d', ?_⟩
    simp only [writeChunks, exec_bind, hw, hws, Conn.sends_sends, Conn.sock_sends, chunksSent]

end Crotalus
