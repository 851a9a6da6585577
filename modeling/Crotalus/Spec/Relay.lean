import Crotalus.Spec.CgiHeader

namespace Crotalus

open Stateful ByteMem

/-! The window of the buffer between a script and its client. -/

def Errno.retried (e : Errno) : Bool := e = .again || e = .intr

/-- What has been read stands behind the window. -/
def Request.stored (r : Request) (bs : List Byte) : Request :=
  { r with
    buffer := store r.buffer r.headerEnd (bs ++ [0])
    headerEnd := r.headerEnd + bs.length }

theorem unsent_stored {r : Request} {bs : List Byte} (h : r.headerLine ≤ r.headerEnd) :
    (r.stored bs).unsent = r.unsent ++ bs := by
  change slice (store r.buffer r.headerEnd (bs ++ [0])) r.headerLine
    (r.headerEnd + bs.length - r.headerLine) = _
  rw [← store_store_append, slice_store_below _ _ _ _ _ (by omega), slice_store_append _ _ _ _ h]
  rfl

section Write

/-- `writeFrom` has written some of the window. Either it goes on with what is left, or the window
is empty and at the start of the buffer, for the next read. -/
structure Sent (st : Status) (c c' : Conn) : Prop where
  grows : c.wire <+: c'.wire
  split : c'.wire ++ c'.req.unsent = c.wire ++ c.req.unsent
  cgi : c'.req.cgiStatus = c.req.cgiStatus
  drained : c'.req.bufferEnd = c.req.bufferEnd
  buff : c'.req.buff = c.req.buff
  left : c'.req.headerLine < c'.req.headerEnd ∧ c'.req.headerEnd = c.req.headerEnd ∧
      c'.req.status = c.req.status ∨
    c'.req.headerLine = 0 ∧ c'.req.headerEnd = 0 ∧ c'.req.status = st

variable {st : Status} {c : Conn}

/-- The window after `k` more bytes of it have been written. -/
def Request.sentMore (r : Request) (k : Nat) : Request :=
  { r with headerLine := r.headerLine + k, bytesWritten := r.bytesWritten + k }

/-- The window at the start of the buffer, for the next read. -/
def Request.rewound (st : Status) (r : Request) : Request :=
  { r with status := st, headerLine := 0, headerEnd := 0 }

/-- `k` bytes of the window have been written. -/
def Conn.relayed (c : Conn) (k : Nat) (rest : List IoRes) (f : Request → Request) : Conn :=
  { c with
    req := f c.req
    wire := c.wire ++ c.req.unsent.take k
    sys := { c.sys with sock := rest } }

theorem unsent_sentMore {r : Request} {k : Nat} (h : k ≤ r.headerEnd - r.headerLine) :
    (r.sentMore k).unsent = r.unsent.drop k := by
  have hrest : r.headerEnd - (r.headerLine + k) = r.headerEnd - r.headerLine - k := by omega
  rw [Request.unsent, Request.unsent, slice_drop _ _ _ _ h, ← hrest]
  rfl

/-- A refused write leaves the request and the wire. -/
theorem Sent.idle {c' : Conn} (hlt : c.req.headerLine < c.req.headerEnd) (hr : c'.req = c.req)
    (hw : c'.wire = c.wire) : Sent st c c' := by
  refine ⟨hw ▸ List.prefix_refl _, by rw [hr, hw], by rw [hr], by rw [hr], by rw [hr], .inl ?_⟩
  rw [hr]
  exact ⟨hlt, rfl, rfl⟩

/-- A status other than DEAD leaves no mark. -/
theorem exec_setStatus_alive (h : st ≠ .dead) (c : Conn) :
    exec (setStatus st) c = { c with req := { c.req with status := st } } := by
  simp only [setStatus, exec_modify, if_neg h]

/-- A write that goes through moves the window past what the socket has taken. -/
theorem writeFrom_done (hst : st ≠ .dead) (hlt : c.req.headerLine < c.req.headerEnd) {n : Nat}
    {rest : List IoRes} (hs : c.sys.sock = .done n :: rest) :
    exec (writeFrom st) c =
        (if n ≥ c.req.headerEnd - c.req.headerLine then
          c.relayed (c.req.headerEnd - c.req.headerLine) rest (·.sentMore
            (c.req.headerEnd - c.req.headerLine) |>.rewound st)
        else c.relayed n rest (·.sentMore n)) ∧
      value (writeFrom st) c = 1 := by
  have hn : ¬c.req.headerEnd - c.req.headerLine = 0 := by omega
  obtain ⟨hv, he⟩ := sockWrite_done c.req.unsent hs
  have htake : c.req.unsent.take n = c.req.unsent.take (min n c.req.unsent.length) := by
    rw [List.take_eq_take_min]
  rw [length_unsent] at hv htake
  rw [htake] at he
  simp only [Request.unsent] at hv he ⊢
  simp only [writeFrom, exec_bind, value_bind, exec_getReq, value_getReq, if_neg hn, hv, he]
  by_cases hall : n ≥ c.req.headerEnd - c.req.headerLine
  · rw [if_pos hall]
    simp only [Nat.min_eq_right hall, if_true]
    refine ⟨?_, rfl⟩
    simp only [exec_bind, exec_setStatus_alive hst, exec_modReq, exec_pure]
    rfl
  · have hlen : min n (c.req.headerEnd - c.req.headerLine) = n := Nat.min_eq_left (by omega)
    rw [if_neg hall]
    simp only [hlen, if_neg (show ¬n = c.req.headerEnd - c.req.headerLine by omega)]
    exact ⟨rfl, rfl⟩

theorem relayed_sent {rest : List IoRes} {k : Nat} (hlt : k < c.req.headerEnd - c.req.headerLine) :
    Sent st c (c.relayed k rest (·.sentMore k)) := by
  refine ⟨List.prefix_append _ _, ?_, rfl, rfl, rfl, .inl ⟨?_, rfl, rfl⟩⟩
  · show (c.wire ++ c.req.unsent.take k) ++ (c.req.sentMore k).unsent = _
    rw [unsent_sentMore (Nat.le_of_lt hlt), List.append_assoc, List.take_append_drop]
  · show c.req.headerLine + k < c.req.headerEnd
    omega

theorem relayed_all {rest : List IoRes} :
    Sent st c (c.relayed (c.req.headerEnd - c.req.headerLine) rest (·.sentMore
      (c.req.headerEnd - c.req.headerLine) |>.rewound st)) := by
  refine ⟨List.prefix_append _ _, ?_, rfl, rfl, rfl, .inr ⟨rfl, rfl, rfl⟩⟩
  show (c.wire ++ c.req.unsent.take (c.req.headerEnd - c.req.headerLine)) ++ [] = _
  rw [← length_unsent, List.take_length, List.append_nil]

theorem writeFrom_sends (hst : st ≠ .dead) (hlt : c.req.headerLine < c.req.headerEnd)
    (hg : ∀ err, .fail err ∈ c.sys.sock → err.retried = true) :
    Sent st c (exec (writeFrom st) c) ∧ value (writeFrom st) c ≠ 0 := by
  have hn : ¬c.req.headerEnd - c.req.headerLine = 0 := by omega
  match hs : c.sys.sock with
  | [] =>
    obtain ⟨hv, he⟩ := sockWrite_nil c.req.unsent hs
    have hrun : exec (writeFrom st) c = exec (sockWrite c.req.unsent) c ∧
        value (writeFrom st) c = -1 := by
      simp only [Request.unsent] at hv ⊢
      simp only [writeFrom, exec_bind, value_bind, exec_getReq, value_getReq,
        if_neg hn, hv, exec_pure, value_pure, and_self]
    rw [hrun.1, hrun.2, he]
    exact ⟨.idle hlt rfl rfl, by decide⟩
  | .fail err :: rest =>
    have hretry := hg err (by rw [hs]; exact List.mem_cons_self)
    obtain ⟨hv, he⟩ := sockWrite_fail c.req.unsent hs
    have hidle : Sent st c (Conn.waiting { c with sys := { c.sys with sock := rest } }
        c.req.fd .write err) := by
      unfold Conn.waiting
      split <;> exact .idle hlt rfl rfl
    have hrun : exec (writeFrom st) c = exec (sockWrite c.req.unsent) c ∧
        value (writeFrom st) c ≠ 0 := by
      simp only [Request.unsent] at hv ⊢
      cases err with
      | again | intr =>
        simp only [writeFrom, exec_bind, value_bind, exec_getReq, value_getReq,
          if_neg hn, hv, exec_pure, value_pure, true_and]
        decide
      | _ => exact absurd hretry (by decide)
    rw [hrun.1, he]
    exact ⟨hidle, hrun.2⟩
  | .done n :: rest =>
    obtain ⟨he, hv⟩ := writeFrom_done hst hlt hs
    rw [he, hv]
    refine ⟨?_, by decide⟩
    split
    · exact relayed_all
    · exact relayed_sent (by omega)

def IoRes.takes : IoRes → Bool
  | .done (_ + 1) => true
  | _ => false

/-- The socket takes at least a byte of the next write. -/
def World.takes (w : World) : Bool := w.sock.head?.any IoRes.takes

theorem takes_done {w : World} (h : w.takes = true) : ∃ n rest, w.sock = .done (n + 1) :: rest := by
  unfold World.takes at h
  cases hs : w.sock with
  | nil => simp [hs] at h
  | cons res rest =>
    rw [hs] at h
    cases res with
    | fail err => simp [IoRes.takes] at h
    | done n =>
      cases n with
      | zero => simp [IoRes.takes] at h
      | succ n => exact ⟨n, rest, rfl⟩

/-- A socket that takes some of the window lets less of it be left. -/
theorem writeFrom_progress (hst : st ≠ .dead) (hlt : c.req.headerLine < c.req.headerEnd)
    (htakes : c.sys.takes = true) :
    (exec (writeFrom st) c).req.unsent.length < c.req.unsent.length := by
  obtain ⟨n, rest, hs⟩ := takes_done htakes
  obtain ⟨he, -⟩ := writeFrom_done hst hlt hs
  rw [he, length_unsent, length_unsent]
  split
  · show 0 - 0 < _
    omega
  · show c.req.headerEnd - (c.req.headerLine + (n + 1)) < _
    omega

/-- With nothing left to write, end of file ends the request. -/
theorem writeFrom_empty (hst : st ≠ .dead) (heq : c.req.headerLine = c.req.headerEnd) :
    exec (writeFrom st) c =
        (if c.req.cgiStatus = .done then c else { c with req := c.req.rewound st }) ∧
      value (writeFrom st) c = if c.req.cgiStatus = .done then 0 else 1 := by
  have hn : c.req.headerEnd - c.req.headerLine = 0 := by omega
  simp only [writeFrom, exec_bind, value_bind, exec_getReq, value_getReq, if_pos hn]
  split
  · exact ⟨rfl, rfl⟩
  · refine ⟨?_, rfl⟩
    simp only [exec_bind, exec_setStatus_alive hst, exec_modReq, exec_pure]
    rfl

end Write

end Crotalus
