import Crotalus.Framework.Run
import Crotalus.Spec.CgiHeader
import Crotalus.Spec.Relay
import Crotalus.Spec.Turn

namespace Crotalus

open Stateful ByteMem

/-! The relay of a script's body: `read_from_pipe` and `write_from_pipe` in turns. -/

/-- A connection in the relay, with what has been read from the pipe so far, whether end of
file was among it, and whether a turn has returned 0. -/
structure Relayed where
  conn : Conn
  got : List Byte
  eof : Bool
  ended : Bool

/-- What the turn reads from the pipe; end of file is the empty read. -/
def Conn.pipeGot (c : Conn) : Option (List Byte) :=
  if c.req.status = .pipeRead ∧ c.req.bytesToRead ≠ 0 then
    (takeRecv c.req.bytesToRead c.sys.pipe).1.toOption
  else none

def Relayed.served (e : Config) (s : Relayed) : Relayed :=
  { conn := exec (serveTurn e) s.conn
    got := s.got ++ s.conn.pipeGot.getD []
    eof := s.eof || s.conn.pipeGot = some []
    ended := value (serveTurn e) s.conn = 0 }

def Relayed.inWorld (s : Relayed) (w : World) : Relayed :=
  { s with conn := { s.conn with sys := w } }

/-- The next turn of a request that has not ended. -/
def relayTurn (e : Config) (s : Relayed) (w : World) : Relayed :=
  if s.ended then s else (s.inWorld w).served e

/-- Calls that fail do so for the moment only. -/
structure Gentle (w : World) : Prop where
  pipe : ∀ err, .fail err ∈ w.pipe → err.retried = true
  sock : ∀ err, .fail err ∈ w.sock → err.retried = true

/-- The header has been handled and all the bytes so far are written. The request is in
PIPE_WRITE when end of file came before the header was complete. -/
structure Handled (c : Conn) (eof : Bool) : Prop where
  parsed : c.req.cgiStatus ≠ .parse
  drained : c.req.bufferStart = 0 ∧ c.req.bufferEnd = 0
  sent : c.req.headerLine = c.req.headerEnd
  room : c.req.headerLine ≤ bufferSize
  relays : c.req.status = .pipeRead ∨ c.req.status = .pipeWrite
  ends : c.req.status = .pipeWrite → c.req.cgiStatus = .done → eof = true

/-- The relay is on its way: what has been read is on the wire or in the window. -/
structure Relaying (wire : List Byte) (s : Relayed) : Prop where
  grows : wire <+: s.conn.wire
  split : s.conn.wire ++ s.conn.req.unsent = wire ++ s.got
  parsed : s.conn.req.cgiStatus ≠ .parse
  drained : s.conn.req.bufferEnd = 0
  order : s.conn.req.headerLine ≤ s.conn.req.headerEnd
  room : s.conn.req.headerEnd ≤ bufferSize + 1
  short : s.conn.req.headerLine = s.conn.req.headerEnd → s.conn.req.headerEnd ≤ bufferSize
  relays : s.conn.req.status = .pipeRead ∨ s.conn.req.status = .pipeWrite
  ends : s.conn.req.status = .pipeWrite → s.conn.req.headerLine = s.conn.req.headerEnd →
    s.conn.req.cgiStatus = .done → s.eof = true
  stops : s.ended = true → s.eof = true ∧ s.conn.req.unsent = []

section Write

variable {c : Conn}

theorem writeFromPipe_sends (hlt : c.req.headerLine < c.req.headerEnd)
    (hg : ∀ err, .fail err ∈ c.sys.sock → err.retried = true) :
    Sent .pipeRead c (exec writeFromPipe c) ∧ value writeFromPipe c ≠ 0 :=
  writeFrom_sends (by decide) hlt hg

theorem writeFromPipe_empty (heq : c.req.headerLine = c.req.headerEnd) :
    exec writeFromPipe c =
        (if c.req.cgiStatus = .done then c else { c with req := c.req.rewound .pipeRead }) ∧
      value writeFromPipe c = if c.req.cgiStatus = .done then 0 else 1 :=
  writeFrom_empty (by decide) heq

end Write

section Read

variable (e : Config) {c : Conn}

/-- End of file after the header. -/
def Request.atEof (r : Request) : Request :=
  { r.stored [] with status := .pipeWrite, cgiStatus := .done }

theorem readFromPipe_full (hp : c.req.cgiStatus ≠ .parse) (h0 : c.req.bytesToRead = 0) :
    exec (readFromPipe e) c = { c with req := { c.req with status := .pipeWrite } } ∧
      value (readFromPipe e) c = 1 := by
  simp only [readFromPipe, readFull, exec_bind, value_bind, exec_getReq, value_getReq, if_pos h0,
    if_neg hp]
  exact ⟨rfl, rfl⟩

/-- The connection after a read from the pipe, the window still to be moved. -/
def Conn.afterRead (c : Conn) : Conn := exec (pipeRead c.req.bytesToRead) c

theorem afterRead_same (c : Conn) :
    c.afterRead.req = c.req ∧ c.afterRead.wire = c.wire ∧ c.afterRead.sys.sock = c.sys.sock := by
  rw [Conn.afterRead, exec_pipeRead]
  exact ⟨rfl, rfl, rfl⟩

theorem readFromPipe_fails (h0 : c.req.bytesToRead ≠ 0) {err : Errno}
    (hres : (takeRecv c.req.bytesToRead c.sys.pipe).1 = .error err) (herr : err.retried = true) :
    exec (readFromPipe e) c = c.afterRead ∧ value (readFromPipe e) c ≠ 0 := by
  have hv : value (pipeRead c.req.bytesToRead) c = .error err := by rw [value_pipeRead, hres]
  simp only [readFromPipe, exec_bind, value_bind, exec_getReq, value_getReq, if_neg h0, hv]
  cases err with
  | again | intr =>
    refine ⟨rfl, ?_⟩
    simp only [value_pure]
    decide
  | _ => exact absurd herr (by decide)

theorem readFromPipe_reads (h0 : c.req.bytesToRead ≠ 0) {bs : List Byte}
    (hres : (takeRecv c.req.bytesToRead c.sys.pipe).1 = .ok bs) :
    exec (readFromPipe e) c = exec (readDone e .pipeWrite .pipeRead bs) c.afterRead ∧
      value (readFromPipe e) c = value (readDone e .pipeWrite .pipeRead bs) c.afterRead := by
  have hv : value (pipeRead c.req.bytesToRead) c = .ok bs := by rw [value_pipeRead, hres]
  simp only [readFromPipe, exec_bind, value_bind, exec_getReq, value_getReq, if_neg h0, hv]
  exact ⟨rfl, rfl⟩

theorem readDone_eof (hp : c.req.cgiStatus ≠ .parse) :
    exec (readDone e .pipeWrite .pipeRead []) c = { c with req := c.req.atEof } ∧
      value (readDone e .pipeWrite .pipeRead []) c = 1 := by
  simp only [readDone, exec_bind, value_bind, exec_getReq, value_getReq, if_true, if_neg hp]
  exact ⟨rfl, rfl⟩

theorem readDone_data (hp : c.req.cgiStatus ≠ .parse) {bs : List Byte} (hbs : bs ≠ []) :
    exec (readDone e .pipeWrite .pipeRead bs) c =
        exec writeFromPipe { c with req := c.req.stored bs } ∧
      value (readDone e .pipeWrite .pipeRead bs) c =
        value writeFromPipe { c with req := c.req.stored bs } := by
  simp only [readDone, exec_bind, value_bind, exec_getReq, value_getReq, if_neg hbs, if_pos hp]
  exact ⟨rfl, rfl⟩

end Read

section Header

variable (e : Config) {c : Conn}

/-- `process_cgi_header` leaves a request that goes on with its header handled and its window
in the buffer; what remains of `Handled` is what the relay starts from. -/
theorem processCgiHeader_handled {eof : Bool} (h : value (processCgiHeader e) c = 1)
    (hdrained : (exec (processCgiHeader e) c).req.bufferStart = 0 ∧
      (exec (processCgiHeader e) c).req.bufferEnd = 0)
    (hsent : (exec (processCgiHeader e) c).req.headerLine =
      (exec (processCgiHeader e) c).req.headerEnd)
    (hrelays : (exec (processCgiHeader e) c).req.status = .pipeRead ∨
      (exec (processCgiHeader e) c).req.status = .pipeWrite)
    (heof : (exec (processCgiHeader e) c).req.status = .pipeWrite → eof = true) :
    Handled (exec (processCgiHeader e) c) eof :=
  ⟨(processCgiHeader_room e h).2, hdrained, hsent, (processCgiHeader_room e h).1, hrelays,
    fun hst _ => heof hst⟩

end Header

section Turns

variable (e : Config) {wire : List Byte} {s : Relayed}

theorem takeRecv_gentle {k : Nat} {pipe : List RecvRes} {err : Errno}
    (hp : ∀ err, .fail err ∈ pipe → err.retried = true) (h : (takeRecv k pipe).1 = .error err) :
    err.retried = true := by
  match pipe with
  | [] =>
    cases h
    rfl
  | .fail _ :: _ =>
    cases h
    exact hp err List.mem_cons_self
  | .data _ :: _ => exact nomatch h

theorem Sent.relaying {c c' : Conn} (h : Sent .pipeRead c c') {got : List Byte}
    (hgrows : wire <+: c.wire) (hsplit : c.wire ++ c.req.unsent = wire ++ got)
    (hparsed : c.req.cgiStatus ≠ .parse)
    (hdrained : c.req.bufferEnd = 0) (hroom : c.req.headerEnd ≤ bufferSize + 1)
    (hrelays : c.req.status = .pipeRead ∨ c.req.status = .pipeWrite) (eof : Bool) :
    Relaying wire ⟨c', got, eof, false⟩ := by
  have hcgi : c'.req.cgiStatus ≠ .parse := by rwa [h.cgi]
  have hsent := hgrows.trans h.grows
  have hall := h.split.trans hsplit
  have hempty : c'.req.bufferEnd = 0 := h.drained.trans hdrained
  rcases h.left with ⟨hlt, hend, hst⟩ | ⟨hline, hend, hst⟩
  · have hstop : c'.req.headerEnd ≤ bufferSize + 1 := by rwa [hend]
    exact ⟨hsent, hall, hcgi, hempty, Nat.le_of_lt hlt, hstop, fun heq => absurd heq (Nat.ne_of_lt hlt),
      by rwa [hst], fun _ heq => absurd heq (Nat.ne_of_lt hlt), nofun⟩
  · refine ⟨hsent, hall, hcgi, hempty, ?_, ?_, fun _ => ?_, .inl hst, ?_, nofun⟩
    · exact Nat.le_of_eq (hline.trans hend.symm)
    · exact Nat.le_trans (Nat.le_of_eq hend) (Nat.zero_le _)
    · exact Nat.le_trans (Nat.le_of_eq hend) (Nat.zero_le _)
    · intro hw
      exact absurd (hst.symm.trans hw) (by decide)

/-- A turn in PIPE_WRITE. -/
theorem writeTurn_relaying (h : Relaying wire s) (hst : s.conn.req.status = .pipeWrite)
    (hg : Gentle s.conn.sys) :
    Relaying wire ⟨exec writeFromPipe s.conn, s.got, s.eof, value writeFromPipe s.conn = 0⟩ := by
  rcases Nat.lt_or_eq_of_le h.order with hlt | heq
  · obtain ⟨hsent, hv⟩ := writeFromPipe_sends hlt hg.sock
    rw [decide_eq_false hv]
    exact hsent.relaying h.grows h.split h.parsed h.drained h.room h.relays s.eof
  · obtain ⟨he, hv⟩ := writeFromPipe_empty heq
    have hnone : s.conn.req.unsent = [] := by
      rw [← List.length_eq_zero_iff, length_unsent]
      omega
    rw [he, hv]
    split
    · rename_i hdone
      exact ⟨h.grows, h.split, h.parsed, h.drained, h.order, h.room, h.short, h.relays, h.ends,
        fun _ => ⟨h.ends hst heq hdone, hnone⟩⟩
    · have hsplit : s.conn.wire ++ [] = wire ++ s.got := by
        rw [← h.split, hnone]
      exact ⟨h.grows, hsplit, h.parsed, h.drained, Nat.le_refl 0, Nat.zero_le _, fun _ => Nat.zero_le _,
        .inl rfl, nofun, nofun⟩

/-! A turn in PIPE_READ: the buffer is full, or the call fails, finds end of file, or gets
some bytes. -/

/-- A full buffer has something in its window. -/
theorem fullTurn_relaying (h : Relaying wire s) (h0 : s.conn.req.bytesToRead = 0) :
    Relaying wire
      ⟨exec (readFromPipe e) s.conn, s.got, s.eof, value (readFromPipe e) s.conn = 0⟩ := by
  have hroom := bytesToRead_eq h.room
  have hlt : s.conn.req.headerLine < s.conn.req.headerEnd := by
    refine Nat.lt_of_le_of_ne h.order fun heq => ?_
    have hle := h.short heq
    omega
  obtain ⟨he, hv⟩ := readFromPipe_full e h.parsed h0
  rw [he, hv]
  exact ⟨h.grows, h.split, h.parsed, h.drained, h.order, h.room, h.short, .inr rfl,
    fun _ heq => absurd heq (Nat.ne_of_lt hlt), nofun⟩

theorem afterRead_relaying (h : Relaying wire s) (hst : s.conn.req.status = .pipeRead) :
    Relaying wire ⟨s.conn.afterRead, s.got, s.eof, false⟩ := by
  obtain ⟨hreq, hwire, -⟩ := afterRead_same s.conn
  refine ⟨hwire ▸ h.grows, by rw [hwire, hreq, h.split], ?_, ?_, ?_, ?_, ?_, ?_, ?_, nofun⟩
  all_goals rw [hreq]
  · exact h.parsed
  · exact h.drained
  · exact h.order
  · exact h.room
  · exact h.short
  · exact .inl hst
  · intro hw
    exact absurd (hst.symm.trans hw) (by decide)

theorem eofTurn_relaying (h : Relaying wire s) :
    Relaying wire ⟨exec (readDone e .pipeWrite .pipeRead []) s.conn, s.got, true,
      value (readDone e .pipeWrite .pipeRead []) s.conn = 0⟩ := by
  obtain ⟨he, hv⟩ := readDone_eof e h.parsed
  have hstored : s.conn.req.atEof.unsent = s.conn.req.unsent ++ [] := unsent_stored h.order
  have hsplit : s.conn.wire ++ s.conn.req.atEof.unsent = wire ++ s.got := by
    rw [hstored, List.append_nil, h.split]
  rw [he, hv]
  exact ⟨h.grows, hsplit, nofun, h.drained, h.order, h.room, h.short, .inr rfl, fun _ _ _ => rfl, nofun⟩

/-- The bytes read are written on at once, as far as the socket takes them. -/
theorem dataTurn_relaying (h : Relaying wire s)
    (hg : ∀ err, .fail err ∈ s.conn.sys.sock → err.retried = true) {bs : List Byte}
    (hbs : bs ≠ []) (hstop : s.conn.req.headerEnd + bs.length ≤ bufferSize + 1) :
    Relaying wire ⟨exec (readDone e .pipeWrite .pipeRead bs) s.conn, s.got ++ bs, s.eof,
      value (readDone e .pipeWrite .pipeRead bs) s.conn = 0⟩ := by
  obtain ⟨he, hv⟩ := readDone_data e h.parsed hbs
  have hlt : s.conn.req.headerLine < s.conn.req.headerEnd + bs.length := by
    have hlong := List.length_pos_of_ne_nil hbs
    have horder := h.order
    omega
  obtain ⟨hsent, hne⟩ :=
    writeFromPipe_sends (c := { s.conn with req := s.conn.req.stored bs }) hlt hg
  have hsplit : s.conn.wire ++ (s.conn.req.stored bs).unsent = wire ++ (s.got ++ bs) := by
    rw [unsent_stored h.order, ← List.append_assoc, h.split, List.append_assoc]
  rw [he, hv, decide_eq_false hne]
  exact hsent.relaying h.grows hsplit h.parsed h.drained hstop h.relays s.eof

theorem readTurn_relaying (h : Relaying wire s) (hst : s.conn.req.status = .pipeRead)
    (hg : Gentle s.conn.sys) :
    Relaying wire ⟨exec (readFromPipe e) s.conn, s.got ++ s.conn.pipeGot.getD [],
      s.eof || s.conn.pipeGot = some [], value (readFromPipe e) s.conn = 0⟩ := by
  by_cases h0 : s.conn.req.bytesToRead = 0
  · have hgot : s.conn.pipeGot = none := if_neg fun hc => hc.2 h0
    rw [hgot, Option.getD_none, List.append_nil]
    simp only [reduceCtorEq, decide_false, Bool.or_false]
    exact fullTurn_relaying e h h0
  · have hgot : s.conn.pipeGot = (takeRecv s.conn.req.bytesToRead s.conn.sys.pipe).1.toOption :=
      if_pos ⟨hst, h0⟩
    obtain ⟨hreq, -, hsock⟩ := afterRead_same s.conn
    have hread := afterRead_relaying h hst
    cases hres : (takeRecv s.conn.req.bytesToRead s.conn.sys.pipe).1 with
    | error err =>
      obtain ⟨he, hv⟩ := readFromPipe_fails e h0 hres (takeRecv_gentle hg.pipe hres)
      rw [he, hgot, hres, Except.toOption, Option.getD_none, List.append_nil, decide_eq_false hv]
      simp only [reduceCtorEq, decide_false, Bool.or_false]
      exact hread
    | ok bs =>
      obtain ⟨he, hv⟩ := readFromPipe_reads e h0 hres
      rw [he, hv, hgot, hres, Except.toOption, Option.getD_some]
      by_cases hbs : bs = []
      · subst hbs
        rw [List.append_nil, decide_eq_true rfl, Bool.or_true]
        exact eofTurn_relaying e hread
      · have hle := takeRecv_le hres
        have hroom := bytesToRead_eq h.room
        rw [decide_eq_false fun hc => hbs (Option.some.inj hc), Bool.or_false]
        exact dataTurn_relaying e hread (by rw [hsock]; exact hg.sock) hbs (by rw [hreq]; omega)

theorem Relaying.inWorld (h : Relaying wire s) (w : World) : Relaying wire (s.inWorld w) :=
  ⟨h.grows, h.split, h.parsed, h.drained, h.order, h.room, h.short, h.relays, h.ends, h.stops⟩

theorem served_relaying (h : Relaying wire s) (hg : Gentle s.conn.sys) :
    Relaying wire (s.served e) := by
  obtain ⟨he, hv⟩ := serveTurn_drained e h.drained
  unfold Relayed.served
  rw [he, hv, processStatus]
  simp only [exec_bind, value_bind, exec_getReq, value_getReq]
  rcases h.relays with hst | hst
  · rw [hst]
    exact readTurn_relaying e h hst hg
  · have hgot : s.conn.pipeGot = none := by
      refine if_neg fun hc => absurd hc.1 ?_
      rw [hst]
      decide
    rw [hst, hgot, Option.getD_none, List.append_nil]
    simp only [reduceCtorEq, decide_false, Bool.or_false]
    exact writeTurn_relaying h hst hg

theorem relayTurn_relaying (h : Relaying wire s) (w : World) (hg : Gentle w) :
    Relaying wire (relayTurn e s w) := by
  unfold relayTurn
  split
  · exact h
  · exact served_relaying e (h.inWorld w) hg

/-- Where the relay begins. -/
def Conn.relayed0 (c : Conn) (eof : Bool) : Relayed := ⟨c, [], eof, false⟩

theorem Handled.relaying {c : Conn} {eof : Bool} (h : Handled c eof) :
    Relaying c.wire (c.relayed0 eof) := by
  have hnone : c.req.unsent = [] := by
    rw [← List.length_eq_zero_iff, length_unsent, h.sent, Nat.sub_self]
  have hend : c.req.headerEnd ≤ bufferSize := h.sent ▸ h.room
  exact ⟨List.prefix_refl _, congrArg (c.wire ++ ·) hnone, h.parsed, h.drained.2, Nat.le_of_eq h.sent,
    Nat.le_succ_of_le hend, fun _ => hend, h.relays, fun hst _ => h.ends hst, nofun⟩

/-- In every state of the relay, what has gone to the client is a beginning of what has come
out of the pipe and the rest is in the window; the request ends only after end of file, and
with nothing left. -/
theorem relay_exact (c : Conn) (eof : Bool) (h : Handled c eof) (ws : List World)
    (hws : ∀ w ∈ ws, Gentle w) :
    ∀ s ∈ Run.states (relayTurn e) (c.relayed0 eof) ws,
      (∃ sent, s.conn.wire = c.wire ++ sent ∧ s.got = sent ++ s.conn.req.unsent) ∧
        (s.ended = true → s.eof = true ∧ s.conn.wire = c.wire ++ s.got) := by
  intro s hs
  have hall : Relaying c.wire s := Run.invariant (I := Relaying c.wire)
    (fun _ w hs hw => relayTurn_relaying e hs w hw) h.relaying (Run.allSteps_mem _ hws) s hs
  obtain ⟨sent, hsent⟩ := hall.grows
  have hgot : s.got = sent ++ s.conn.req.unsent := by
    have hsplit := hall.split
    rw [← hsent, List.append_assoc] at hsplit
    exact (List.append_cancel_left hsplit).symm
  refine ⟨⟨sent, hsent.symm, hgot⟩, fun hended => ?_⟩
  obtain ⟨heof, hnone⟩ := hall.stops hended
  exact ⟨heof, by rw [hgot, hnone, List.append_nil, hsent]⟩

end Turns

/-- A script's body of three bytes: a pipe still empty, a short write, end of file, the
rest. -/
def bodyTurns : List World :=
  [{ pipe := [.fail .again] }, { pipe := [.data [65, 66, 67]], sock := [.done 2] },
    { pipe := [.data []] }, { sock := [.done 5] }, { pipe := [.data []] }, {}]

theorem bodyTurns_gentle : ∀ w ∈ bodyTurns, Gentle w := by
  intro w hw
  simp only [bodyTurns, List.mem_cons, List.not_mem_nil, or_false] at hw
  rcases hw with rfl | rfl | rfl | rfl | rfl | rfl
  all_goals constructor <;> simp [Errno.retried]

/-- The connection behind a merged header of ten bytes. -/
def behindHeader : Conn :=
  { req := { status := .pipeRead, cgiStatus := .done, headerLine := 10, headerEnd := 10 } }

theorem relay_exact_body :
    ((Run.final (relayTurn {}) (behindHeader.relayed0 false) bodyTurns).ended = true ∧
      (Run.final (relayTurn {}) (behindHeader.relayed0 false) bodyTurns).got = [65, 66, 67]) ∧
      (Run.final (relayTurn {}) (behindHeader.relayed0 false) bodyTurns).conn.wire =
        [65, 66, 67] := by
  have hrun : (Run.final (relayTurn {}) (behindHeader.relayed0 false) bodyTurns).ended = true ∧
      (Run.final (relayTurn {}) (behindHeader.relayed0 false) bodyTurns).got = [65, 66, 67] := by
    decide
  refine ⟨hrun, ?_⟩
  have hall := (relay_exact {} behindHeader false
    ⟨by decide, ⟨rfl, rfl⟩, rfl, by decide, .inl rfl, nofun⟩ bodyTurns bodyTurns_gentle _
    (Run.final_mem_states _ bodyTurns)).2 hrun.1
  rw [hall.2, hrun.2]
  rfl

end Crotalus
