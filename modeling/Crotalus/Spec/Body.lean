import Crotalus.Spec.Turn

namespace Crotalus

open Stateful ByteMem

/-! The body of a POST: what its two handlers do to the window and to the file. -/

def Status.isBody (st : Status) : Bool := st = .bodyRead || st = .bodyWrite

/-- Neither the body of a request nor the result of a worker is being read. -/
def Status.plain (st : Status) : Prop :=
  st.isBody = false ∧ st ≠ .buffRead ∧ st ≠ .buffWrite

instance (st : Status) : Decidable st.plain :=
  inferInstanceAs (Decidable (st.isBody = false ∧ st ≠ .buffRead ∧ st ≠ .buffWrite))

theorem Responding.plain : Responding Status.plain (fun _ => True) := by
  constructor <;> intros <;> trivial

theorem reading_plain {st : Status} (h : st.reading = true) : st.plain := by
  revert h
  cases st <;> decide

/-- How much `read_body` asks for. -/
def Request.bodyWant (r : Request) : Nat :=
  min (u32 (u64 (r.filesize + 2^64 - r.filepos)))
    (u32 (bufferSize + 2^32 - (r.headerEnd - r.headerLine)))

/-- The window behind a read. -/
def Request.withBody (r : Request) (bs : List Byte) : Request :=
  { r with
    status := .bodyWrite
    buffer := store r.buffer r.headerEnd bs
    headerEnd := r.headerEnd + bs.length }

/-- A turn of `read_body`, unless it ends the request. -/
inductive ReadsBody (c : Conn) : Int → Conn → Prop where
  | full (h : c.req.bodyWant = 0) : ReadsBody c 1 (exec (setStatus .bodyWrite) c)
  | waits (w : World) :
      ReadsBody c (-1) { c with sys := w, waits := some (c.req.fd, .read) }
  | ends (c' : Conn) : ReadsBody c 0 c'
  | got (bs : List Byte) (w : World) (hlen : bs.length ≤ c.req.bodyWant) :
      ReadsBody c 1 { c with
        req := c.req.withBody bs, sys := w, input := c.input ++ bs, body := c.body ++ bs }

/-- A turn of `write_body`, unless it ends the request. -/
inductive WritesBody (e : Config) (c : Conn) : Int → Conn → Prop where
  | starts (c1 : Conn) (hn : c.req.bodyCount = 0) (hpos : c.req.filesize ≤ c.req.filepos)
      (hc : c1 = { c with req := { c.req with
        headerArea := .buffer, headerLine := 0, headerEnd := 0 } }) :
      WritesBody e c (value (initCgi e) (exec (mark (.bodyDone c.postFile c.body)) c1))
        (exec (initCgi e) (exec (mark (.bodyDone c.postFile c.body)) c1))
  | empty (hn : c.req.bodyCount = 0) (hpos : c.req.filepos < c.req.filesize) :
      WritesBody e c 1 { c with req := { c.req with
        headerArea := .buffer, headerLine := 0, headerEnd := 0, status := .bodyRead } }
  | waits (w : World) :
      WritesBody e c (-1) { c with sys := w, waits := some (c.req.postDataFd, .write) }
  | again (w : World) : WritesBody e c 1 { c with sys := w }
  | ends (c' : Conn) (hw : Worked (· = .dead) (fun _ => False) c c') : WritesBody e c 0 c'
  | took (k : Nat) (w : World) (hk : k ≤ (c.req.bodyBytes c.req.bodyCount).length) :
      WritesBody e c 1 { c with
        req := { c.req with filepos := c.req.filepos + k, headerLine := c.req.headerLine + k }
        postFile := c.postFile ++ (c.req.bodyBytes c.req.bodyCount).take k, sys := w }

section Handlers

variable (e : Config) (c : Conn)

theorem readBody_reads : ReadsBody c (value (readBody e) c) (exec (readBody e) c) := by
  simp only [readBody, value_bind, exec_bind, value_getReq, exec_getReq]
  have hwant : min (u32 (u64 (c.req.filesize + 2^64 - c.req.filepos)))
      (u32 (bufferSize + 2^32 - (c.req.headerEnd - c.req.headerLine))) = c.req.bodyWant := rfl
  rw [hwant]
  by_cases hn : c.req.bodyWant = 0
  · simp only [if_pos hn]
    exact .full hn
  simp only [if_neg hn, value_bind, exec_bind]
  rw [value_sockRead, exec_sockRead]
  rcases hres : takeRecv c.req.bodyWant c.sys.recv with ⟨res, rest⟩
  cases res with
  | ok bs =>
    cases bs with
    | nil => exact .ends _
    | cons b bs => exact .got (b :: bs) _ (takeRecv_length hres)
  | error err =>
    cases err with
    | again =>
      have hbytes : c.input ++ [] = c.input ∧ c.body ++ [] = c.body := by simp
      simp only [readBytes, hbytes.1, hbytes.2]
      exact .waits _
    | intr | connReset | pipe | noEnt | acces | perm | noMem | noSpc | inval | other =>
      exact .ends _

theorem writeBody_writes : WritesBody e c (value (writeBody e) c) (exec (writeBody e) c) := by
  simp only [writeBody, value_bind, exec_bind, value_getReq, exec_getReq]
  by_cases hn : c.req.bodyCount = 0
  · simp only [if_pos hn, value_bind, exec_bind]
    by_cases hpos : c.req.filesize ≤ c.req.filepos
    · simp only [ge_iff_le, if_pos hpos, value_bind, exec_bind, value_get, exec_get]
      exact .starts _ hn hpos rfl
    · simp only [ge_iff_le, if_neg hpos]
      exact .empty hn (by omega)
  · simp only [if_neg hn, value_bind, exec_bind]
    have hpost := postWrite_posted (c.req.bodyBytes c.req.bodyCount) c
    generalize value (postWrite (c.req.bodyBytes c.req.bodyCount)) c = v at hpost
    generalize exec (postWrite (c.req.bodyBytes c.req.bodyCount)) c = c' at hpost
    cases hpost with
    | took n w =>
      have htake : (c.req.bodyBytes c.req.bodyCount).take n =
          (c.req.bodyBytes c.req.bodyCount).take (min n (c.req.bodyBytes c.req.bodyCount).length) := by
        rw [List.take_eq_take_iff]
        omega
      rw [htake]
      exact .took _ w (Nat.min_le_right ..)
    | failed err w d hd =>
      cases err with
      | again =>
        rw [hd]
        exact .waits w
      | intr =>
        rw [hd]
        exact .again w
      | connReset | pipe | noEnt | acces | perm | noMem | noSpc | inval | other =>
        have hcall : Worked (· = .dead) (fun _ => False) c { c with sys := w, waits := d } :=
          .same rfl rfl rfl
        have hreply := crotalusPerror_works (T := (· = .dead)) (S := fun _ => False) e rfl
          { c with sys := w, waits := d }
        exact .ends _ (hcall.trans hreply)

/-- The request at the start of a body of `n` bytes. -/
def Request.startsBody (r : Request) (n : Nat) : Request :=
  { r with
    status := .bodyWrite
    headerArea := .stream
    headerLine := r.parsePos
    headerEnd :=
      if u32 (r.clientStream.length - r.parsePos) > n then r.parsePos + n else r.clientStream.length
    filesize := n
    filepos := 0 }

theorem startBody_starts (ret : Int) :
    value (startBody e ret) c = 0 ∨
      ∃ n, postLength e c.req = some n ∧ value (startBody e ret) c = ret ∧
        exec (startBody e ret) c = { c with
          body := c.req.clientStream.drop c.req.parsePos, req := c.req.startsBody n } := by
  have hlen : ∀ area line stop st, postLength e { c.req with
      headerArea := area, headerLine := line, headerEnd := stop, status := st } =
        postLength e c.req := fun _ _ _ _ => rfl
  simp only [startBody, value_bind, exec_bind, exec_modify, exec_modReq, exec_setStatus,
    value_getReq, exec_getReq, hlen]
  cases hn : postLength e c.req with
  | none => exact .inl rfl
  | some n => exact .inr ⟨n, rfl, rfl, rfl⟩

/-! The program that takes the body. -/

/-- The descriptor and the size of the file. -/
def Conn.posting (c : Conn) : Nat × Nat := (c.req.postDataFd, c.req.filesize)

theorem completeEnv_keeps : Keeps Conn.posting (completeEnv e) := by
  have hall : ∀ kvs, Keeps Conn.posting (addCgiEnvs kvs) := by
    intro kvs
    induction kvs with
    | nil => exact .pure _
    | cons kv kvs ih =>
      apply Keeps.bind (addCgiEnv_keeps (fun _ _ _ _ => rfl) kv.1 kv.2 false)
      intro ok
      exact .ite ih (.pure _)
  refine .bind (.modify fun _ => rfl) fun _ => .bind (fun _ => rfl) fun r => ?_
  apply Keeps.bind (hall _)
  intro ok
  refine .ite (.bind (.modify fun _ => rfl) fun _ => .pure _) (.pure _)

/-- A program that takes neither the request nor its body leaves the file to the request. -/
theorem initCgi_posting :
    value (initCgi e) c = 0 ∨ (exec (initCgi e) c).req.status.responds = true ∨
      (exec (initCgi e) c).posting = c.posting := by
  have hfork : ∀ c1 : Conn, value (forkCgi e) c1 = 0 ∨
      (exec (forkCgi e) c1).req.status.responds = true := by
    intro c1
    rcases forkCgi_answer e c1 with hv | ⟨-, hs⟩
    · exact .inl hv
    · rw [hs]
      exact .inr rfl
  have hkeep : (exec squashKa c).posting = c.posting := rfl
  simp only [initCgi, value_bind, exec_bind, value_getReq, exec_getReq]
  rw [← hkeep]
  generalize exec squashKa c = c1
  split
  · have henv : (exec (completeEnv e) c1).posting = c1.posting := completeEnv_keeps e c1
    simp only [initWorkCgi, value_bind, exec_bind, value_get, exec_get]
    rw [← henv]
    generalize exec (completeEnv e) c1 = c2
    split
    · exact .inr (.inr rfl)
    · exact .inr (.inl rfl)
  · split
    · simp only [value_bind, exec_bind]
      split
      · exact (hfork _).imp_right .inl
      · exact .inl rfl
    · exact (hfork c1).imp_right .inl

theorem endHeader_method (c : Conn) :
    (exec (endHeader e) c).req.method = c.req.method := by
  obtain ⟨host, hw⟩ := processHeaderEnd_works e (exec (mark .headerEnd) c) Responding.all
  have hr : (exec (endHeader e) c).req.steady = (c.withHost host).req.steady := hw.req
  simp only [Request.steady, Prod.mk.injEq] at hr
  exact hr.1

theorem endHeader_plain (c : Conn) :
    (exec (endHeader e) c).req.status = c.req.status ∨
      (exec (endHeader e) c).req.status.plain := by
  obtain ⟨host, hw⟩ := processHeaderEnd_works e (exec (mark .headerEnd) c) Responding.plain
  exact hw.status

theorem initCgi_plain (c : Conn) : Worked Status.plain (fun _ => True) c (exec (initCgi e) c) :=
  have h := Responding.plain
  initCgi_works (T := Status.plain) (S := fun _ => True) e h.dead h.pipeRead h.buffPoll h.startCgi
    h.pushWork c

end Handlers

end Crotalus
