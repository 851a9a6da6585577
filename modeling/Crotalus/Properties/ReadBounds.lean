import Crotalus.Framework.Run
import Crotalus.Spec.CgiHeader

namespace Crotalus

open Stateful ByteMem

/-! Where `read_from_pipe` and `read_from_shbuff` store. The array is the indices up to
BUFFER_SIZE; the model's memory goes on behind it, so that a store there shows. -/

inductive Relay where
  | readPipe | writePipe | readShbuff | writeShbuff
  deriving DecidableEq, Repr

def Relay.run (e : Config) : Relay → Srv Int
  | .readPipe => readFromPipe e
  | .writePipe => writeFromPipe
  | .readShbuff => readFromShbuff e
  | .writeShbuff => writeFromShbuff e

/-- A call of a handler, with the results of its system calls and what the worker has
delivered by then. -/
structure RelayCall where
  relay : Relay
  world : World
  buff : Option (List Byte)

def Request.delivered (r : Request) (buff : Option (List Byte)) : Request :=
  { r with buff := buff }

def Conn.meets (c : Conn) (call : RelayCall) : Conn :=
  { c with req := c.req.delivered call.buff, sys := call.world }

def relayStep (e : Config) (c : Conn) (call : RelayCall) : Conn :=
  exec (call.relay.run e) (c.meets call)

def Conn.withBuffer (c : Conn) (m : Nat → Byte) : Conn :=
  { c with req := { c.req with buffer := m } }

/-- Whatever lies behind the array, the call leaves it alone. -/
def StaysInside (e : Config) (c : Conn) (call : RelayCall) : Prop :=
  ∀ m : Nat → Byte, (∀ i ≤ bufferSize, m i = c.req.buffer i) →
    ∀ i, bufferSize < i → (relayStep e (c.withBuffer m) call).req.buffer i = m i

/-- Does the call come to the reading part of a read handler? -/
def RelayCall.reads (e : Config) (call : RelayCall) : Bool :=
  match call.relay with
  | .readPipe => true
  | .readShbuff => e.build.haveLibshare && call.buff.isSome
  | _ => false

/-- The bytes that it gets there. -/
def RelayCall.got (call : RelayCall) (r : Request) : Option (List Byte) :=
  if call.relay = .readPipe then (takeRecv r.bytesToRead call.world.pipe).1.toOption
  else call.buff.map (·.take r.bytesToRead)

/-- The read gets all the bytes it asks for; or the buffer is full already, and the header
unparsed. -/
def FillsUp (e : Config) (c : Conn) (call : RelayCall) : Prop :=
  call.reads e = true ∧
    if c.req.bytesToRead = 0 then c.req.cgiStatus = .parse
    else (call.got c.req).map List.length = some c.req.bytesToRead

section Steps

variable (e : Config)

theorem sockWrite_confined (bs : List Byte) (c : Conn) : Confined c (exec (sockWrite bs) c) := by
  have hw := sockWrite_wrote bs c
  generalize value (sockWrite bs) c = v at hw
  generalize exec (sockWrite bs) c = c' at hw ⊢
  cases hw with
  | took n w d => exact .same rfl rfl
  | failed err w d => exact .same rfl rfl

theorem rewind_confined (st : Status) (c : Conn) :
    Confined c (exec (do
      setStatus st
      modReq fun r => { r with headerLine := 0, headerEnd := 0 }) c) :=
  ⟨fun _ _ => rfl, fun _ => Nat.zero_le _⟩

theorem writeFrom_confined (st : Status) (c : Conn) : Confined c (exec (writeFrom st) c) := by
  have hwrite := sockWrite_confined
    (slice c.req.buffer c.req.headerLine (c.req.headerEnd - c.req.headerLine)) c
  simp only [writeFrom, exec_bind, exec_getReq, value_getReq, exec_ite, exec_pure]
  split
  · split
    · exact .refl c
    · exact rewind_confined st c
  · generalize exec (sockWrite _) c = d at hwrite ⊢
    cases value (sockWrite (slice c.req.buffer c.req.headerLine
        (c.req.headerEnd - c.req.headerLine))) c with
    | error err =>
      cases err with
      | again => exact hwrite
      | intr => exact hwrite
      | _ => exact hwrite.trans (.same rfl rfl)
    | ok k =>
      have hmove : Confined d (exec (modReq fun r => { r with
          headerLine := r.headerLine + k, bytesWritten := r.bytesWritten + k }) d) :=
        .modReq d (fun _ => rfl) fun _ => rfl
      simp only [exec_bind, exec_ite, exec_pure]
      split
      · exact (hwrite.trans hmove).trans (rewind_confined st _)
      · exact hwrite.trans hmove

/-- What follows the stores of a read that returned `bs`. -/
theorem readDone_confined (ws rs : Status) {bs : List Byte} {c : Conn}
    (hroom : c.req.headerEnd + bs.length ≤ bufferSize + 1) :
    Confined (exec (poke c.req.headerEnd (bs ++ [0])) c) (exec (readDone e ws rs bs) c) := by
  have hstop : (exec (poke c.req.headerEnd (bs ++ [0])) c).req.headerEnd = c.req.headerEnd := rfl
  simp only [readDone, exec_bind, exec_getReq, value_getReq, exec_ite, exec_pure]
  generalize exec (poke c.req.headerEnd (bs ++ [0])) c = d at hstop ⊢
  split
  · have hend : Confined d (exec (modReq fun r => { r with cgiStatus := .done })
        (exec (setStatus ws) d)) := .same rfl rfl
    split
    · exact hend.trans (processCgiHeader_confined e _)
    · exact hend
  · have hadd : Confined d (exec (modReq fun r => { r with
        headerEnd := r.headerEnd + bs.length }) d) :=
      ⟨fun _ _ => rfl, fun _ => Nat.le_trans (Nat.le_of_eq (congrArg (· + bs.length) hstop)) hroom⟩
    refine hadd.trans ?_
    generalize exec (modReq fun r => { r with headerEnd := r.headerEnd + bs.length }) d = d1
    split
    · exact writeFrom_confined rs d1
    · split
      · exact .refl d1
      · refine Confined.trans ?_ (processCgiHeader_confined e _)
        exact .same rfl rfl

theorem readFull_parse (ws : Status) {c : Conn} (h : c.req.cgiStatus = .parse) :
    Confined (exec (poke c.req.headerEnd [0]) c) (exec (readFull e ws) c) := by
  simp only [readFull, exec_bind, exec_getReq, value_getReq, if_pos h]
  refine Confined.trans ?_ (processCgiHeader_confined e _)
  exact .same rfl rfl

theorem readFull_merged (ws : Status) {c : Conn} (h : c.req.cgiStatus ≠ .parse) :
    Confined c (exec (readFull e ws) c) := by
  simp only [readFull, exec_bind, exec_getReq, value_getReq, if_neg h, exec_pure]
  exact .same rfl rfl

/-- The bytes a read handler stores from `header_end` on. -/
def Request.stores (r : Request) (got : Option (List Byte)) : List Byte :=
  if r.bytesToRead = 0 then if r.cgiStatus = .parse then [0] else []
  else match got with
    | none => []
    | some bs => bs ++ [0]

theorem exec_poke_nil (i : Nat) (c : Conn) : exec (poke i []) c = c := by
  simp only [poke, exec_modReq, store_nil]

/-- Nothing that follows its stores goes behind the array. -/
def StoresFirst (c c' : Conn) (bs : List Byte) : Prop :=
  Confined (exec (poke c.req.headerEnd bs) c) c'

theorem storesFirst_full (ws : Status) {c : Conn} (got : Option (List Byte))
    (h0 : c.req.bytesToRead = 0) :
    StoresFirst c (exec (readFull e ws) c) (c.req.stores got) := by
  unfold StoresFirst Request.stores
  rw [if_pos h0]
  split
  · rename_i hparse
    exact readFull_parse e ws hparse
  · rename_i hmerged
    rw [exec_poke_nil]
    exact readFull_merged e ws hmerged

theorem readFromPipe_stores {c : Conn} (h : c.req.headerEnd ≤ bufferSize + 1) :
    StoresFirst c (exec (readFromPipe e) c)
      (c.req.stores (takeRecv c.req.bytesToRead c.sys.pipe).1.toOption) := by
  simp only [readFromPipe, exec_bind, exec_getReq, value_getReq, exec_ite]
  by_cases h0 : c.req.bytesToRead = 0
  · rw [if_pos h0]
    exact storesFirst_full e .pipeWrite _ h0
  · rw [if_neg h0]
    have hreq : (exec (pipeRead c.req.bytesToRead) c).req = c.req := by rw [exec_pipeRead]
    have hval : value (pipeRead c.req.bytesToRead) c = (takeRecv c.req.bytesToRead c.sys.pipe).1 :=
      value_pipeRead _ c
    generalize exec (pipeRead c.req.bytesToRead) c = d at hreq ⊢
    rw [hval]
    unfold StoresFirst Request.stores
    rw [if_neg h0]
    cases hres : (takeRecv c.req.bytesToRead c.sys.pipe).1 with
    | error err =>
      have hd : Confined c d := .same (by rw [hreq]) (by rw [hreq])
      rw [Except.toOption, exec_poke_nil]
      cases err with
      | again => exact hd
      | intr => exact hd
      | _ => exact hd.trans (.same rfl rfl)
    | ok bs =>
      have hle := takeRecv_le hres
      rw [bytesToRead_eq h] at hle
      have hroom : d.req.headerEnd + bs.length ≤ bufferSize + 1 := by
        rw [hreq]
        omega
      refine Confined.trans ?_ (readDone_confined e .pipeWrite .pipeRead hroom)
      simp only [Except.toOption, poke, exec_modReq, hreq]
      exact .same rfl rfl

theorem readFromShbuff_stores {c : Conn} {bs : List Byte} (hlib : e.build.haveLibshare = true)
    (hbuff : c.req.buff = some bs) (h : c.req.headerEnd ≤ bufferSize + 1) :
    StoresFirst c (exec (readFromShbuff e) c)
      (c.req.stores (some (bs.take c.req.bytesToRead))) := by
  simp only [readFromShbuff, hlib, if_true, exec_bind, exec_getReq, value_getReq, hbuff, exec_ite]
  by_cases h0 : c.req.bytesToRead = 0
  · rw [if_pos h0]
    exact storesFirst_full e .buffWrite _ h0
  · rw [if_neg h0]
    have hle := List.length_take_le c.req.bytesToRead bs
    have hroom := bytesToRead_eq h
    unfold StoresFirst Request.stores
    rw [if_neg h0]
    refine Confined.trans ?_ (readDone_confined e .buffWrite .buffRead ?_)
    · simp only [poke, exec_modReq]
      exact .same rfl rfl
    · change c.req.headerEnd + (bs.take c.req.bytesToRead).length ≤ bufferSize + 1
      omega

def RelayCall.stores (e : Config) (call : RelayCall) (r : Request) : List Byte :=
  if call.reads e then r.stores (call.got r) else []

theorem relayStep_stores {c : Conn} (call : RelayCall) (h : c.req.headerEnd ≤ bufferSize + 1) :
    StoresFirst (c.meets call) (relayStep e c call) (call.stores e c.req) := by
  have hnone : ∀ {d : Conn}, Confined (c.meets call) d → StoresFirst (c.meets call) d [] := by
    intro d hd
    rwa [StoresFirst, exec_poke_nil]
  unfold RelayCall.stores
  cases hrelay : call.relay with
  | readPipe =>
    have hreads : call.reads e = true := by rw [RelayCall.reads, hrelay]
    rw [if_pos hreads, RelayCall.got, if_pos hrelay, relayStep, hrelay]
    exact readFromPipe_stores e (c := c.meets call) h
  | writePipe =>
    have hreads : call.reads e = false := by rw [RelayCall.reads, hrelay]
    rw [if_neg (by rw [hreads]; decide), relayStep, hrelay]
    exact hnone (writeFrom_confined .pipeRead _)
  | readShbuff =>
    have hgot : ¬call.relay = .readPipe := by rw [hrelay]; decide
    rw [RelayCall.got, if_neg hgot, relayStep, hrelay, RelayCall.reads, hrelay]
    by_cases hlib : e.build.haveLibshare = true
    · cases hbuff : call.buff with
      | none =>
        have hret : exec (Relay.run e .readShbuff) (c.meets call) = c.meets call := by
          have hb : (c.meets call).req.buff = none := hbuff
          simp only [Relay.run, readFromShbuff, hlib, if_true, exec_bind, exec_getReq,
            value_getReq, hb, exec_pure]
        rw [hret, if_neg (by simp)]
        exact hnone (.refl _)
      | some bs =>
        rw [if_pos (by simp [hlib])]
        exact readFromShbuff_stores e (c := c.meets call) hlib hbuff h
    · have hret : exec (Relay.run e .readShbuff) (c.meets call) = c.meets call := by
        simp only [Relay.run, readFromShbuff, hlib, Bool.false_eq_true, if_false, exec_pure]
      rw [hret, if_neg (by simp [hlib])]
      exact hnone (.refl _)
  | writeShbuff =>
    have hreads : call.reads e = false := by rw [RelayCall.reads, hrelay]
    rw [if_neg (by rw [hreads]; decide), relayStep, hrelay]
    refine hnone ?_
    simp only [Relay.run, writeFromShbuff, exec_ite, exec_pure]
    split
    · exact writeFrom_confined .buffRead _
    · exact .refl _

theorem got_le {call : RelayCall} {r : Request} {bs : List Byte} (h : call.got r = some bs) :
    bs.length ≤ r.bytesToRead := by
  unfold RelayCall.got at h
  split at h
  · cases hres : (takeRecv r.bytesToRead call.world.pipe).1 with
    | error err =>
      rw [hres] at h
      exact nomatch h
    | ok bs' =>
      rw [hres] at h
      cases h
      exact takeRecv_le hres
  · obtain ⟨bs', -, rfl⟩ := Option.map_eq_some_iff.mp h
    exact List.length_take_le _ _

/-- A call that fills up stores a NUL right behind the array, any other stays inside. -/
theorem stores_bounds {c : Conn} (call : RelayCall) (h : c.req.headerEnd ≤ bufferSize + 1) :
    FillsUp e c call ∧ (∃ bs, call.stores e c.req = bs ++ [0] ∧
        c.req.headerEnd + bs.length = bufferSize + 1) ∨
      ¬FillsUp e c call ∧ (call.stores e c.req = [] ∨
        c.req.headerEnd + (call.stores e c.req).length ≤ bufferSize + 1) := by
  have hroom := bytesToRead_eq h
  unfold FillsUp RelayCall.stores Request.stores
  by_cases hreads : call.reads e = true
  · by_cases h0 : c.req.bytesToRead = 0
    · by_cases hparse : c.req.cgiStatus = .parse
      · exact .inl ⟨⟨hreads, by rwa [if_pos h0]⟩, [], by
          rw [if_pos hreads, if_pos h0, if_pos hparse]; rfl, by
          rw [List.length_nil]; omega⟩
      · refine .inr ⟨fun hf => hparse (by simpa [h0] using hf.2), .inl ?_⟩
        rw [if_pos hreads, if_pos h0, if_neg hparse]
    · rw [if_pos hreads, if_neg h0, if_neg h0]
      cases hgot : call.got c.req with
      | none => exact .inr ⟨fun hf => (nomatch hf.2), .inl rfl⟩
      | some bs =>
        have hle := got_le hgot
        by_cases hfull : bs.length = c.req.bytesToRead
        · exact .inl ⟨⟨hreads, congrArg some hfull⟩, bs, rfl, by omega⟩
        · refine .inr ⟨fun hf => hfull (Option.some.inj hf.2), .inr ?_⟩
          simp only [List.length_append, List.length_singleton]
          omega
  · exact .inr ⟨fun hf => hreads hf.1, .inl (if_neg hreads)⟩

theorem relayStep_stop {c : Conn} (call : RelayCall) (h : c.req.headerEnd ≤ bufferSize + 1) :
    (relayStep e c call).req.headerEnd ≤ bufferSize + 1 :=
  (relayStep_stores e call h).stop h

/-- One call stays inside exactly when it does not fill up. -/
theorem staysInside_iff {c : Conn} (call : RelayCall) (h : c.req.headerEnd ≤ bufferSize + 1) :
    StaysInside e c call ↔ ¬FillsUp e c call := by
  have hbounds := stores_bounds e call h
  have hstores : ∀ m, StoresFirst ((c.withBuffer m).meets call)
      (relayStep e (c.withBuffer m) call) (call.stores e c.req) :=
    fun m => relayStep_stores e (c := c.withBuffer m) call h
  constructor
  · intro hin hfill
    obtain ⟨-, bs, hbs, hlen⟩ := hbounds.resolve_right fun hn => hn.1 hfill
    let m : Nat → Byte := fun i => if i ≤ bufferSize then c.req.buffer i else 1
    have hm : m (bufferSize + 1) = 1 := if_neg (by omega)
    have hafter := hin m (fun i hi => if_pos hi) (bufferSize + 1) (Nat.lt_succ_self _)
    have hstored := (hstores m).beyond (bufferSize + 1) (Nat.lt_succ_self _)
    rw [hafter, hm, hbs, ← hlen] at hstored
    exact absurd (hstored.trans (store_last m c.req.headerEnd bs 0)) (by decide)
  · intro hfill m hm i hi
    obtain ⟨-, hroom⟩ := hbounds.resolve_left fun hf => hfill hf.1
    rw [(hstores m).beyond i hi]
    rcases hroom with hnil | hle
    · rw [hnil, exec_poke_nil]
      rfl
    · exact store_above m c.req.headerEnd i _ (Nat.le_trans hle hi)

/-- In every run from the positions that `init_cgi` and `cgi_work_resp` set, the calls stay
inside the array exactly when none of them fills up. -/
theorem relay_staysInside_iff (c : Conn)
    (h0 : c.req.headerEnd = 0 ∨ c.req.headerEnd = bufferSize / 2) (calls : List RelayCall) :
    Run.AllSteps (relayStep e) (StaysInside e) c calls ↔
      Run.AllSteps (relayStep e) (fun d call => ¬FillsUp e d call) c calls := by
  have hstart : c.req.headerEnd ≤ bufferSize + 1 := by
    rcases h0 with h0 | h0 <;> rw [h0] <;> decide
  clear h0
  induction calls generalizing c with
  | nil => exact Iff.rfl
  | cons call calls ih =>
    exact and_congr (staysInside_iff e call hstart)
      (ih (relayStep e c call) (relayStep_stop e call hstart))

end Steps

/-- A script's output is awaited in the upper half of the buffer. -/
def awaiting : Conn :=
  { req := { cgiType := .exec, headerLine := 2048, headerEnd := 2048, status := .pipeRead } }

def pipeGives (bs : List Byte) : RelayCall := ⟨.readPipe, { pipe := [.data bs] }, none⟩

theorem relay_staysInside_short :
    Run.AllSteps (relayStep {}) (StaysInside {}) awaiting [pipeGives [65, 66]] := by
  refine (relay_staysInside_iff {} awaiting (.inr rfl) [pipeGives [65, 66]]).mpr ⟨?_, trivial⟩
  rintro ⟨-, h⟩
  revert h
  decide

/-- A read of the 2049 bytes there seems to be room for. -/
theorem relay_stores_behind : ¬Run.AllSteps (relayStep {}) (StaysInside {}) awaiting
    [pipeGives (List.replicate 2049 65)] := by
  rintro ⟨h, -⟩
  refine (staysInside_iff {} _ (by decide)).mp h ⟨rfl, ?_⟩
  have hroom : awaiting.req.bytesToRead = 2049 := by decide
  have hgot : (pipeGives (List.replicate 2049 65)).got awaiting.req =
      some ((List.replicate 2049 65).take 2049) := by
    have hrelay : (pipeGives (List.replicate 2049 65)).relay = .readPipe := rfl
    rw [RelayCall.got, if_pos hrelay, hroom]
    rfl
  rw [hgot, hroom, if_neg (by decide), Option.map_some, List.length_take, List.length_replicate]
  rfl

end Crotalus
