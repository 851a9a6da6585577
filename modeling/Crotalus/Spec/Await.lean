import Crotalus.Spec.Body

namespace Crotalus

open Stateful

/-! A handler that returns −1 has met a descriptor that would block. -/

/-- The descriptors of a request that a call can find blocked. -/
inductive Spot where
  | clientRead | clientWrite | dataRead | postWrite

def Spot.of (r : Request) : Spot → Nat × Dir
  | .clientRead => (r.fd, .read)
  | .clientWrite => (r.fd, .write)
  | .dataRead => (r.dataFd, .read)
  | .postWrite => (r.postDataFd, .write)

/-- What of a request says where it waits. -/
def Request.view (r : Request) : Status × Nat × Nat × Nat × Nat :=
  (r.status, r.bufferEnd, r.fd, r.dataFd, r.postDataFd)

theorem Spot.of_view {r r' : Request} (h : r'.view = r.view) (s : Spot) : s.of r' = s.of r := by
  simp only [Request.view, Prod.mk.injEq] at h
  obtain ⟨-, -, hfd, hdata, hpost⟩ := h
  cases s with
  | clientRead => rw [Spot.of, Spot.of, hfd]
  | clientWrite => rw [Spot.of, Spot.of, hfd]
  | dataRead => rw [Spot.of, Spot.of, hdata]
  | postWrite => rw [Spot.of, Spot.of, hpost]

/-- The call changes nothing of the request, and says in the history what it would have
waited for. -/
structure Refuses {α : Type} (s : Spot) (io : Srv (Except Errno α)) : Prop where
  req : ∀ c, (exec io c).req = c.req
  again : ∀ c, value io c = .error .again → (exec io c).waits = some (s.of c.req)

/-- A handler that blocks leaves the view of the request and waits at one of these spots. -/
def AwaitsAt (S : List Spot) (m : Srv Int) : Prop :=
  ∀ c, value m c = -1 → (exec m c).req.view = c.req.view ∧
    ∃ s ∈ S, (exec m c).waits = some (s.of c.req)

def Awaits (m : Srv Int) : Prop := ∀ c, value m c = -1 → (exec m c).waits.isSome = true

section Rules

variable {α : Type} {s : Spot} {S : List Spot} {io : Srv (Except Errno α)}
  {f : Except Errno α → Srv Int}

theorem AwaitsAt.awaits {m : Srv Int} (h : AwaitsAt S m) : Awaits m := by
  intro c hv
  obtain ⟨-, s, -, hw⟩ := h c hv
  rw [hw]
  rfl

theorem NeverBlocks.awaitsAt {m : Srv Int} (h : NeverBlocks m) : AwaitsAt S m :=
  fun c hv => absurd hv (h c)

theorem AwaitsAt.bind {m : Srv α} {g : α → Srv Int} (hm : Keeps (fun c => c.req.view) m)
    (h : ∀ a, AwaitsAt S (g a)) : AwaitsAt S (m >>= g) := by
  intro c hv
  obtain ⟨hview, s, hs, hw⟩ := h (value m c) (exec m c) hv
  have hm' : (exec m c).req.view = c.req.view := hm c
  refine ⟨hview.trans hm', s, hs, hw.trans ?_⟩
  rw [Spot.of_view hm']

theorem AwaitsAt.ite {p : Prop} [Decidable p] {m n : Srv Int} (hm : AwaitsAt S m)
    (hn : AwaitsAt S n) : AwaitsAt S (if p then m else n) := by
  split
  · exact hm
  · exact hn

theorem AwaitsAt.mono {S' : List Spot} {m : Srv Int} (h : AwaitsAt S m) (hs : S ⊆ S') :
    AwaitsAt S' m := by
  intro c hv
  obtain ⟨hview, s, hmem, hw⟩ := h c hv
  exact ⟨hview, s, hs hmem, hw⟩

/-- A handler that gives up where its call would block. -/
theorem AwaitsAt.call (hio : Refuses s io) (hs : s ∈ S)
    (hagain : f (.error .again) = Pure.pure (-1))
    (hf : ∀ res, res ≠ .error .again → AwaitsAt S (f res)) : AwaitsAt S (io >>= f) := by
  intro c hv
  rw [value_bind] at hv
  rw [exec_bind]
  have hreq := hio.req c
  by_cases hres : value io c = .error .again
  · rw [hres, hagain, exec_pure]
    exact ⟨by rw [hreq], s, hs, hio.again c hres⟩
  · have h := hf _ hres _ hv
    rwa [hreq] at h

theorem Refuses.retry (h : Refuses s io) (k : Nat) : Refuses s (retryIntr io k) := by
  let R : Conn → Except Errno α → Conn → Prop := fun c res c' =>
    c'.req = c.req ∧ (res = .error .again → c'.waits = some (s.of c.req))
  have hone : ∀ c, R c (value io c) (exec io c) := fun c => ⟨h.req c, h.again c⟩
  have hrun := retryIntr_spec hone ?_ k
  · exact ⟨fun c => (hrun c).1, fun c => (hrun c).2⟩
  · rintro c c' c'' res ⟨hreq, -⟩ ⟨hreq', hagain⟩
    rw [hreq] at hreq' hagain
    exact ⟨hreq', hagain⟩

end Rules

section Calls

theorem req_waiting (fd : Nat) (d : Dir) (err : Errno) (c : Conn) :
    (c.waiting fd d err).req = c.req := by
  unfold Conn.waiting
  split <;> rfl

theorem sockWrite_refuses (bs : List Byte) : Refuses .clientWrite (sockWrite bs) := by
  constructor
  · intro c
    have hw := sockWrite_wrote bs c
    generalize value (sockWrite bs) c = v at hw
    generalize exec (sockWrite bs) c = c' at hw
    cases hw <;> rfl
  · intro c hv
    match hs : c.sys.sock with
    | [] =>
      rw [(sockWrite_nil bs hs).2]
      rfl
    | .fail err :: rest =>
      obtain ⟨hval, hrun⟩ := sockWrite_fail bs hs
      rw [hval] at hv
      have herr : err = .again := Except.error.inj hv
      rw [hrun, herr]
      rfl
    | .done n :: rest =>
      rw [(sockWrite_done bs hs).1] at hv
      cases hv

theorem sockRead_refuses (k : Nat) : Refuses .clientRead (sockRead k) := by
  constructor
  · intro c
    rw [exec_sockRead]
  · intro c hv
    rw [value_sockRead] at hv
    rw [exec_sockRead, hv]
    rfl

theorem pipeRead_refuses (k : Nat) : Refuses .dataRead (pipeRead k) := by
  constructor
  · intro c
    rw [exec_pipeRead]
  · intro c hv
    rw [value_pipeRead] at hv
    rw [exec_pipeRead, hv]
    rfl

theorem fileRead_refuses (off k : Nat) : Refuses .dataRead (fileRead off k) := by
  constructor
  · intro c
    have hread := fileRead_readFile off k c
    generalize value (fileRead off k) c = v at hread
    generalize exec (fileRead off k) c = c' at hread
    cases hread <;> rfl
  · intro c hv
    match hs : c.sys.file with
    | [] =>
      simp only [fileRead, exec_bind, exec_get, value_get, hs, exec_pure, exec_waitFor]
      rfl
    | .fail err :: rest =>
      simp only [fileRead, value_bind, exec_bind, exec_get, value_get, hs, exec_pure, value_pure,
        exec_set, exec_waitFor] at hv ⊢
      have herr : err = .again := Except.error.inj hv
      rw [herr]
      rfl
    | .done n :: rest =>
      simp only [fileRead, value_bind, value_get, exec_get, hs, value_pure] at hv
      cases hv

theorem postWrite_refuses (bs : List Byte) : Refuses .postWrite (postWrite bs) := by
  constructor
  · intro c
    have hpost := postWrite_posted bs c
    generalize value (postWrite bs) c = v at hpost
    generalize exec (postWrite bs) c = c' at hpost
    cases hpost <;> rfl
  · intro c hv
    have hpost := postWrite_posted bs c
    rw [hv] at hpost
    generalize exec (postWrite bs) c = c' at hpost
    cases hpost with
    | failed err w d hd => exact hd

/-- Pending bytes that would block are there: the indices have not crossed. -/
theorem writePending_refuses : Refuses .clientWrite writePending := by
  constructor
  · intro c
    simp only [writePending, exec_bind, value_getReq, exec_getReq]
    split
    · rfl
    · exact (sockWrite_refuses _).req c
  · intro c hv
    simp only [writePending, value_bind, exec_bind, value_getReq, exec_getReq] at hv ⊢
    split at hv
    · cases hv
    · rename_i hle
      rw [if_neg hle]
      exact (sockWrite_refuses _).again c hv

end Calls

section Handlers

variable (e : Config)

/-- The answer to a failed call that ends the request. -/
theorem dies_neverBlocks : NeverBlocks (setStatus .dead >>= fun _ => Pure.pure 0) :=
  .bind fun _ => .pure (by decide)

theorem processGet_awaitsAt : AwaitsAt [.clientWrite] (processGet e) := by
  apply AwaitsAt.bind (fun _ => rfl)
  intro r
  apply AwaitsAt.ite (completeResponse_neverBlocks e).awaitsAt
  apply AwaitsAt.bind (fun _ => rfl)
  intro marked
  apply AwaitsAt.bind (fun _ => rfl)
  intro bus
  apply AwaitsAt.ite dies_neverBlocks.awaitsAt
  apply AwaitsAt.call (sockWrite_refuses _) (List.mem_singleton.mpr rfl) rfl
  intro res hne
  apply NeverBlocks.awaitsAt
  cases res with
  | ok n =>
    apply NeverBlocks.bind
    intro _
    apply NeverBlocks.bind
    intro r
    split
    · exact completeResponse_neverBlocks e
    · exact .pure (by decide)
  | error err =>
    cases err with
    | again => exact absurd rfl hne
    | intr | connReset | pipe | noEnt | acces | perm | noMem | noSpc | inval | other =>
      exact dies_neverBlocks

theorem processGet_awaits : Awaits (processGet e) := (processGet_awaitsAt e).awaits

theorem writeFrom_awaitsAt (st : Status) : AwaitsAt [.clientWrite] (writeFrom st) := by
  have h1 : NeverBlocks (Pure.pure 1) := .pure (by decide)
  have h0 : NeverBlocks (Pure.pure 0) := .pure (by decide)
  apply AwaitsAt.bind (fun _ => rfl)
  intro r
  apply AwaitsAt.ite
  · apply NeverBlocks.awaitsAt
    split
    · exact h0
    · exact .bind fun _ => .bind fun _ => h1
  · apply AwaitsAt.call (sockWrite_refuses _) (List.mem_singleton.mpr rfl) rfl
    intro res hne
    apply NeverBlocks.awaitsAt
    cases res with
    | ok k =>
      apply NeverBlocks.bind
      intro _
      split
      · exact .bind fun _ => .bind fun _ => h1
      · exact h1
    | error err =>
      cases err with
      | again => exact absurd rfl hne
      | intr => exact h1
      | connReset | pipe | noEnt | acces | perm | noMem | noSpc | inval | other =>
        exact .bind fun _ => h0

theorem writeFrom_awaits (st : Status) : Awaits (writeFrom st) := (writeFrom_awaitsAt st).awaits

theorem processCgiHeader_neverBlocks : NeverBlocks (processCgiHeader e) := by
  have h0 : NeverBlocks (Pure.pure 0) := .pure (by decide)
  have h1 : NeverBlocks (Pure.pure 1) := .pure (by decide)
  apply NeverBlocks.bind
  intro _
  apply NeverBlocks.bind
  intro r
  dsimp only
  split
  · exact .bind fun _ => h0
  · split
    · exact .bind fun _ => h1
    · split
      · exact .bind fun _ => .bind fun _ => h1
      · split
        · exact .bind fun _ => .bind fun _ => .bind fun _ => .bind fun _ => h1
        · refine .bind fun _ => .bind fun _ => .bind fun r => ?_
          dsimp only
          split
          · exact .bind fun _ => .bind fun _ => h0
          · refine .bind fun _ => .bind fun _ => ?_
            split
            · exact h0
            · exact h1

theorem readFull_neverBlocks (st : Status) : NeverBlocks (readFull e st) := by
  apply NeverBlocks.bind
  intro r
  split
  · exact .bind fun _ => .bind fun _ => processCgiHeader_neverBlocks e
  · exact .bind fun _ => .pure (by decide)

theorem readDone_awaitsAt (ws rs : Status) (bs : List Byte) :
    AwaitsAt [.clientWrite] (readDone e ws rs bs) := by
  have h1 : NeverBlocks (Pure.pure 1) := .pure (by decide)
  have hheader := processCgiHeader_neverBlocks e
  apply AwaitsAt.bind (fun _ => rfl)
  intro r
  apply AwaitsAt.bind (fun _ => rfl)
  intro _
  apply AwaitsAt.ite
  · apply NeverBlocks.awaitsAt
    apply NeverBlocks.bind
    intro _
    apply NeverBlocks.bind
    intro _
    split
    · exact hheader
    · exact h1
  · apply AwaitsAt.bind (fun _ => rfl)
    intro _
    apply AwaitsAt.ite (writeFrom_awaitsAt rs)
    apply NeverBlocks.awaitsAt
    apply NeverBlocks.bind
    intro r'
    split
    · exact h1
    · exact .bind fun _ => hheader

theorem readFromPipe_awaitsAt : AwaitsAt [.dataRead, .clientWrite] (readFromPipe e) := by
  apply AwaitsAt.bind (fun _ => rfl)
  intro r
  apply AwaitsAt.ite (readFull_neverBlocks e _).awaitsAt
  apply AwaitsAt.call (pipeRead_refuses _) (List.mem_cons_self ..) rfl
  intro res hne
  cases res with
  | ok bs => exact (readDone_awaitsAt e _ _ bs).mono (List.subset_cons_self ..)
  | error err =>
    apply NeverBlocks.awaitsAt
    cases err with
    | again => exact absurd rfl hne
    | intr => exact .pure (by decide)
    | connReset | pipe | noEnt | acces | perm | noMem | noSpc | inval | other =>
      exact dies_neverBlocks

theorem readFromPipe_awaits : Awaits (readFromPipe e) := (readFromPipe_awaitsAt e).awaits

/-- The result of a worker is there as long as it is read. -/
theorem readFromShbuff_awaitsAt {c : Conn} (hb : c.req.buff.isSome = true)
    (hv : value (readFromShbuff e) c = -1) :
    (exec (readFromShbuff e) c).req.view = c.req.view ∧
      (exec (readFromShbuff e) c).waits = some (c.req.fd, .write) := by
  obtain ⟨bs, hbs⟩ := Option.isSome_iff_exists.mp hb
  simp only [readFromShbuff] at hv ⊢
  split at hv
  · rename_i hlib
    rw [if_pos hlib]
    simp only [value_bind, exec_bind, value_getReq, exec_getReq, hbs] at hv ⊢
    split at hv
    · exact absurd hv (readFull_neverBlocks e _ c)
    · rename_i hn
      rw [if_neg hn]
      obtain ⟨hview, s, hs, hw⟩ := readDone_awaitsAt e _ _ _ _ hv
      rw [List.mem_singleton.mp hs] at hw
      exact ⟨hview, hw⟩
  · cases hv

theorem readFromShbuff_awaits {c : Conn} (hb : c.req.buff.isSome = true)
    (hv : value (readFromShbuff e) c = -1) : (exec (readFromShbuff e) c).waits.isSome = true := by
  rw [(readFromShbuff_awaitsAt e hb hv).2]
  rfl

theorem pollFromShbuff_neverBlocks : NeverBlocks (pollFromShbuff e) := by
  have h0 : NeverBlocks (Pure.pure 0) := .pure (by decide)
  have h1 : NeverBlocks (Pure.pure 1) := .pure (by decide)
  unfold pollFromShbuff
  split
  · apply NeverBlocks.bind
    intro c
    split
    · exact .bind fun _ => .bind fun _ => .bind fun _ => .bind fun _ => h1
    · exact h0
  · exact h0

/-- The writing half of `io_shuffle` waits with bytes in the buffer. -/
theorem ioShuffleWrite_waits {c : Conn} (hv : value ioShuffleWrite c = -1) :
    (exec ioShuffleWrite c).req = c.req ∧ c.req.bufferEnd ≠ 0 ∧
      (exec ioShuffleWrite c).waits = some (c.req.fd, .write) := by
  have hcall : Refuses .clientWrite (retryIntr writePending c.sys.sock.length) :=
    writePending_refuses.retry _
  have hreq := hcall.req c
  have hwait := hcall.again c
  have hcross : c.req.bufferEnd < c.req.bufferStart →
      value (retryIntr writePending c.sys.sock.length) c = .error .inval := by
    intro hlt
    have hone : value writePending c = .error .inval := by
      simp only [writePending, value_bind, value_getReq, if_pos hlt, value_pure]
    cases c.sys.sock.length with
    | zero => exact hone
    | succ k => simp only [retryIntr, value_bind, hone, value_pure]
  simp only [ioShuffleWrite, value_bind, exec_bind, value_get, exec_get] at hv ⊢
  split at hv
  · split at hv <;> cases hv
  rename_i hne
  rw [if_neg hne]
  simp only [value_bind, exec_bind] at hv ⊢
  generalize value (retryIntr writePending c.sys.sock.length) c = res at hv hwait hcross
  generalize exec (retryIntr writePending c.sys.sock.length) c = c1 at hv hreq hwait
  cases res with
  | ok k => cases hv
  | error err =>
    cases err with
    | again =>
      refine ⟨hreq, ?_, hwait rfl⟩
      intro hzero
      have hlt : c.req.bufferEnd < c.req.bufferStart := by omega
      cases hcross hlt
    | intr | connReset | pipe | noEnt | acces | perm | noMem | noSpc | inval | other => cases hv

/-- `io_shuffle` waits for the file with an empty buffer, for the client with a full one. -/
structure ShuffleWaits (c c' : Conn) : Prop where
  status : c'.req.status = c.req.status
  spot : (c'.req = c.req ∧ c.req.bufferEnd = c.req.bufferStart ∧
      c'.waits = some (c'.req.dataFd, .read)) ∨
    (c'.req.bufferEnd ≠ 0 ∧ c'.waits = some (c'.req.fd, .write))

theorem ioShuffleWrite_shuffles {c c1 : Conn} (hs : c1.req.status = c.req.status)
    (hv : value ioShuffleWrite c1 = -1) : ShuffleWaits c (exec ioShuffleWrite c1) := by
  obtain ⟨hreq, hb, hw⟩ := ioShuffleWrite_waits hv
  refine ⟨by rw [hreq, hs], .inr ⟨by rwa [hreq], ?_⟩⟩
  rw [hw, hreq]

/-- What `io_shuffle` does with the result of its `read`. -/
theorem ioShuffle_waits {c : Conn} (hv : value (ioShuffle e) c = -1) :
    ShuffleWaits c (exec (ioShuffle e) c) := by
  simp only [ioShuffle, value_bind, exec_bind, value_get, exec_get] at hv ⊢
  split at hv
  · exact absurd hv (completeResponse_neverBlocks e _)
  rename_i hm
  rw [if_neg hm]
  split at hv
  case isFalse hn =>
    rw [if_neg hn]
    exact ioShuffleWrite_shuffles rfl hv
  rename_i hn
  rw [if_pos hn]
  simp only [value_bind, exec_bind] at hv ⊢
  split at hv
  case isFalse => cases hv
  rename_i hok
  rw [if_pos hok]
  simp only [value_bind, exec_bind] at hv ⊢
  have hcall := (fileRead_refuses c.req.range.start c.req.shuffleWant.toNat).retry
    c.sys.file.length
  let c0 := exec (mark (.fileAccess c.req.range.start c.req.shuffleWant.toNat)) (exec seekOk c)
  have hreq : (exec (retryIntr (fileRead c.req.range.start c.req.shuffleWant.toNat)
    c.sys.file.length) c0).req = c.req := hcall.req c0
  have hwait := hcall.again c0
  generalize value (retryIntr (fileRead c.req.range.start c.req.shuffleWant.toNat)
    c.sys.file.length) c0 = res at hv hwait
  generalize exec (retryIntr (fileRead c.req.range.start c.req.shuffleWant.toNat)
    c.sys.file.length) c0 = c1 at hv hwait hreq
  have hs1 : c1.req.status = c.req.status := by rw [hreq]
  match res with
  | .error .again =>
    dsimp only at hv ⊢
    split at hv
    · rename_i hempty
      rw [if_pos hempty, exec_pure]
      refine ⟨hs1, .inl ⟨hreq, hempty, ?_⟩⟩
      rw [hwait rfl, hreq]
      rfl
    · rename_i hfull
      rw [if_neg hfull]
      exact ioShuffleWrite_shuffles hs1 hv
  | .error .intr | .error .connReset | .error .pipe | .error .noEnt | .error .acces
  | .error .perm | .error .noMem | .error .noSpc | .error .inval | .error .other => cases hv
  | .ok [] => exact ioShuffleWrite_shuffles hs1 hv
  | .ok (b :: bs) =>
    simp only [value_bind, exec_bind, value_getReq, exec_getReq] at hv ⊢
    split at hv
    · exact absurd hv (completeResponse_neverBlocks e _)
    · rename_i hleft
      rw [if_neg hleft]
      exact ioShuffleWrite_shuffles hs1 hv

theorem ioShuffle_awaits : Awaits (ioShuffle e) := by
  intro c hv
  rcases (ioShuffle_waits e hv).spot with ⟨-, -, hw⟩ | ⟨-, hw⟩
  · rw [hw]
    rfl
  · rw [hw]
    rfl

/-- `sendfile` that sends nothing makes the request wait as if it would block. -/
theorem sendfilePart_waits (bs : List Byte) (k : Nat) {c : Conn} {m : Srv Int}
    (hm : m = (do
      match ← retryIntr (sockWrite bs) k with
      | .error .again => return -1
      | .error _ =>
        setStatus .dead
        return 0
      | .ok k =>
        if k = 0 then
          mark .noneSent
          return -1
        else
          modReq fun r => (r.counted k).moveStart k
          let r ← getReq
          if u64 (r.range.stop + 1) ≤ r.range.start then completeResponse e else return 1))
    (hv : value m c = -1) (hok : ∀ v ∈ c.visits (exec m c), v.site ≠ .noneSent) :
    (exec m c).req = c.req ∧ (exec m c).waits = some (c.req.fd, .write) := by
  have hcall := (sockWrite_refuses bs).retry k
  have hreq := hcall.req c
  have hwrite := hcall.again c
  have htrace := (retryIntr_works (T := fun _ => False) (S := fun _ => False)
    (sockWrite_works bs) k c).passed.eq
  subst hm
  simp only [value_bind, exec_bind] at hv hok ⊢
  generalize value (retryIntr (sockWrite bs) k) c = res at hv hok hwrite
  generalize exec (retryIntr (sockWrite bs) k) c = c1 at hv hok hwrite htrace hreq
  match res with
  | .error .again => exact ⟨hreq, hwrite rfl⟩
  | .error .intr | .error .connReset | .error .pipe | .error .noEnt | .error .acces
  | .error .perm | .error .noMem | .error .noSpc | .error .inval | .error .other => cases hv
  | .ok k =>
    dsimp only at hv hok ⊢
    split at hv
    · rename_i hk
      rw [if_pos hk] at hok
      have hvisits : c.visits (exec (do
          mark .noneSent
          return (-1 : Int)) c1) = [⟨.noneSent, c1.req, c1.sys⟩] :=
        visits_of_append (by rw [← htrace]; rfl)
      exact absurd rfl (hok _ (hvisits ▸ List.mem_singleton.mpr rfl))
    · simp only [value_bind, value_getReq, exec_modReq] at hv
      split at hv
      · exact absurd hv (completeResponse_neverBlocks e _)
      · cases hv

theorem ioShuffleSendfile_waits {c : Conn} (hv : value (ioShuffleSendfile e) c = -1)
    (hok : ∀ v ∈ c.visits (exec (ioShuffleSendfile e) c), v.site ≠ .noneSent) :
    (exec (ioShuffleSendfile e) c).req = c.req ∧
      (exec (ioShuffleSendfile e) c).waits = some (c.req.fd, .write) := by
  have hcomplete := completeResponse_neverBlocks e
  rw [ioShuffleSendfile, value_bind, value_get, exec_get] at hv
  rw [ioShuffleSendfile, exec_bind, value_get, exec_get] at hok ⊢
  dsimp only at hv hok ⊢
  split at hv
  · exact absurd hv (hcomplete c)
  rename_i hm
  rw [if_neg hm] at hok ⊢
  split at hv
  · split at hv
    · exact absurd hv (hcomplete c)
    · cases hv
  rename_i hn
  rw [if_neg hn] at hok ⊢
  split at hv
  · cases hv
  rename_i hbig
  rw [if_neg hbig] at hok ⊢
  rw [exec_bind] at hok ⊢
  rw [value_bind] at hv
  refine sendfilePart_waits e _ _ rfl hv fun v hmem => hok v ?_
  exact mem_visits_after (mark_passed _ c) hmem

theorem ioShuffleSendfile_awaits {c : Conn} (hv : value (ioShuffleSendfile e) c = -1)
    (hok : ∀ v ∈ c.visits (exec (ioShuffleSendfile e) c), v.site ≠ .noneSent) :
    (exec (ioShuffleSendfile e) c).waits.isSome = true := by
  rw [(ioShuffleSendfile_waits e hv hok).2]
  rfl

theorem processDone_awaitsAt : AwaitsAt [.clientWrite] (processDone e) := by
  intro c hv
  simp only [processDone, value_bind, exec_bind] at hv ⊢
  have hflush := fun h => (reqFlush_refused e (c := c) h).2.2
  generalize value (reqFlush e) c = i at hv hflush
  split at hv
  · cases hv
  · rename_i hne
    rw [if_neg hne]
    split at hv
    · cases hv
    · rename_i hpos
      rw [if_neg hpos, exec_pure, hflush hv]
      exact ⟨rfl, .clientWrite, List.mem_singleton.mpr rfl, rfl⟩

theorem processDone_awaits : Awaits (processDone e) := (processDone_awaitsAt e).awaits

theorem readBody_awaitsAt : AwaitsAt [.clientRead] (readBody e) := by
  apply AwaitsAt.bind (fun _ => rfl)
  intro r
  dsimp only
  apply AwaitsAt.ite
  · apply NeverBlocks.awaitsAt
    exact .bind fun _ => .pure (by decide)
  · apply AwaitsAt.call (sockRead_refuses _) (List.mem_singleton.mpr rfl) rfl
    intro res hne
    apply NeverBlocks.awaitsAt
    cases res with
    | ok bs =>
      dsimp only
      split
      · exact .bind fun _ => .pure (by decide)
      · exact .bind fun _ => .bind fun _ => .pure (by decide)
    | error err =>
      cases err with
      | again => exact absurd rfl hne
      | intr | connReset | pipe | noEnt | acces | perm | noMem | noSpc | inval | other =>
        exact .bind fun _ => .bind fun _ => .pure (by decide)

theorem readMore_awaitsAt : AwaitsAt [.clientRead] readMore := by
  apply AwaitsAt.bind (fun _ => rfl)
  intro r
  apply AwaitsAt.ite
  · apply NeverBlocks.awaitsAt
    exact .bind fun _ => .bind fun _ => .pure (by decide)
  · apply AwaitsAt.call (sockRead_refuses _) (List.mem_singleton.mpr rfl) rfl
    intro res hne
    apply NeverBlocks.awaitsAt
    cases res with
    | ok bs =>
      dsimp only
      split
      · exact .bind fun _ => .pure (by decide)
      · exact .bind fun _ => .pure (by decide)
    | error err =>
      cases err with
      | again => exact absurd rfl hne
      | intr => exact .pure (by decide)
      | connReset | pipe | noEnt | acces | perm | noMem | noSpc | inval | other =>
        exact .bind fun _ => .pure (by decide)

end Handlers

end Crotalus
