import Crotalus.Framework.Run
import Crotalus.Spec.Turn
import Crotalus.Properties.Order

namespace Crotalus

open Stateful

/-! Where a response reads its file. -/

/-- The list of ranges `rs` has been served up to `r0`, and `r0` up to `m`. -/
structure Came (rs cur : List Range) (r0 : Range) (m : Nat) : Prop where
  left : ∃ rest, r0 :: rest <:+ rs ∧ cur = { r0 with start := m } :: rest
  lower : r0.start ≤ m
  upper : m ≤ r0.stop + 1

/-- An access lies in the current range, and a range is given up when it has been read to its
end; a HEAD reads none. -/
structure Visit.inFile (rs : List Range) (v : Visit) : Prop where
  access : ∀ off n, v.site = .fileAccess off n → v.req.method ≠ .head ∧
    ∃ r0, Came rs v.req.ranges r0 off ∧ off + n ≤ r0.stop + 1
  completed : v.site = .completeResponse →
    ∃ r0 m, Came rs v.req.ranges r0 m ∧ (v.req.method ≠ .head → m = r0.stop + 1)

/-- Something is left of the current range. -/
def Conn.moving (rs : List Range) (c : Conn) : Prop :=
  ∃ r0 m, Came rs c.req.ranges r0 m ∧ m ≤ r0.stop

theorem Came.range {rs : List Range} {c : Conn} {r0 : Range} {m : Nat}
    (h : Came rs c.req.ranges r0 m) : c.req.range = { r0 with start := m } := by
  obtain ⟨⟨rest, -, hr⟩, -, -⟩ := h
  rw [Request.range, hr]
  rfl

theorem Came.mem {rs cur : List Range} {r0 : Range} {m : Nat} (h : Came rs cur r0 m) :
    r0 ∈ rs := by
  obtain ⟨⟨rest, hsuffix, -⟩, -, -⟩ := h
  exact hsuffix.subset (List.mem_cons_self ..)

theorem Came.advance {rs : List Range} {r : Request} {r0 : Range} {m k : Nat}
    (h : Came rs r.ranges r0 m) (hk : m + k ≤ r0.stop + 1) :
    Came rs (r.moveStart k).ranges r0 (m + k) := by
  obtain ⟨⟨rest, hsuffix, hr⟩, hlow, -⟩ := h
  exact ⟨⟨rest, hsuffix, range_moveStart hr k⟩, Nat.le_add_right_of_le hlow, hk⟩

/-- The range that follows, when there is one. -/
theorem Came.next {rs cur : List Range} {r0 : Range} {m : Nat} (h : Came rs cur r0 m)
    (hok : ∀ r ∈ rs, r.start ≤ r.stop) (hne : cur.tail ≠ []) :
    ∃ r1 m', Came rs cur.tail r1 m' ∧ m' ≤ r1.stop := by
  obtain ⟨⟨rest, hsuffix, hr⟩, -, -⟩ := h
  rw [hr, List.tail_cons] at hne ⊢
  obtain ⟨r1, rest', rfl⟩ := List.exists_cons_of_ne_nil hne
  have hsuffix' : r1 :: rest' <:+ rs := (List.suffix_cons r0 _).trans hsuffix
  have hle := hok r1 (hsuffix'.subset (List.mem_cons_self ..))
  exact ⟨r1, r1.start, ⟨⟨rest', hsuffix', rfl⟩, Nat.le_refl _, Nat.le_succ_of_le hle⟩, hle⟩

/-! What a part of a turn leaves. -/

/-- The visits of it are in the file, and none ends the request. -/
def Seen (rs : List Range) (c c' : Conn) : Prop :=
  ∃ vs, c'.trace = c.trace ++ vs ∧ ∀ v ∈ vs, v.site ≠ .sanitize ∧ v.inFile rs

theorem Seen.same {rs : List Range} {c c' : Conn} (h : c'.trace = c.trace) : Seen rs c c' :=
  ⟨[], h.trans (List.append_nil _).symm, fun _ hv => absurd hv List.not_mem_nil⟩

theorem Seen.trans {rs : List Range} {c c' c'' : Conn} (h : Seen rs c c') (h' : Seen rs c' c'') :
    Seen rs c c'' := by
  obtain ⟨vs, ht, hv⟩ := h
  obtain ⟨vs', ht', hv'⟩ := h'
  refine ⟨vs ++ vs', by rw [ht', ht, List.append_assoc], fun v hmem => ?_⟩
  rcases List.mem_append.mp hmem with hmem | hmem
  · exact hv v hmem
  · exact hv' v hmem

theorem Seen.one {rs : List Range} {c c' : Conn} {v : Visit} (ht : c'.trace = c.trace ++ [v])
    (hs : v.site ≠ .sanitize) (hv : v.inFile rs) : Seen rs c c' :=
  ⟨[v], ht, fun u hu => by rw [List.mem_singleton.mp hu]; exact ⟨hs, hv⟩⟩

/-- Neither an access nor the end of a range or a request. -/
def Site.apart (s : Site) : Prop :=
  s ≠ .sanitize ∧ s ≠ .completeResponse ∧ ∀ off n, s ≠ .fileAccess off n

theorem Site.apart.inFile {rs : List Range} {v : Visit} (h : v.site.apart) : v.inFile rs :=
  ⟨fun off n hs => absurd hs (h.2.2 off n), fun hs => absurd hs h.2.1⟩

theorem noneSent_apart : Site.noneSent.apart :=
  ⟨by decide, by decide, fun _ _ h => by cases h⟩

theorem Passed.seen {rs : List Range} {c c' : Conn} (h : Passed Site.apart c c') :
    Seen rs c c' := by
  obtain ⟨vs, ht, hv⟩ := h
  exact ⟨vs, ht, fun v hmem => ⟨(hv v hmem).1, (hv v hmem).inFile⟩⟩

structure Stays (rs : List Range) (c c' : Conn) : Prop where
  seen : Seen rs c c'
  responds : c'.req.status.responds = true
  moving : c'.req.status.transfers = true → c'.moving rs

/-- The other statuses of a response. -/
def Status.rests (st : Status) : Prop := st.responds = true ∧ st.transfers = false

theorem Stays.rests {rs : List Range} {c c' : Conn} (h : Seen rs c c')
    (hs : c'.req.status.rests) : Stays rs c c' := by
  refine ⟨h, hs.1, fun ht => ?_⟩
  rw [hs.2] at ht
  cases ht

theorem Seen.stays {rs : List Range} {c c' c'' : Conn} (h : Seen rs c c') (h' : Stays rs c' c'') :
    Stays rs c c'' := ⟨h.trans h'.seen, h'.responds, h'.moving⟩

theorem Stays.go {rs : List Range} {c c' : Conn} (h : Seen rs c c')
    (hs : c'.req.status.responds = true) (hm : c'.moving rs) : Stays rs c c' :=
  ⟨h, hs, fun _ => hm⟩

section Transfer

variable (e : Config) {rs : List Range} {c : Conn}

theorem rests_dead : Status.rests .dead := ⟨rfl, rfl⟩
theorem rests_done : Status.rests .done := ⟨rfl, rfl⟩

/-- The end of a range. -/
theorem completeResponse_stays (hok : ∀ r ∈ rs, r.start ≤ r.stop)
    (hs : c.req.status.responds = true) {r0 : Range} {m : Nat} (h : Came rs c.req.ranges r0 m)
    (hend : c.req.method ≠ .head → m = r0.stop + 1) :
    Stays rs c (exec (completeResponse e) c) := by
  have hpop : Seen rs c c.popRange := by
    refine .one (v := ⟨.completeResponse, c.req, c.sys⟩) rfl nofun ⟨nofun, fun _ => ?_⟩
    exact ⟨r0, m, h, hend⟩
  by_cases hm : c.req.multipart
  · by_cases hr : c.req.ranges.tail = []
    · rw [(completeResponse_last e hm hr).2]
      have hputs := puts_works (T := fun _ => True) (S := Site.apart) trivial
        printPartialContentDone c.popRange
      have hflush := reqFlush_idles e
        (exec (setStatus .done) (exec (puts printPartialContentDone) c.popRange))
      apply hpop.stays
      refine .rests ?_ ?_
      · have hsame : (exec (endParts e) c.popRange).trace =
            (exec (puts printPartialContentDone) c.popRange).trace := hflush.trace
        exact hputs.passed.seen.trans (.same hsame)
      · rcases hflush.status with hst | hst
        · exact hst ▸ rests_done
        · exact hst ▸ rests_dead
    · rw [(completeResponse_next e hm hr).2]
      have hout := puts_outputs (printPartialContentContinue e c.popRange.req ++ [nl]) c.popRange
      have hputs := puts_works (T := fun _ => True) (S := Site.apart) trivial
        (printPartialContentContinue e c.popRange.req ++ [nl]) c.popRange
      obtain ⟨r1, m', hcame, hle⟩ := h.next hok hr
      have hmoving : (exec (puts (printPartialContentContinue e c.popRange.req ++ [nl]))
          c.popRange).moving rs := by
        refine ⟨r1, m', ?_, hle⟩
        rw [hout.ranges]
        exact hcame
      apply hpop.stays
      refine .go hputs.passed.seen ?_ hmoving
      rcases hout.status with hst | hst
      · rw [hst]
        exact hs
      · rw [hst]
        rfl
  · rw [(completeResponse_single e hm).2]
    exact hpop.stays (.rests (.same rfl) rests_done)

/-- The length of what is left, as the code computes it. -/
theorem Came.length {cur : List Range} {r0 : Range} {m : Nat} (hok : ∀ r ∈ rs, r.Ok)
    (h : Came rs cur r0 m) (hle : m ≤ r0.stop) :
    u64 (r0.stop + 2^64 - m + 1) = r0.stop + 1 - m :=
  u64_length (r := { r0 with start := m }) ⟨hle, (hok r0 h.mem).2⟩

/-- An access from the position the range has come to. -/
theorem access_seen {r0 : Range} {m n : Nat} (hm : c.req.method ≠ .head)
    (h : Came rs c.req.ranges r0 m) (hn : m + n ≤ r0.stop + 1) : Seen rs c (exec (mark (.fileAccess m n)) c) := by
  refine .one (v := ⟨.fileAccess m n, c.req, c.sys⟩) rfl nofun ⟨fun off k hs => ?_, nofun⟩
  obtain ⟨rfl, rfl⟩ := Site.fileAccess.inj hs
  exact ⟨hm, r0, h, hn⟩

/-- After `k` bytes the range is at its end, or goes on. -/
theorem advanced_stays (hok : ∀ r ∈ rs, r.Ok) (hs : c.req.status.responds = true) {r0 : Range}
    {m k : Nat} {d : Conn} (h : Came rs c.req.ranges r0 m) (hk : m + k ≤ r0.stop + 1)
    (hseen : Seen rs c d) (hr : d.req.ranges = (c.req.moveStart k).ranges)
    (hst : d.req.status = c.req.status) :
    d.req.range = { r0 with start := m + k } ∧
      (m + k = r0.stop + 1 → Stays rs c (exec (completeResponse e) d)) ∧
      (m + k ≠ r0.stop + 1 → Stays rs c d ∧ d.moving rs) := by
  have hcame : Came rs d.req.ranges r0 (m + k) := by
    rw [hr]
    exact h.advance hk
  have hs' : d.req.status.responds = true := by
    rw [hst]
    exact hs
  refine ⟨hcame.range, fun hend => ?_, fun hne => ?_⟩
  · have hstart : ∀ r ∈ rs, r.start ≤ r.stop := fun r hmem => (hok r hmem).1
    exact hseen.stays (completeResponse_stays e hstart hs' hcame fun _ => hend)
  · have hmoving : d.moving rs := ⟨r0, m + k, hcame, by omega⟩
    exact ⟨.go hseen hs' hmoving, hmoving⟩

theorem fillBuffer_stays (hok : ∀ r ∈ rs, r.Ok) (hm : c.req.method ≠ .head)
    (hs : c.req.status.responds = true) (h : c.moving rs)
    (hsmall : c.req.dataMem ≠ none → ∀ r ∈ rs, r.stop < maxFileMmap) :
    Stays rs c (exec (fillBuffer e) c) := by
  obtain ⟨r0, m, hcame, hle⟩ := h
  have hstay : Stays rs c c := .go (.same rfl) hs ⟨r0, m, hcame, hle⟩
  simp only [fillBuffer, exec_bind, value_getReq, exec_getReq, hcame.range, hcame.length hok hle]
  cases hd : c.req.dataMem with
  | none => exact hstay
  | some mem =>
    dsimp only
    by_cases hroom : u32 (bufferSize + 2^32 - c.req.bufferEnd) ≤ 256
    · rw [if_pos hroom]
      exact hstay
    · have hlt := hsmall (by rw [hd]; exact Option.some_ne_none mem) r0 hcame.mem
      have hwant : u32 (r0.stop + 1 - m) = r0.stop + 1 - m := by
        unfold maxFileMmap at hlt
        exact Nat.mod_eq_of_lt (by omega)
      rw [if_neg hroom, hwant]
      have hn : min (u32 (bufferSize + 2^32 - c.req.bufferEnd)) (r0.stop + 1 - m) ≤
          r0.stop + 1 - m := Nat.min_le_right _ _
      generalize min (u32 (bufferSize + 2^32 - c.req.bufferEnd)) (r0.stop + 1 - m) = n at hn
      have hseen : Seen rs c (exec sigbus (exec (mark (.fileAccess m n)) c)) :=
        access_seen hm hcame (by omega)
      simp only [exec_bind]
      rw [exec_ite]
      split
      · -- SIGBUS: the error page, with the ranges as they were
        have hw := sendRError_works (T := Status.rests) (S := Site.apart) e rests_dead
          (exec resetOutputBuffer (exec sigbus (exec (mark (.fileAccess m n)) c)))
        have hout := sendRError_outputs e
          (exec resetOutputBuffer (exec sigbus (exec (mark (.fileAccess m n)) c)))
        refine .go (hseen.trans hw.passed.seen) ?_ ⟨r0, m, ?_, hle⟩
        · rcases hw.status with hst | hst
          · exact (congrArg Status.responds hst).trans hs
          · exact hst.1
        · exact hout.ranges ▸ hcame
      · obtain ⟨-, hend, hgo⟩ := advanced_stays e hok hs hcame (k := n) (by omega)
          (d := exec (modReq fun r => ((r.append ((mem.drop r.range.start).take n)).counted
            n).moveStart n) (exec sigbus (exec (mark (.fileAccess m n)) c))) hseen rfl rfl
        simp only [exec_bind, exec_ite, exec_pure]
        split
        · exact hend (by omega)
        · exact (hgo (by omega)).1

theorem processGet_stays (hok : ∀ r ∈ rs, r.Ok) (hs : c.req.status.responds = true)
    (h : c.moving rs) : Stays rs c (exec (processGet e) c) := by
  obtain ⟨r0, m, hcame, hle⟩ := h
  have hstart : ∀ r ∈ rs, r.start ≤ r.stop := fun r hmem => (hok r hmem).1
  simp only [processGet, exec_bind, value_getReq, exec_getReq, hcame.range, hcame.length hok hle,
    exec_ite]
  by_cases hm : c.req.method = .head
  · rw [if_pos hm]
    exact completeResponse_stays e hstart hs hcame fun hne => absurd hm hne
  rw [if_neg hm]
  have hn : min (u32 (r0.stop + 1 - m)) e.systemBufsize ≤ r0.stop + 1 - m :=
    Nat.le_trans (Nat.min_le_left _ _) (Nat.mod_le _ _)
  generalize min (u32 (r0.stop + 1 - m)) e.systemBufsize = n at hn
  have hseen : Seen rs c (exec sigbus (exec (mark (.fileAccess m n)) c)) :=
    access_seen hm hcame (by omega)
  split
  · exact hseen.stays (.rests (.same rfl) rests_dead)
  generalize (c.req.dataMem.getD []).drop m = mem
  have hw := sockWrite_wrote (mem.take n) (exec sigbus (exec (mark (.fileAccess m n)) c))
  generalize value (sockWrite (mem.take n)) (exec sigbus (exec (mark (.fileAccess m n)) c)) = v
    at hw ⊢
  generalize exec (sockWrite (mem.take n)) (exec sigbus (exec (mark (.fileAccess m n)) c)) = c2
    at hw ⊢
  cases hw with
  | failed err w d =>
    cases err with
    | again => exact .go (hseen.trans (.same rfl)) hs ⟨r0, m, hcame, hle⟩
    | intr | connReset | pipe | noEnt | acces | perm | noMem | noSpc | inval | other =>
      exact .rests (hseen.trans (.same rfl)) rests_dead
  | took k w d =>
    have hlen : ((mem.take n).take k).length ≤ n := by
      simp only [List.length_take]
      omega
    generalize (mem.take n).take k = bs at hlen
    obtain ⟨hrange, hend, hgo⟩ := advanced_stays e hok hs hcame (k := bs.length) (by omega)
      (d := exec (modReq fun r => (r.counted bs.length).moveStart bs.length)
        { exec sigbus (exec (mark (.fileAccess m n)) c) with
          wire := (exec sigbus (exec (mark (.fileAccess m n)) c)).wire ++ bs
          sys := w, waits := d }) hseen rfl rfl
    simp only [exec_bind, value_getReq, exec_getReq, exec_ite, hrange, exec_pure]
    have hspent := u64_spent (a := m + bs.length) (b := r0.stop) (by omega)
      (hok r0 hcame.mem).2
    split
    · rename_i hz
      exact hend (hspent.mp hz)
    · rename_i hz
      exact (hgo fun h => hz (hspent.mpr h)).1

theorem ioShuffleSendfile_stays (hok : ∀ r ∈ rs, r.Ok) (hs : c.req.status.responds = true)
    (h : c.moving rs) : Stays rs c (exec (ioShuffleSendfile e) c) := by
  obtain ⟨r0, m, hcame, hle⟩ := h
  have hstart : ∀ r ∈ rs, r.start ≤ r.stop := fun r hmem => (hok r hmem).1
  have hstop : u64 (r0.stop + 1) = r0.stop + 1 := Nat.mod_eq_of_lt (hok r0 hcame.mem).2
  simp only [ioShuffleSendfile, exec_bind, value_get, exec_get, hcame.range, hcame.length hok hle,
    hstop, exec_ite]
  by_cases hm : c.req.method = .head
  · rw [if_pos hm]
    exact completeResponse_stays e hstart hs hcame fun hne => absurd hm hne
  rw [if_neg hm]
  have hn : min (r0.stop + 1 - m) e.systemBufsize ≤ r0.stop + 1 - m := Nat.min_le_left _ _
  generalize min (r0.stop + 1 - m) e.systemBufsize = n at hn
  split
  · rw [if_neg (by omega)]
    exact .go (.same rfl) hs ⟨r0, m, hcame, hle⟩
  split
  · exact .rests (.same rfl) rests_dead
  have hseen : Seen rs c (exec (mark (.fileAccess m n)) c) := access_seen hm hcame (by omega)
  generalize c.req.dataFile.drop m = data
  generalize c.sys.sock.length = tries
  have hw := retryIntr_wrote (data.take n) tries (exec (mark (.fileAccess m n)) c)
  generalize value (retryIntr (sockWrite (data.take n)) tries)
    (exec (mark (.fileAccess m n)) c) = v at hw ⊢
  generalize exec (retryIntr (sockWrite (data.take n)) tries)
    (exec (mark (.fileAccess m n)) c) = c2 at hw ⊢
  cases hw with
  | failed err w d =>
    cases err with
    | again => exact .go (hseen.trans (.same rfl)) hs ⟨r0, m, hcame, hle⟩
    | intr | connReset | pipe | noEnt | acces | perm | noMem | noSpc | inval | other =>
      exact .rests (hseen.trans (.same rfl)) rests_dead
  | took k w d =>
    have hlen : ((data.take n).take k).length ≤ n := by
      simp only [List.length_take]
      omega
    generalize (data.take n).take k = bs at hlen
    have hseen' : Seen rs c { exec (mark (.fileAccess m n)) c with
        wire := (exec (mark (.fileAccess m n)) c).wire ++ bs, sys := w, waits := d } := hseen
    simp only [exec_ite]
    split
    · exact .go (hseen'.trans (.one rfl noneSent_apart.1 (Site.apart.inFile noneSent_apart))) hs
        ⟨r0, m, hcame, hle⟩
    · obtain ⟨hrange, hend, hgo⟩ := advanced_stays e hok hs hcame (k := bs.length) (by omega)
        (d := exec (modReq fun r => (r.counted bs.length).moveStart bs.length)
          { exec (mark (.fileAccess m n)) c with
            wire := (exec (mark (.fileAccess m n)) c).wire ++ bs, sys := w, waits := d })
        hseen rfl rfl
      simp only [exec_bind, value_getReq, exec_getReq, exec_ite, hrange, exec_pure, hstop]
      split
      · exact hend (by omega)
      · exact (hgo (by omega)).1

theorem sockWrite_keeps (bs : List Byte) : Keeps Conn.req (sockWrite bs) := by
  intro c
  have hw := sockWrite_wrote bs c
  generalize value (sockWrite bs) c = v at hw
  generalize exec (sockWrite bs) c = c' at hw ⊢
  cases hw <;> rfl

theorem writePending_keeps (k : Nat) : Keeps Conn.req (retryIntr writePending k) := by
  have hone : Keeps Conn.req writePending := by
    apply Keeps.bind (fun _ => rfl)
    intro r
    exact .ite (.pure _) (sockWrite_keeps _)
  induction k with
  | zero => exact hone
  | succ k ih =>
    apply Keeps.bind hone
    intro res
    split
    · exact ih
    · exact .pure _

/-- The writing half of `io_shuffle` leaves the ranges alone. -/
theorem ioShuffleWrite_keeps : Keeps (fun c : Conn => c.req.ranges) ioShuffleWrite := by
  have htaken : ∀ (r : Request) (k : Nat), ((r.taken k).counted k).ranges = r.ranges := by
    intro r k
    rw [Request.taken]
    split <;> rfl
  apply Keeps.bind .get
  intro c
  apply Keeps.ite
  · exact .ite (.pure _) (.bind (.modify fun _ => rfl) fun _ => .pure _)
  · have hpending : ∀ k, Keeps (fun c : Conn => c.req.ranges) (retryIntr writePending k) :=
      fun k c => congrArg Request.ranges (writePending_keeps k c)
    apply Keeps.bind (hpending _)
    intro res
    split
    · exact .pure _
    · exact .bind (.modify fun _ => rfl) fun _ => .pure _
    · exact .bind (.modify fun c => htaken c.req _) fun _ => .pure _

theorem ioShuffleWrite_stays (hs : c.req.status.responds = true) (h : c.moving rs) :
    Stays rs c (exec ioShuffleWrite c) := by
  have hw := ioShuffleWrite_works (T := Status.rests) (S := Site.apart) rests_dead c
  have hranges : (exec ioShuffleWrite c).req.ranges = c.req.ranges := ioShuffleWrite_keeps c
  refine ⟨hw.passed.seen, ?_, fun _ => ?_⟩
  · rcases hw.status with hst | hst
    · rw [hst]
      exact hs
    · exact hst.1
  · unfold Conn.moving
    rw [hranges]
    exact h

theorem ioShuffle_stays (hok : ∀ r ∈ rs, r.Ok) (hs : c.req.status.responds = true)
    (h : c.moving rs) : Stays rs c (exec (ioShuffle e) c) := by
  obtain ⟨r0, m, hcame, hle⟩ := h
  have hstart : ∀ r ∈ rs, r.start ≤ r.stop := fun r hmem => (hok r hmem).1
  have hwrite : ∀ {c' : Conn}, Seen rs c c' → c'.req.status = c.req.status → c'.moving rs →
      Stays rs c (exec ioShuffleWrite c') := by
    intro c' hseen hst hm
    exact hseen.stays (ioShuffleWrite_stays (hst ▸ hs) hm)
  simp only [ioShuffle, exec_bind, value_get, exec_get, hcame.range, exec_ite]
  by_cases hm : c.req.method = .head
  · rw [if_pos hm]
    exact completeResponse_stays e hstart hs hcame fun hne => absurd hm hne
  rw [if_neg hm]
  split
  · rename_i hwant
    have hn : c.req.shuffleWant.toNat ≤ r0.stop + 1 - m :=
      shuffleWant_le hcame.range ⟨hle, (hok r0 hcame.mem).2⟩ hwant.1
    generalize c.req.shuffleWant.toNat = n at hn
    split
    · have hseen : Seen rs c (exec (mark (.fileAccess m n)) (exec seekOk c)) :=
        access_seen hm hcame (by omega)
      generalize c.sys.file.length = tries
      have hread := retryIntr_readFile m n tries (exec (mark (.fileAccess m n)) (exec seekOk c))
      generalize value (retryIntr (fileRead m n) tries)
        (exec (mark (.fileAccess m n)) (exec seekOk c)) = v at hread ⊢
      generalize exec (retryIntr (fileRead m n) tries)
        (exec (mark (.fileAccess m n)) (exec seekOk c)) = c2 at hread ⊢
      cases hread with
      | failed err w d =>
        cases err with
        | again =>
          simp only [exec_ite]
          split
          · exact .go (hseen.trans (.same rfl)) hs ⟨r0, m, hcame, hle⟩
          · exact hwrite (hseen.trans (.same rfl)) rfl ⟨r0, m, hcame, hle⟩
        | intr | connReset | pipe | noEnt | acces | perm | noMem | noSpc | inval | other =>
          exact .rests (hseen.trans (.same rfl)) rests_dead
      | got k w d =>
        generalize (exec (mark (.fileAccess m n)) (exec seekOk c)).req.dataFile.drop m = data
        have hlen : ((data.take n).take k).length ≤ n := by
          simp only [List.length_take]
          omega
        generalize (data.take n).take k = bs at hlen
        cases bs with
        | nil => exact hwrite (hseen.trans (.same rfl)) rfl ⟨r0, m, hcame, hle⟩
        | cons b bs =>
          obtain ⟨hrange, hend, hgo⟩ := advanced_stays e hok hs hcame (k := (b :: bs).length)
            (by omega)
            (d := exec (modReq fun r => (r.append (b :: bs)).moveStart (b :: bs).length)
              { exec (mark (.fileAccess m n)) (exec seekOk c) with sys := w, waits := d })
            hseen rfl rfl
          simp only [exec_bind, value_getReq, exec_getReq, exec_ite, hrange]
          have hspent := u64_spent (a := m + (b :: bs).length) (b := r0.stop) (by omega)
            (hok r0 hcame.mem).2
          split
          · rename_i hz
            exact hend (hspent.mp hz)
          · rename_i hz
            obtain ⟨hstay, hmoving⟩ := hgo fun h => hz (hspent.mpr h)
            exact hwrite hstay.seen rfl hmoving
    · exact .rests (.same rfl) rests_dead
  · exact hwrite (.same rfl) rfl ⟨r0, m, hcame, hle⟩

theorem processStatus_stays (hok : ∀ r ∈ rs, r.Ok) (hs : c.req.status.responds = true)
    (h : c.req.status.transfers = true → c.moving rs) :
    Stays rs c (exec (processStatus e) c) := by
  cases ht : c.req.status.transfers with
  | false =>
    have hscan := processStatus_rests (T := Status.rests) (S := Site.apart) e rests_dead rests_done
      ⟨⟨rfl, rfl⟩, rfl, rfl⟩ ⟨⟨rfl, rfl⟩, rfl, rfl⟩ ⟨nofun, nofun, nofun⟩ ⟨nofun, nofun, nofun⟩ hs ht
    refine .rests hscan.passed.seen ?_
    rcases hscan.status with hst | hst
    · rw [hst]
      exact ⟨hs, ht⟩
    · exact hst
  | true =>
    have hmoving := h ht
    simp only [processStatus, exec_bind, value_getReq, exec_getReq]
    have hst : c.req.status = .write ∨ c.req.status = .ioshuffle := by
      simpa only [Status.transfers, Bool.or_eq_true, decide_eq_true_eq] using ht
    rcases hst with hst | hst
    · rw [hst]
      exact processGet_stays e hok hs hmoving
    · rw [hst]
      dsimp only
      split
      · exact ioShuffleSendfile_stays e hok hs hmoving
      · exact ioShuffle_stays e hok hs hmoving

end Transfer

/-! Runs, up to the end of the request. -/

/-- The visits that belong to the request the run starts with. -/
def thisRequest (vs : List Visit) : List Visit := vs.takeWhile fun v => v.site ≠ .sanitize

/-- The request the run starts with is still being answered. -/
def Conn.sameRequest (c0 c : Conn) : Prop := ∀ v ∈ c0.visits c, v.site ≠ .sanitize

theorem thisRequest_append {us vs : List Visit} (h : ∀ v ∈ us, v.site ≠ .sanitize) :
    thisRequest (us ++ vs) = us ++ thisRequest vs := by
  apply List.takeWhile_append_of_pos
  intro v hv
  exact decide_eq_true (h v hv)

theorem thisRequest_over {us vs : List Visit} {v : Visit} (hv : v ∈ us) (hs : v.site = .sanitize) :
    thisRequest (us ++ vs) = thisRequest us := by
  induction us with
  | nil => exact absurd hv List.not_mem_nil
  | cons u us ih =>
    by_cases hu : u.site = .sanitize
    · simp only [thisRequest, List.cons_append, List.takeWhile_cons, hu, ne_eq, not_true_eq_false,
        decide_false, Bool.false_eq_true, if_false]
    · have hmem : v ∈ us := by
        rcases List.mem_cons.mp hv with rfl | hmem
        · exact absurd hs hu
        · exact hmem
      have htail := ih hmem
      simp only [thisRequest] at htail ⊢
      simp only [List.cons_append, List.takeWhile_cons, ne_eq, hu, not_false_eq_true, decide_true,
        if_true, htail]

/-- The invariant. -/
structure ReadsInFile (rs : List Range) (c0 c : Conn) : Prop where
  passed : Passed (fun _ => True) c0 c
  visits : ∀ v ∈ thisRequest (c0.visits c), v.inFile rs
  responds : c0.sameRequest c → c.place ≠ .free → c.req.status.responds = true
  moving : c0.sameRequest c → c.place ≠ .free → c.req.status.transfers = true → c.moving rs

section Turn

variable (e : Config) {rs : List Range} {c0 c c' : Conn}

theorem Seen.passed (h : Seen rs c c') : Passed (fun _ => True) c c' := by
  obtain ⟨vs, ht, -⟩ := h
  exact ⟨vs, ht, fun _ _ => trivial⟩

theorem Seen.sameRequest (h : Seen rs c c') : c.sameRequest c' := by
  obtain ⟨vs, ht, hv⟩ := h
  intro v hmem
  rw [visits_of_append ht] at hmem
  exact (hv v hmem).1

theorem Seen.visits (h : Seen rs c c') : ∀ v ∈ thisRequest (c.visits c'), v.inFile rs := by
  obtain ⟨vs, ht, hv⟩ := h
  intro v hmem
  rw [visits_of_append ht] at hmem
  exact (hv v (List.takeWhile_subset _ hmem)).2

theorem Stays.readsInFile (h : Stays rs c c') : ReadsInFile rs c c' :=
  ⟨h.seen.passed, h.seen.visits, fun _ _ => h.responds, fun _ _ => h.moving⟩

/-- Once its request is over, a run shows nothing new of it. -/
theorem readsInFile_after (h : Passed (fun _ => True) c0 c)
    (hv : ∀ v ∈ thisRequest (c0.visits c), v.inFile rs)
    (h' : c0.sameRequest c → ReadsInFile rs c c') (hp : Passed (fun _ => True) c c') :
    ReadsInFile rs c0 c' := by
  have hvisits := visits_trans h hp
  by_cases hsame : c0.sameRequest c
  · have hnext := h' hsame
    have hlater : c0.sameRequest c' → c.sameRequest c' := by
      intro hs v hmem
      exact hs v (hvisits ▸ List.mem_append_right _ hmem)
    refine ⟨h.trans hp, fun v hmem => ?_, fun hs => hnext.responds (hlater hs),
      fun hs => hnext.moving (hlater hs)⟩
    rw [hvisits, thisRequest_append hsame] at hmem
    rcases List.mem_append.mp hmem with hmem | hmem
    · apply hv v
      have hall : thisRequest (c0.visits c ++ []) = c0.visits c ++ [] := thisRequest_append hsame
      rw [List.append_nil] at hall
      rw [hall]
      exact hmem
    · exact hnext.visits v hmem
  · have hover : ¬c0.sameRequest c' := by
      intro hs
      exact hsame fun v hmem => hs v (hvisits ▸ List.mem_append_left _ hmem)
    refine ⟨h.trans hp, fun v hmem => ?_, fun hs => absurd hs hover,
      fun hs => absurd hs hover⟩
    obtain ⟨u, hu, hs⟩ : ∃ u ∈ c0.visits c, u.site = .sanitize := by
      simpa only [Conn.sameRequest, ne_eq, not_forall, not_not, exists_prop] using hsame
    rw [hvisits, thisRequest_over hu hs] at hmem
    exact hv v hmem

theorem ReadsInFile.trans (h : ReadsInFile rs c0 c)
    (h' : c0.sameRequest c → ReadsInFile rs c c') (hp : Passed (fun _ => True) c c') :
    ReadsInFile rs c0 c' := readsInFile_after h.passed h.visits h' hp

theorem settle_keeps {v : Int} (h : v = -1 ∨ v = 1) :
    (exec (settle e v) c).req.ranges = c.req.ranges := by
  have hka : (exec (onlyIf c.sys.sigterm squashKa) c).req.ranges = c.req.ranges := by
    cases c.sys.sigterm <;> rfl
  simp only [settle, exec_bind, value_get, exec_get]
  generalize exec (onlyIf c.sys.sigterm squashKa) c = c1 at hka
  rcases h with rfl | rfl
  · rw [if_pos rfl, req_blockRequest]
    exact hka
  · rw [if_neg (by decide), if_neg (by decide), if_pos rfl]
    exact hka

/-- What the end of a turn leaves. -/
theorem settle_readsInFile {v : Int}
    (h : v = -1 ∨ v = 1 → c.req.status.responds = true ∧
      (c.req.status.transfers = true → c.moving rs)) :
    ReadsInFile rs c (exec (settle e v) c) := by
  have hend := settle_turnEnd e v c
  have hkeeps := fun hret => settle_keeps e (c := c) (v := v) hret
  generalize exec (settle e v) c = c' at hend hkeeps
  have hstays : v = -1 ∨ v = 1 → c'.req.status = c.req.status → c'.trace = c.trace →
      ReadsInFile rs c c' := by
    intro hret hs ht
    obtain ⟨hresp, hmove⟩ := h hret
    refine Stays.readsInFile ⟨.same ht, by rw [hs]; exact hresp, fun htr => ?_⟩
    rw [hs] at htr
    unfold Conn.moving
    rw [hkeeps hret]
    exact hmove htr
  cases hend with
  | blocked hret _ hs _ ht => exact hstays (.inl hret) hs ht
  | goesOn hret _ hs _ ht => exact hstays (.inr hret) hs ht
  | dies _ _ hs _ ht => exact (Stays.rests (.same ht) (hs ▸ rests_dead)).readsInFile
  | flushing _ _ hs _ ht =>
    refine (Stays.rests (.same ht) ?_).readsInFile
    rcases hs with hs | hs
    · rw [hs]
      exact rests_done
    · rw [hs]
      exact rests_dead
  | closed _ hp ht =>
    have hseen : Seen rs c c' := (ht.mono fun s hs => by rw [hs]; exact ⟨nofun, nofun, nofun⟩).seen
    exact ⟨hseen.passed, hseen.visits, fun _ hne => absurd hp hne, fun _ hne => absurd hp hne⟩
  | recycled _ c1 _ ht _ _ _ _ _ _ htrace =>
    have hseen : Seen rs c c1 := (ht.mono fun s hs => by rw [hs]; exact ⟨nofun, nofun, nofun⟩).seen
    have hlast : Passed (fun _ => True) c1 c' := ⟨_, htrace, fun _ _ => trivial⟩
    have hvisits : c.visits c' = c.visits c1 ++ [⟨.sanitize, c1.req, c1.sys⟩] := by
      rw [visits_trans hseen.passed hlast, visits_of_append htrace]
    have hover : ¬c.sameRequest c' := by
      intro hs
      refine hs ⟨.sanitize, c1.req, c1.sys⟩ ?_ rfl
      rw [hvisits]
      exact List.mem_append_right _ (List.mem_singleton.mpr rfl)
    refine ⟨hseen.passed.trans hlast, fun v hmem => ?_, fun hs => absurd hs hover,
      fun hs => absurd hs hover⟩
    rw [hvisits, thisRequest_append hseen.sameRequest] at hmem
    have hnone : thisRequest [⟨.sanitize, c1.req, c1.sys⟩] = [] := rfl
    rw [hnone, List.append_nil] at hmem
    obtain ⟨vs, hvs, hin⟩ := hseen
    rw [visits_of_append hvs] at hmem
    exact (hin v hmem).2

theorem topFlush_outputs : Outputs (topFlush e) := by
  apply Outputs.bind .getReq
  intro r _
  split
  · apply Outputs.bind (reqFlush_outputs e)
    intro i _
    split
    · exact .bind .dead fun _ _ => .pure _
    · split
      · exact .pure _
      · exact .pure _
  · exact .pure _

/-- A turn of a request that is still being answered. -/
theorem processRequest_readsInFile (hok : ∀ r ∈ rs, r.Ok) (hs : c.req.status.responds = true)
    (h : c.req.status.transfers = true → c.moving rs) :
    ReadsInFile rs c (exec (processRequest e) c) := by
  have hout := topFlush_outputs e c
  have htrace := (topFlush_idles e c).trace
  have htop : ∀ {c1 : Conn}, c1.req = (exec (topFlush e) c).req → c1.trace = c.trace →
      Stays rs c c1 := by
    intro c1 hreq ht
    refine ⟨.same ht, ?_, fun htr => ?_⟩
    · rw [hreq]
      rcases hout.status with hst | hst
      · rw [hst]
        exact hs
      · rw [hst]
        rfl
    · rw [hreq] at htr
      rcases hout.status with hst | hst
      · unfold Conn.moving
        rw [hreq, hout.ranges]
        exact h (hst ▸ htr)
      · rw [hst] at htr
        cases htr
  rcases processRequest_run e c with ⟨-, hrun⟩ | ⟨-, hrun⟩
  · have h1 : Stays rs c (c.dispatched e) := htop rfl htrace
    have h2 := processStatus_stays e hok h1.responds h1.moving
    have hend := settle_readsInFile e (v := value (processStatus e) (c.dispatched e))
      fun _ => ⟨h2.responds, h2.moving⟩
    have hpass := (settle_turnEnd e (value (processStatus e) (c.dispatched e))
      (exec (processStatus e) (c.dispatched e))).passed
    rw [hrun]
    exact (h1.seen.stays h2).readsInFile.trans (fun _ => hend) hpass
  · have h1 : Stays rs c (exec (topFlush e) c) := htop rfl htrace
    have hend := settle_readsInFile e (v := value (topFlush e) c)
      fun _ => ⟨h1.responds, h1.moving⟩
    rw [hrun]
    exact h1.readsInFile.trans (fun _ => hend) (settle_turnEnd e _ _).passed

theorem step_readsInFile (hok : ∀ r ∈ rs, r.Ok) (ev : Ev) (h : ReadsInFile rs c0 c) :
    ReadsInFile rs c0 (step e c ev) := by
  cases ev with
  | process w =>
    simp only [step]
    by_cases hp : c.place = .ready
    · rw [if_pos hp]
      have hne : c.place ≠ .free := by
        rw [hp]
        decide
      have hpass : Passed (fun _ => True) c
          (exec (processRequest e) { c with sys := w, waits := none }) :=
        processRequest_passed e { c with sys := w, waits := none }
      refine h.trans (fun hsame => ?_) hpass
      have hrun := processRequest_readsInFile (c := { c with sys := w, waits := none }) e hok
        (h.responds hsame hne) (h.moving hsame hne)
      exact ⟨hrun.passed, hrun.visits, hrun.responds, hrun.moving⟩
    · rw [if_neg hp]
      exact h
  | select w readyR readyW =>
    simp only [step]
    by_cases hp : c.place = .block
    · rw [if_pos hp]
      have hne : c.place ≠ .free := by
        rw [hp]
        decide
      rcases select_outcome e readyR readyW { c with sys := w } with hw | ⟨v, hv, hw⟩
      · refine h.trans (fun hsame => Stays.readsInFile ⟨.same hw.trace, ?_, fun htr => ?_⟩)
          (.same hw.trace)
        · rw [hw.req]
          exact h.responds hsame hne
        · unfold Conn.moving
          rw [hw.req] at htr ⊢
          exact h.moving hsame hne htr
      · have hapart : v.site.apart := by
          rw [hv]
          exact ⟨by decide, by decide, fun _ _ h => by cases h⟩
        have hseen : Seen rs c _ := .one hw.trace hapart.1 hapart.inFile
        refine h.trans (fun _ => Stays.readsInFile (.rests hseen ?_)) hseen.passed
        rw [hw.req]
        exact ⟨rfl, rfl⟩
    · rw [if_neg hp]
      exact h
  | results cs =>
    have hscan := cgiWorkResps_scanned (T := fun _ => True) (S := (· = .workResp)) trivial rfl cs c
    have hseen : Seen rs c (exec (cgiWorkResps cs) c) :=
      (hscan.passed.mono fun s hs => by rw [hs]; exact ⟨by decide, by decide, fun _ _ h => by cases h⟩).seen
    refine h.trans (fun hsame => ?_) hseen.passed
    have hplace : (exec (cgiWorkResps cs) c).place = c.place := hscan.place
    have hrange : c.place ≠ .free → Stays rs c (exec (cgiWorkResps cs) c) := by
      intro hne
      rcases cgiWorkResps_same cs c with hs | hs
      · refine ⟨hseen, ?_, ?_⟩
        · rw [hs]
          exact h.responds hsame hne
        · rw [hs]
          exact h.moving hsame hne
      · exact .rests hseen (hs ▸ ⟨rfl, rfl⟩)
    refine ⟨hseen.passed, hseen.visits, fun _ hne => ?_, fun _ hne => ?_⟩
    · exact (hrange (hplace ▸ hne)).responds
    · exact (hrange (hplace ▸ hne)).moving

/-! The start of the response. -/

/-- `init_get` has opened the file of a request. -/
structure Opened (f : File) (c : Conn) : Prop where
  status : c.req.status = .write
  dataMem : c.req.dataMem = none
  size : f.size < 2^63

/-- The ranges of the file that the client gets. -/
def settledRanges (f : File) (r : Request) : List Range :=
  rangesLeft f.size (if r.ranges = [] then [⟨0, minusOne⟩] else r.ranges)

theorem settledRanges_ok {f : File} (hsize : f.size < 2^63) (r : Request) :
    ∀ r0 ∈ settledRanges f r, r0.Ok ∧ r0.stop < f.size := by
  intro r0 hr
  by_cases h0 : f.size = 0
  · rw [settledRanges, rangesLeft, if_pos h0] at hr
    exact absurd hr List.not_mem_nil
  · exact rangesLeft_ok ⟨Nat.pos_of_ne_zero h0, hsize⟩ _ r0 hr

/-- The header is written for the settled ranges. -/
theorem serveHeader_output (hsize : 0 < c.req.filesize ∧ c.req.filesize < 2^63) :
    value (serveHeader e) c = true ∧ ∃ c1, Output c1 (exec (serveHeader e) c) ∧
      c1.req = { c.req with
        ranges := if c.req.ranges = [] then [⟨0, c.req.filesize - 1⟩] else c.req.ranges } := by
  have hwhole := rangesLeft_whole hsize
  by_cases hr : c.req.ranges = []
  · have he : exec (serveHeader e) c = exec (sendRRequestOk e) { c with
        req := { c.req with ranges := [⟨0, c.req.filesize - 1⟩] } } := by
      simp [serveHeader, hr, rangesFixup, hwhole]
    rw [if_pos hr, he]
    exact ⟨by simp [serveHeader, hr, rangesFixup, hwhole], _, sendRRequestOk_outputs e _, rfl⟩
  · have he : exec (serveHeader e) c = exec (sendRPartialContent e) c := by
      simp [serveHeader, hr]
    refine ⟨by simp [serveHeader, hr], c, ?_, ?_⟩
    · rw [he]
      exact sendRPartialContent_outputs e c
    · rw [if_neg hr]

theorem serveFile_stays {f : File} (fd : Nat) (h : Opened f c) (hsize : c.req.filesize = f.size)
    (hpos : 0 < f.size) {r : Request} (hr : c.req.ranges = if r.ranges = [] then [] else
      settledRanges f r) (hne : r.ranges ≠ [] → settledRanges f r ≠ []) :
    Stays (settledRanges f r) c (exec (serveFile e fd f) c) := by
  have hok := settledRanges_ok h.size r
  obtain ⟨hsrc, hm, -, -, -, hfs, hranges, hmap⟩ :=
    mapFile_source (c := exec (mark .serveFile) c) (f := f) fd h.status h.dataMem
  have hmark : Seen (settledRanges f r) c (exec (mark .serveFile) c) :=
    .one rfl nofun ⟨nofun, nofun⟩
  have hmapped := mapFile_works (T := fun _ => True) (S := Site.apart) trivial fd f
    (exec (mark .serveFile) c)
  simp only [serveFile, exec_bind]
  generalize exec (mapFile fd f) (exec (mark .serveFile) c) = c1 at hsrc hm hfs hranges hmap hmapped
  have hfs' : c1.req.filesize = f.size := hfs.trans hsize
  obtain ⟨hv, c2, hout, hreq⟩ := serveHeader_output (c := c1) e (hfs' ▸ ⟨hpos, h.size⟩)
  have hheader := serveHeader_works (T := fun _ => True) (S := Site.apart) e trivial c1
  rw [hv, if_pos rfl]
  generalize exec (serveHeader e) c1 = c3 at hout hheader
  have hseen := (hmark.trans hmapped.passed.seen).trans hheader.passed.seen
  have hsettled : c3.req.ranges = settledRanges f r := by
    have hr1 : c1.req.ranges = if r.ranges = [] then [] else settledRanges f r := hranges.trans hr
    rw [hout.ranges, hreq, hfs']
    by_cases hempty : r.ranges = []
    · rw [if_pos hempty] at hr1
      rw [settledRanges, if_pos hempty, rangesLeft_whole ⟨hpos, h.size⟩]
      exact if_pos hr1
    · rw [if_neg hempty] at hr1
      have hne1 : c1.req.ranges ≠ [] := hr1 ▸ hne hempty
      exact (if_neg hne1).trans hr1
  have hfull : settledRanges f r ≠ [] := by
    by_cases hempty : r.ranges = []
    · rw [settledRanges, if_pos hempty, rangesLeft_whole ⟨hpos, h.size⟩]
      exact List.cons_ne_nil _ _
    · exact hne hempty
  obtain ⟨r0, rest, hcons⟩ := List.exists_cons_of_ne_nil hfull
  obtain ⟨hr0, hlt⟩ := hok r0 (hcons ▸ List.mem_cons_self ..)
  have hcame : Came (settledRanges f r) c3.req.ranges r0 r0.start :=
    ⟨⟨rest, hcons ▸ List.suffix_rfl, hsettled.trans hcons⟩, Nat.le_refl _,
      Nat.le_succ_of_le hr0.1⟩
  have hresp : c3.req.status.responds = true := by
    have hst : c2.req.status = c1.req.status := by rw [hreq]
    rcases hout.status with hs | hs
    · rw [hs, hst]
      rcases hsrc with ⟨hs1, -⟩ | ⟨hs1, -⟩
      · rw [hs1]
        rfl
      · rw [hs1]
        rfl
    · rw [hs]
      rfl
  have hstart : ∀ x ∈ settledRanges f r, x.start ≤ x.stop := fun x hmem => (hok x hmem).1.1
  apply hseen.stays
  simp only [exec_bind, value_getReq, exec_getReq, exec_ite]
  split
  · rename_i hhead
    exact completeResponse_stays e hstart hresp hcame fun hne => absurd hhead hne
  · rename_i hhead
    refine fillBuffer_stays e (fun x hmem => (hok x hmem).1) hhead hresp
      ⟨r0, r0.start, hcame, hr0.1⟩ ?_
    intro hsome x hmem
    obtain ⟨mem, hmem1⟩ := Option.ne_none_iff_exists'.mp hsome
    have hmem2 : c1.req.dataMem = some mem := by
      have hd : c2.req.dataMem = c1.req.dataMem := by rw [hreq]
      rw [← hd, ← hout.dataMem]
      exact hmem1
    obtain ⟨hsmall, -⟩ := hmap mem hmem2
    have hsmall' : c.req.filesize ≤ maxFileMmap := hsmall
    have hlt' := (hok x hmem).2
    omega

/-- The answers without data of the file do not touch it. -/
theorem initGetFile_seen {f : File} (fd : Nat) (h : c.servesFile e f = false) :
    Seen rs c (exec (initGetFile e fd f) c) := by
  simp only [Conn.servesFile, ne_eq, decide_not, Bool.and_eq_false_iff, Bool.not_eq_false',
    Bool.or_eq_false_iff, decide_eq_false_iff_not, decide_eq_true_eq] at h
  simp only [initGetFile, exec_bind, exec_getReq, value_getReq]
  by_cases hkind : f.kind ≠ .reg
  · rw [if_pos hkind]
    exact (sendRBadRequest_works (T := fun _ => True) (S := Site.apart) e trivial c).passed.seen
  by_cases h304 : c.req.ifModifiedSince.map (modifiedSince (e.gmtime f.mtime)) = some 0
  · rw [if_neg hkind, if_pos h304]
    exact (sendRNotModified_works (T := fun _ => True) (S := Site.apart) e trivial c).passed.seen
  rw [if_neg hkind, if_neg h304]
  have hnoted : Seen rs c (exec (modReq fun r => { r with
      filesize := f.size, lastModified := f.mtime, headerIfrange := none }) c) := .same rfl
  by_cases hsize : f.size = 0
  · simp only [if_pos hsize, exec_bind]
    exact hnoted.trans (serveEmpty_works (T := fun _ => True) (S := Site.apart) e trivial _).passed.seen
  · obtain ⟨hr, hleft⟩ : c.req.ranges ≠ [] ∧ rangesLeft f.size c.req.ranges = [] := by
      rcases h with ((h | h) | h) | h
      · exact absurd h hkind
      · exact absurd h h304
      · exact absurd h hsize
      · exact h
    have hfixup := rangesFixup_works (T := fun _ => True) (S := Site.apart) e trivial (exec (modReq fun r => { r with
      filesize := f.size, lastModified := f.mtime, headerIfrange := none }) c)
    have hv : value (rangesFixup e) (exec (modReq fun r => { r with
        filesize := f.size, lastModified := f.mtime, headerIfrange := none }) c) = false := by
      simp only [rangesFixup, value_bind, exec_modReq, value_getReq, hleft, if_true, value_pure]
    simp only [if_neg hsize, exec_bind, if_pos hr, hv, Bool.false_eq_true, if_false, exec_pure]
    exact hnoted.trans hfixup.passed.seen

/-- What `init_get` leaves. -/
theorem initGetFile_stays {f : File} (fd : Nat) (h : Opened f c) :
    Stays (settledRanges f c.req) c (exec (initGetFile e fd f) c) ∨
      (Seen (settledRanges f c.req) c (exec (initGetFile e fd f) c) ∧
        value (initGetFile e fd f) c = 0) := by
  cases hserves : c.servesFile e f with
  | true =>
    left
    rw [(initGetFile_serves e fd hserves).1]
    simp only [Conn.servesFile, Bool.and_eq_true, Bool.or_eq_true, decide_eq_true_eq] at hserves
    obtain ⟨⟨-, hsize⟩, hranges⟩ := hserves
    have hopened : Opened f (c.opened f) := ⟨h.status, h.dataMem, h.size⟩
    have hstays := serveFile_stays e fd hopened rfl (Nat.pos_of_ne_zero hsize) (r := c.req) ?_ ?_
    · exact ⟨hstays.seen, hstays.responds, hstays.moving⟩
    · change rangesLeft f.size c.req.ranges = _
      by_cases hr : c.req.ranges = []
      · rw [if_pos hr, hr, rangesLeft, List.filterMap_nil, ite_self]
      · rw [if_neg hr, settledRanges, if_neg hr]
    · intro hr
      rw [settledRanges, if_neg hr]
      exact hranges.resolve_left hr
  | false =>
    right
    exact ⟨initGetFile_seen e fd hserves, (initGetFile_answers e fd hserves).2⟩

theorem served_readsInFile {f : File} (fd : Nat) (h : Opened f c) :
    ReadsInFile (settledRanges f c.req) c (served e fd f c) := by
  have hend := settle_turnEnd e (value (initGetFile e fd f) c) (exec (initGetFile e fd f) c)
  rcases initGetFile_stays e fd h with hstays | ⟨hseen, hv⟩
  · refine hstays.readsInFile.trans (fun _ => ?_) hend.passed
    exact settle_readsInFile e fun _ => ⟨hstays.responds, hstays.moving⟩
  · refine readsInFile_after hseen.passed hseen.visits (fun _ => ?_) hend.passed
    refine settle_readsInFile e (v := value (initGetFile e fd f) c) fun hret => ?_
    rw [hv] at hret
    omega

/-- All ranges of the list lie in a file of `size` bytes. -/
theorem Came.bounded {size : Nat} {cur : List Range} {r0 : Range} {m : Nat}
    (hok : ∀ r ∈ rs, r.Ok ∧ r.stop < size) (h : Came rs cur r0 m) (hle : m ≤ r0.stop) :
    ∀ r ∈ cur, r.start ≤ r.stop ∧ r.stop + 1 ≤ size := by
  have hmem0 := h.mem
  obtain ⟨⟨rest, hsuffix, rfl⟩, -, -⟩ := h
  intro r hmem
  rcases List.mem_cons.mp hmem with rfl | hmem
  · exact ⟨hle, (hok r0 hmem0).2⟩
  · obtain ⟨hr, hlt⟩ := hok r (hsuffix.subset (List.mem_cons_of_mem _ hmem))
    exact ⟨hr.1, hlt⟩

/-- Along every run of a response from a file each access lies in the current range, which is
one of the settled ones from some position on; a range that a GET gives up has been read to
its end; and what is left lies in the file. -/
theorem fileReads_inside (f : File) (fd : Nat) (c : Conn) (evs : List Ev) (h : Opened f c) :
    (∀ r ∈ settledRanges f c.req, r.start ≤ r.stop ∧ r.stop + 1 ≤ f.size) ∧
      ∀ t ∈ Run.states (step e) (served e fd f c) evs,
        (∀ v ∈ thisRequest (c.visits t), v.inFile (settledRanges f c.req)) ∧
          (c.sameRequest t → t.place ≠ .free → t.req.status.transfers = true →
            t.moving (settledRanges f c.req) ∧
              ∀ r ∈ t.req.ranges, r.start ≤ r.stop ∧ r.stop + 1 ≤ f.size) := by
  have hok := settledRanges_ok h.size c.req
  refine ⟨fun r hmem => ⟨(hok r hmem).1.1, (hok r hmem).2⟩, fun t ht => ?_⟩
  have hall : Run.AllSteps (step e) (fun _ _ => True) (served e fd f c) evs := Run.allSteps_true _ _
  have hinv := Run.invariant (I := ReadsInFile (settledRanges f c.req) c)
    (fun _ ev hi _ => step_readsInFile e (fun r hmem => (hok r hmem).1) ev hi)
    (served_readsInFile e fd h) hall t ht
  refine ⟨hinv.visits, fun hsame hne htr => ?_⟩
  have hmoving := hinv.moving hsame hne htr
  refine ⟨hmoving, ?_⟩
  obtain ⟨r0, m, hcame, hle⟩ := hmoving
  exact hcame.bounded hok hle

end Turn

theorem twoParts_opened : Opened twoBytes twoParts := ⟨rfl, rfl, by decide⟩

/-- One flush and one direct write, then the end of the response. -/
def twoPartsRun : List Ev :=
  [.process { sock := [.done 500, .done 1] }, .process { sock := [.done 9] }]

theorem fileReads_inside_twoParts :
    (∀ t ∈ Run.states (step {}) (served {} 7 twoBytes twoParts) twoPartsRun,
      ∀ v ∈ thisRequest (twoParts.visits t), v.inFile (settledRanges twoBytes twoParts.req)) ∧
    settledRanges twoBytes twoParts.req = [⟨0, 0⟩, ⟨1, 1⟩] :=
  ⟨fun t ht => ((fileReads_inside {} twoBytes 7 twoParts twoPartsRun twoParts_opened).2 t ht).1,
    by decide⟩

/-- The same asked for by a HEAD: `complete_response` gives up ranges of which nothing was
read. -/
def twoHeads : Conn := { twoParts with req := { twoParts.req with method := .head } }

theorem head_advancesNone :
    Opened twoBytes twoHeads ∧
      ∃ t ∈ Run.states (step {}) (served {} 7 twoBytes twoHeads) [],
        ∃ v ∈ thisRequest (twoHeads.visits t),
          v.site = .completeResponse ∧ v.req.range.start ≠ v.req.range.stop + 1 := by
  have hany : (thisRequest (twoHeads.visits (served {} 7 twoBytes twoHeads))).any (fun v =>
      decide (v.site = .completeResponse ∧ v.req.range.start ≠ v.req.range.stop + 1)) = true := by
    decide +kernel
  obtain ⟨v, hv, hp⟩ := List.any_eq_true.mp hany
  exact ⟨⟨rfl, rfl, by decide⟩, _, List.mem_singleton.mpr rfl, v, hv, of_decide_eq_true hp⟩

end Crotalus
