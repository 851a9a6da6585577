import Crotalus.Framework.Run
import Crotalus.Spec.Await

namespace Crotalus

open Stateful

/-! Which requests come to the handlers of a body, and which ones wait. -/

/-- A POST with the file and the length of its body. -/
def Request.takesBody (e : Config) (r : Request) : Prop :=
  r.method = .post ∧ r.postDataFd ≠ 0 ∧ postLength e r = some r.filesize

/-- What the switch of `process_requests` may rely on. -/
structure Dispatches (e : Config) (c : Conn) : Prop where
  post : c.req.status.isBody = true → c.req.takesBody e
  answered : c.req.status.reading = true → value (processStatus e) c ≠ 0 →
    (exec (processStatus e) c).req.method ≠ .post →
      (exec (processStatus e) c).req.status.isBody = false
  waits : value (processStatus e) c = -1 → (exec (processStatus e) c).waits.isSome = true

/-- The turn, if it comes to the switch, comes to it so. -/
def Ev.dispatches (e : Config) (c : Conn) : Ev → Prop
  | .process w =>
    c.place = .ready → value (topFlush e) { c with sys := w, waits := none } = 1 →
      Dispatches e (Conn.dispatched e { c with sys := w, waits := none })
  | _ => True

/-- The gzip handler does not run at the end of a full header, nor without its file; the pool
refuses no job there, and none with -1; `sendfile` sends something. -/
def Visit.keepsOut (v : Visit) : Prop :=
  (v.site = .gzip → v.req.status ≠ .bodyRead ∧ v.sys.gzopen ≠ none) ∧
    (v.site = .pushWork → v.sys.shprocPush ≠ 0 →
      v.req.status ≠ .bodyRead ∧ v.sys.shprocPush ≠ -1) ∧
    v.site ≠ .noneSent

instance (v : Visit) : Decidable v.keepsOut := by
  unfold Visit.keepsOut
  infer_instance

/-- The invariant: a request in a status has what the handler of the status reads. -/
structure Equipped (e : Config) (c : Conn) : Prop where
  post : c.req.status.isBody = true → c.req.takesBody e
  buff : c.req.status = .buffRead ∨ c.req.status = .buffWrite → c.req.buff.isSome = true

section Handlers

variable (e : Config) {c c' : Conn}

theorem Equipped.plain (h : c.req.status.plain) : Equipped e c := by
  obtain ⟨hbody, hread, hwrite⟩ := h
  refine ⟨fun hb => ?_, fun hb => ?_⟩
  · rw [hbody] at hb
    cases hb
  · rcases hb with hb | hb
    · exact absurd hb hread
    · exact absurd hb hwrite

/-- Nothing that a flush changes is read. -/
theorem Equipped.core (h : Equipped e c) (hc : c'.core = c.core)
    (hs : c'.req.status = c.req.status ∨ c'.req.status = .dead) : Equipped e c' := by
  have hr : c'.req.core = c.req.core := (Prod.mk.inj hc).1
  have hmethod : c'.req.core.method = c.req.core.method := by rw [hr]
  have hfd : c'.req.core.postDataFd = c.req.core.postDataFd := by rw [hr]
  have hsize : c'.req.core.filesize = c.req.core.filesize := by rw [hr]
  have hlen : postLength e c'.req.core = postLength e c.req.core := by rw [hr]
  have hbuff : c'.req.core.buff = c.req.core.buff := by rw [hr]
  rcases hs with hs | hs
  · refine ⟨fun hb => ?_, fun hb => ?_⟩
    · rw [hs] at hb
      obtain ⟨h1, h2, h3⟩ := h.post hb
      have hlen' : postLength e c'.req = postLength e c.req := hlen
      have hsize' : c'.req.filesize = c.req.filesize := hsize
      refine ⟨?_, ?_, ?_⟩
      · exact hmethod.trans h1
      · exact fun h0 => h2 (hfd.symm.trans h0)
      · rw [hlen', hsize', h3]
    · rw [hs] at hb
      have hbuff' : c'.req.buff = c.req.buff := hbuff
      rw [hbuff']
      exact h.buff hb
  · apply Equipped.plain
    rw [hs]
    exact ⟨rfl, nofun, nofun⟩

/-- At the end of a full header without a body a responder takes the request. -/
theorem endHeader_out (hm : c.req.method ≠ .post) (hv : value (endHeader e) c ≠ 0)
    (hok : ∀ v ∈ c.visits (exec (endHeader e) c), v.keepsOut) :
    value (endHeader e) c ≠ -1 ∧
      (c.req.status = .bodyRead → (exec (endHeader e) c).req.status.isBody = false) := by
  have hans := processHeaderEnd_answers e (exec (mark .headerEnd) c) hm
  change Answer _ (exec (endHeader e) c) (value (endHeader e) c) at hans
  have hkeeps : ∀ v ∈ (exec (mark .headerEnd) c).visits (exec (endHeader e) c), v.keepsOut :=
    fun v hmem => hok v (mem_visits_after (mark_passed .headerEnd c) hmem)
  have hdead : ∀ {site v}, Stuck site (exec (mark .headerEnd) c) (exec (endHeader e) c) v →
      v.req.status ≠ .bodyRead → c.req.status = .bodyRead →
        (exec (endHeader e) c).req.status.isBody = false := by
    intro site v h hne hs
    have hbefore : v.req.status = c.req.status ∨ v.req.status = .dead := h.before
    have hvdead : v.req.status = .dead := by
      rcases hbefore with hb | hb
      · exact absurd (hb.trans hs) hne
      · exact hb
    rcases h.after with ha | ha
    · rw [ha, hvdead]
      rfl
    · rw [ha]
      rfl
  cases hans with
  | declined h => exact absurd h hv
  | responds hne hs =>
    refine ⟨hne, fun _ => ?_⟩
    generalize (exec (endHeader e) c).req.status = st at hs
    cases st <;> first | rfl | cases hs
  | rejected v h hpush hne =>
    obtain ⟨-, hrej, -⟩ := hkeeps v h.mem
    obtain ⟨hst, hminus⟩ := hrej h.site (hpush ▸ hne)
    exact ⟨fun hret => hminus (hpush.trans hret), hdead h hst⟩
  | gzip v h _ hgz =>
    obtain ⟨hgzip, -, -⟩ := hkeeps v h.mem
    obtain ⟨hst, hopen⟩ := hgzip h.site
    refine ⟨fun hret => ?_, hdead h hst⟩
    rcases hgz with hone | ⟨-, hnone⟩
    · omega
    · exact hopen hnone

/-- What the end of a header makes of a request when it does not close it. -/
structure HeaderLeft (e : Config) (c' : Conn) (ret : Int) : Prop where
  equipped : Equipped e c'
  answered : c'.req.method ≠ .post → c'.req.status.isBody = false
  waits : ret = -1 → c'.waits.isSome = true

theorem HeaderLeft.plain {ret : Int} (hs : c.req.status.plain) (hret : ret ≠ -1) :
    HeaderLeft e c ret :=
  ⟨.plain e hs, fun _ => hs.1, fun h => absurd h hret⟩

theorem endHeader_short (hs : c.req.status = .oneLf) (hv : value (endHeader e) c ≠ 0)
    (hok : ∀ v ∈ c.visits (exec (endHeader e) c), v.keepsOut) :
    HeaderLeft e (exec (endHeader e) c) (value (endHeader e) c) := by
  have hplain : (exec (endHeader e) c).req.status.plain := by
    rcases endHeader_plain e c with h | h
    · rw [h, hs]
      exact ⟨rfl, nofun, nofun⟩
    · exact h
  apply HeaderLeft.plain e hplain
  by_cases hm : c.req.method = .post
  · have hopen := processHeaderEnd_opens e (exec (mark .headerEnd) c) hm
    change value (endHeader e) c = 0 ∨ (value (endHeader e) c = 1 ∧ _) at hopen
    omega
  · exact (endHeader_out e hm hv hok).1

theorem headerDone_left (hs : c.req.status = .bodyRead) (hv : value (headerDone e) c ≠ 0)
    (hok : ∀ v ∈ c.visits (exec (headerDone e) c), v.keepsOut) :
    HeaderLeft e (exec (headerDone e) c) (value (headerDone e) c) := by
  have hmethod := endHeader_method e c
  simp only [headerDone, value_bind, exec_bind, value_getReq, exec_getReq] at hv hok ⊢
  by_cases hm : c.req.method = .post
  · have hopen := processHeaderEnd_opens e (exec (mark .headerEnd) c) hm
    change value (endHeader e) c = 0 ∨ (value (endHeader e) c = 1 ∧
      (exec (endHeader e) c).req.postDataFd ≠ 0 ∧ (exec (endHeader e) c).postFile = []) at hopen
    rw [hm] at hmethod
    generalize value (endHeader e) c = ret at hv hopen
    generalize exec (endHeader e) c = c1 at hv hopen hmethod
    by_cases hret : ret ≠ 0 ∧ c1.req.method = .post
    · simp only [if_pos hret] at hv ⊢
      rcases startBody_starts e c1 ret with h0 | ⟨n, hn, hval, hrun⟩
      · exact absurd h0 hv
      · rw [hval, hrun]
        have hone : ret = 1 ∧ c1.req.postDataFd ≠ 0 := by
          rcases hopen with h | ⟨h, hfd, -⟩
          · exact absurd h hret.1
          · exact ⟨h, hfd⟩
        refine ⟨⟨fun _ => ⟨hmethod, hone.2, hn⟩, ?_⟩, fun h => absurd hmethod h, fun h => ?_⟩
        · rintro (h | h) <;> cases h
        · omega
    · simp only [if_neg hret] at hv ⊢
      have h0 : ret ≠ 0 := hv
      exact absurd ⟨h0, hmethod⟩ hret
  · have hret : ¬(value (endHeader e) c ≠ 0 ∧ (exec (endHeader e) c).req.method = .post) := by
      rw [hmethod]
      exact fun h => hm h.2
    simp only [if_neg hret] at hv hok ⊢
    obtain ⟨hne, hout⟩ := endHeader_out e hm hv hok
    apply HeaderLeft.plain e ?_ hne
    rcases endHeader_plain e c with h | h
    · have hbody := hout hs
      rw [h, hs] at hbody
      cases hbody
    · exact h

theorem readHeader_left (hs : c.req.status.reading = true) (hv : value (readHeader e) c ≠ 0)
    (hok : ∀ v ∈ c.visits (exec (readHeader e) c), v.keepsOut) :
    HeaderLeft e (exec (readHeader e) c) (value (readHeader e) c) := by
  rcases readHeader_cases e hs with ⟨ret, c', hstep, hval, hrun⟩ | ⟨c', hadv, hs', hval, hrun⟩
  · rw [hval] at hv
    rw [hrun] at hok
    rw [hval, hrun]
    cases hstep with
    | refused _ _ _ => exact absurd rfl hv
    | @short k c1 hadv hst _ =>
      apply endHeader_short e hst hv
      exact fun v hmem => hok v (mem_visits_after hadv.passed hmem)
    | @ended k c1 _ hadv hst =>
      apply headerDone_left e hst hv
      exact fun v hmem => hok v (mem_visits_after hadv.passed hmem)
  · rw [hval] at hv
    rw [hval, hrun]
    obtain ⟨-, -, -, hmore⟩ := readMore_outcome c'
    rcases hmore with h0 | ⟨hst, hmore⟩
    · exact absurd h0 hv
    · have hplain := reading_plain hs'
      rw [← hst] at hplain
      refine ⟨.plain e hplain, fun _ => hplain.1, fun hret => ?_⟩
      rcases hmore with h1 | ⟨-, hw, -⟩
      · omega
      · exact hw

/-! The other handlers. -/

/-- What a handler leaves when it does not close the request. -/
structure Left (e : Config) (c' : Conn) (ret : Int) : Prop where
  equipped : ret ≠ 0 → Equipped e c'
  waits : ret = -1 → c'.waits.isSome = true

/-- The program of a POST takes it out of the handlers of its body, or leaves its body. -/
theorem initCgi_equipped (hs : c.req.status = .bodyWrite) (hp : c.req.takesBody e)
    (hv : value (initCgi e) c ≠ 0) : Equipped e (exec (initCgi e) c) := by
  have hw := initCgi_plain e c
  rcases hw.status with hst | hst
  · rcases initCgi_posting e c with h0 | hresp | hkeep
    · exact absurd h0 hv
    · rw [hst, hs] at hresp
      cases hresp
    · obtain ⟨hfd, hsize⟩ := Prod.mk.inj hkeep
      have hr := hw.req
      simp only [Request.steady, Prod.mk.injEq] at hr
      obtain ⟨h1, h2, h3⟩ := hp
      refine ⟨fun _ => ⟨hr.1.trans h1, ?_, ?_⟩, fun hb => ?_⟩
      · rw [hfd]
        exact h2
      · rw [hsize, ← h3, postLength, postLength, hr.2.2.2.2.2.2.2.2.2.1]
      · rw [hst, hs] at hb
        rcases hb with hb | hb <;> cases hb
  · exact .plain e hst

theorem initCgi_waits (hok : ∀ v ∈ c.visits (exec (initCgi e) c), v.keepsOut) :
    value (initCgi e) c ≠ -1 := by
  intro hv
  have hans := initCgi_answers e c
  cases hans with
  | declined h => omega
  | responds hne _ => exact hne hv
  | rejected v h hpush hne =>
    obtain ⟨-, hrej, -⟩ := hok v h.mem
    exact (hrej h.site (hpush ▸ hne)).2 (hpush.trans hv)
  | gzip v h _ hgz =>
    obtain ⟨hgzip, -, -⟩ := hok v h.mem
    rcases hgz with hone | ⟨-, hnone⟩
    · omega
    · exact (hgzip h.site).2 hnone

/-- A request that takes a body has no use for the result of a worker. -/
theorem Equipped.body {r : Request} (hb : r.status.isBody = true) (hp : r.takesBody e)
    (hr : c.req = r) : Equipped e c := by
  refine ⟨fun _ => hr ▸ hp, fun h => ?_⟩
  rw [hr] at h
  rcases h with h | h <;> rw [h] at hb <;> cases hb

theorem readBody_left (h : Equipped e c) (hs : c.req.status = .bodyRead) :
    Left e (exec (readBody e) c) (value (readBody e) c) := by
  have hp : c.req.takesBody e := h.post (by rw [hs]; rfl)
  have hreads := readBody_reads e c
  generalize value (readBody e) c = ret at hreads
  generalize exec (readBody e) c = c' at hreads
  cases hreads with
  | full _ => exact ⟨fun _ => .body e (r := { c.req with status := .bodyWrite }) rfl hp rfl, nofun⟩
  | waits w => exact ⟨fun _ => ⟨h.post, h.buff⟩, fun _ => rfl⟩
  | ends _ => exact ⟨fun h => absurd rfl h, nofun⟩
  | got bs w _ => exact ⟨fun _ => .body e (r := c.req.withBody bs) rfl hp rfl, nofun⟩

theorem writeBody_left (h : Equipped e c) (hs : c.req.status = .bodyWrite)
    (hok : ∀ v ∈ c.visits (exec (writeBody e) c), v.keepsOut) :
    Left e (exec (writeBody e) c) (value (writeBody e) c) := by
  have hp : c.req.takesBody e := h.post (by rw [hs]; rfl)
  have hwrites := writeBody_writes e c
  generalize value (writeBody e) c = ret at hwrites
  generalize exec (writeBody e) c = c' at hwrites hok
  cases hwrites with
  | starts c1 _ _ hc =>
    have hpass : Passed (fun _ => True) c (exec (mark (.bodyDone c.postFile c.body)) c1) := by
      rw [hc]
      exact mark_passed _ _
    have hs1 : (exec (mark (.bodyDone c.postFile c.body)) c1).req.status = .bodyWrite := by
      rw [hc]
      exact hs
    have hp1 : (exec (mark (.bodyDone c.postFile c.body)) c1).req.takesBody e := by
      rw [hc]
      exact hp
    refine ⟨fun hv => initCgi_equipped e hs1 hp1 hv, fun hv => absurd hv (initCgi_waits e ?_)⟩
    exact fun v hmem => hok v (mem_visits_after hpass hmem)
  | empty _ _ =>
    exact ⟨fun _ => .body e (r := { c.req with
      headerArea := .buffer, headerLine := 0, headerEnd := 0, status := .bodyRead }) rfl hp rfl,
      nofun⟩
  | waits w => exact ⟨fun _ => ⟨h.post, h.buff⟩, fun _ => rfl⟩
  | again w => exact ⟨fun _ => ⟨h.post, h.buff⟩, nofun⟩
  | ends _ _ => exact ⟨fun h => absurd rfl h, nofun⟩
  | took k w _ =>
    exact ⟨fun _ => .body e (r := { c.req with
      filepos := c.req.filepos + k, headerLine := c.req.headerLine + k }) (by rw [hs]; rfl) hp rfl,
      nofun⟩

/-- A handler of the statuses of a response. -/
theorem Works.left {m : Srv Int} (hw : Works Status.plain (fun _ => True) m) (ha : Awaits m)
    (hs : c.req.status.plain) : Left e (exec m c) (value m c) := by
  refine ⟨fun _ => .plain e ?_, ha c⟩
  rcases (hw c).status with hst | hst
  · rw [hst]
    exact hs
  · exact hst

theorem cgiWorkResps_equipped (rs : List (Int × List Byte)) (h : Equipped e c) :
    Equipped e (exec (cgiWorkResps rs) c) := by
  induction rs generalizing c with
  | nil => exact h
  | cons r rs ih =>
    obtain ⟨err, data⟩ := r
    simp only [cgiWorkResps, exec_bind]
    apply ih
    by_cases herr : err ≠ 0
    · simp only [cgiWorkResp, if_pos herr]
      exact h
    · simp only [cgiWorkResp, if_neg herr]
      refine ⟨fun hbody => (by cases hbody), fun _ => rfl⟩

theorem pollFromShbuff_left (h : Equipped e c) :
    Left e (exec (pollFromShbuff e) c) (value (pollFromShbuff e) c) := by
  refine ⟨fun _ => ?_, fun hv => absurd hv (pollFromShbuff_neverBlocks e c)⟩
  simp only [pollFromShbuff]
  split
  · simp only [exec_bind, value_get, exec_get]
    split
    · have hresp : Equipped e (exec (cgiWorkResps c.sys.results)
          { c with sys := { c.sys with results := [] } }) :=
        cgiWorkResps_equipped e c.sys.results ⟨h.post, h.buff⟩
      simp only [exec_bind, exec_set, pollCollect, value_getReq, exec_getReq, exec_onlyIf]
      generalize exec (cgiWorkResps c.sys.results) { c with sys := { c.sys with results := [] } } =
        c1 at hresp
      split
      · rename_i hne
        refine ⟨fun hbody => (by cases hbody), fun _ => ?_⟩
        cases hb : c1.req.buff with
        | none =>
          rw [hb] at hne
          cases hne
        | some bs => exact congrArg Option.isSome hb
      · exact hresp
    · exact h
  · exact h

theorem readFromShbuff_left (h : Equipped e c) (hs : c.req.status = .buffRead) :
    Left e (exec (readFromShbuff e) c) (value (readFromShbuff e) c) := by
  have hb := h.buff (.inl hs)
  refine ⟨fun _ => ?_, readFromShbuff_awaits e hb⟩
  obtain ⟨bs, hbs⟩ := Option.isSome_iff_exists.mp hb
  obtain ⟨bs', hw⟩ := readFromShbuff_works (T := fun st => st.isBody = false)
    (S := fun _ => True) e rfl rfl rfl rfl trivial hbs
  have hr := hw.req
  simp only [Request.steady, Prod.mk.injEq] at hr
  refine ⟨fun hbody => ?_, fun _ => ?_⟩
  · rcases hw.status with hst | hst
    · rw [hst] at hbody
      change c.req.status.isBody = true at hbody
      rw [hs] at hbody
      cases hbody
    · rw [hst] at hbody
      cases hbody
  · rw [hr.2.2.2.2.2.2.2.2.2.2]
    rfl

theorem writeFromShbuff_left (h : Equipped e c) (hs : c.req.status = .buffWrite) :
    Left e (exec (writeFromShbuff e) c) (value (writeFromShbuff e) c) := by
  simp only [writeFromShbuff]
  split
  · refine ⟨fun _ => ?_, writeFrom_awaits .buffRead c⟩
    have hw := writeFrom_works (T := fun st => st.isBody = false) (S := fun _ => True)
      (s := .buffRead) rfl rfl c
    have hr := hw.req
    simp only [Request.steady, Prod.mk.injEq] at hr
    refine ⟨fun hbody => ?_, fun _ => ?_⟩
    · rcases hw.status with hst | hst
      · rw [hst, hs] at hbody
        cases hbody
      · rw [hst] at hbody
        cases hbody
    · rw [hr.2.2.2.2.2.2.2.2.2.2]
      exact h.buff (.inr hs)
  · exact ⟨fun hne => absurd rfl hne, fun hm => by cases hm⟩

/-- Every handler keeps the request equipped for the next, and waits when it says so. -/
theorem processStatus_left (h : Equipped e c)
    (hok : ∀ v ∈ c.visits (exec (processStatus e) c), v.keepsOut) :
    Left e (exec (processStatus e) c) (value (processStatus e) c) := by
  have hp := Responding.plain
  simp only [processStatus, value_bind, exec_bind, value_getReq, exec_getReq] at hok ⊢
  cases hst : c.req.status with
  | readHeader | oneCr | oneLf | twoCr =>
    have hs : c.req.status.reading = true := by rw [hst]; rfl
    rw [hst] at hok
    by_cases hv : value (readHeader e) c = 0
    · exact ⟨fun hne => absurd hv hne, fun hm => absurd (hv.symm.trans hm) (by decide)⟩
    · have hleft := readHeader_left e hs hv hok
      exact ⟨fun _ => hleft.equipped, hleft.waits⟩
  | bodyRead => exact readBody_left e h hst
  | bodyWrite =>
    rw [hst] at hok
    exact writeBody_left e h hst hok
  | write =>
    have hs : c.req.status.plain := by rw [hst]; decide
    exact (processGet_works e hp.dead hp.done trivial fun _ _ => trivial).left e (processGet_awaits e) hs
  | buffPoll => exact pollFromShbuff_left e h
  | buffRead => exact readFromShbuff_left e h hst
  | buffWrite => exact writeFromShbuff_left e h hst
  | pipeRead =>
    have hs : c.req.status.plain := by rw [hst]; decide
    exact (readFromPipe_works e hp.dead hp.done (by decide) (by decide) trivial).left e
      (readFromPipe_awaits e) hs
  | pipeWrite =>
    have hs : c.req.status.plain := by rw [hst]; decide
    exact (writeFrom_works hp.dead hp.pipeRead).left e (writeFrom_awaits .pipeRead) hs
  | ioshuffle =>
    have hs : c.req.status.plain := by rw [hst]; decide
    rw [hst] at hok
    dsimp only at hok ⊢
    split
    · rename_i hsend
      rw [if_pos hsend] at hok
      have hw := ioShuffleSendfile_works (T := Status.plain) (S := fun _ => True) e hp.dead hp.done
        trivial (fun _ _ => trivial) trivial c
      refine ⟨fun _ => .plain e ?_, fun hv => ioShuffleSendfile_awaits e hv fun v hmem => ?_⟩
      · rcases hw.status with hst' | hst'
        · rw [hst']
          exact hs
        · exact hst'
      · exact (hok v hmem).2.2
    · exact (ioShuffle_works e hp.dead hp.done trivial fun _ _ => trivial).left e
        (ioShuffle_awaits e) hs
  | done =>
    have hs : c.req.status.plain := by rw [hst]; decide
    exact (processDone_works e hp.dead).left e (processDone_awaits e) hs
  | timedOut | dead => exact ⟨fun hne => absurd rfl hne, fun hm => by cases hm⟩

theorem TurnEnd.equipped {ret : Int} (h : TurnEnd c ret c') (hc : ret ≠ 0 → Equipped e c)
    (hne : c'.place ≠ .free) : Equipped e c' := by
  cases h with
  | blocked hret hcore hs _ _ =>
    have hr : ret ≠ 0 := by omega
    exact (hc hr).core e hcore (.inl hs)
  | goesOn hret hcore hs _ _ =>
    have hr : ret ≠ 0 := by omega
    exact (hc hr).core e hcore (.inl hs)
  | dies _ _ hs _ _ =>
    apply Equipped.plain
    rw [hs]
    decide
  | flushing _ _ hs _ _ =>
    apply Equipped.plain
    rcases hs with hs | hs <;> rw [hs] <;> decide
  | closed _ hp _ => exact absurd hp hne
  | recycled _ _ _ _ hr _ _ _ _ _ _ =>
    apply Equipped.plain
    rw [hr]
    decide

theorem processRequest_equipped (h : Equipped e c)
    (hok : ∀ v ∈ c.visits (exec (processRequest e) c), v.keepsOut) :
    ((exec (processRequest e) c).place ≠ .free → Equipped e (exec (processRequest e) c)) ∧
      (value (topFlush e) c = 1 → Dispatches e (c.dispatched e)) := by
  have hidle := dispatched_idled e c
  have hd : Equipped e (c.dispatched e) := h.core e hidle.core hidle.status
  have hleft : value (topFlush e) c = 1 → Left e (exec (processStatus e) (c.dispatched e))
      (value (processStatus e) (c.dispatched e)) := by
    intro hv
    apply processStatus_left e hd
    exact fun v hmem => hok v (processRequest_visits e hv hmem)
  refine ⟨?_, fun hv => ⟨hd.post, fun hs hret hm => ?_, (hleft hv).waits⟩⟩
  · rcases processRequest_run e c with ⟨hv, hrun⟩ | ⟨-, hrun⟩
    · rw [hrun]
      exact (settle_turnEnd e _ _).equipped e (hleft hv).equipped
    · have hflush := topFlush_idles e c
      rw [hrun]
      exact (settle_turnEnd e _ _).equipped e fun _ => h.core e hflush.core hflush.status
  · obtain ⟨hval, hrun⟩ := processStatus_reading e hs
    have hvis := fun v hmem => hok v (processRequest_visits e hv hmem)
    rw [hrun] at hvis hm ⊢
    rw [hval] at hret
    exact (readHeader_left e hs hret hvis).answered hm

/-- The invariant of a connection. -/
def KeepsEquipped (e : Config) (c : Conn) : Prop := c.place ≠ .free → Equipped e c

theorem step_equipped (ev : Ev) (h : KeepsEquipped e c)
    (hok : ∀ v ∈ c.visits (step e c ev), v.keepsOut) :
    KeepsEquipped e (step e c ev) ∧ ev.dispatches e c := by
  cases ev with
  | process w =>
    simp only [step, Ev.dispatches] at hok ⊢
    by_cases hp : c.place = .ready
    · rw [if_pos hp] at hok ⊢
      have hne : c.place ≠ .free := by
        rw [hp]
        decide
      obtain ⟨hnext, hdisp⟩ := processRequest_equipped (c := { c with sys := w, waits := none }) e
        ⟨(h hne).post, (h hne).buff⟩ hok
      exact ⟨hnext, fun _ => hdisp⟩
    · rw [if_neg hp]
      exact ⟨h, fun hready => absurd hready hp⟩
  | select w readyR readyW =>
    refine ⟨?_, trivial⟩
    simp only [step]
    by_cases hp : c.place = .block
    · rw [if_pos hp]
      have hne : c.place ≠ .free := by
        rw [hp]
        decide
      intro _
      rcases select_outcome e readyR readyW { c with sys := w } with hw | ⟨v, -, hw⟩
      · refine ⟨?_, ?_⟩
        · rw [hw.req]
          exact (h hne).post
        · rw [hw.req]
          exact (h hne).buff
      · apply Equipped.plain
        rw [hw.req]
        change Status.plain .timedOut
        decide
    · rw [if_neg hp]
      exact h
  | results rs =>
    refine ⟨fun hne => ?_, trivial⟩
    have hscan := cgiWorkResps_scanned (T := fun _ => True) (S := fun _ => True) trivial trivial rs c
    have hfree : c.place ≠ .free := hscan.place ▸ hne
    exact cgiWorkResps_equipped e rs (h hfree)

theorem accepted_equipped (h : Accepted e c) : KeepsEquipped e c := by
  intro _
  apply Equipped.plain
  obtain ⟨c0, now, fd, localIp, remoteIp, port, hc | hc⟩ := h
  · rw [hc]
    change Status.plain .readHeader
    decide
  · have hw := refuseConn_works (T := Status.plain) (S := fun _ => True) e (by decide) (by decide)
      trivial (acceptConn e now fd localIp remoteIp port c0)
    rw [hc]
    rcases hw.status with hs | hs
    · rw [hs]
      change Status.plain .readHeader
      decide
    · exact hs

end Handlers

/-- In a run without these branches only a POST with the file and the length of its body
comes to the handlers of a body, and a handler that says so waits for a descriptor. -/
theorem body_dispatched (e : Config) (c : Conn) (evs : List Ev) (h : Accepted e c)
    (hok : Run.AllSteps (step e) (fun t ev => ∀ v ∈ t.visits (step e t ev), v.keepsOut) c evs) :
    Run.AllSteps (step e) (fun t ev => ev.dispatches e t) c evs :=
  Run.allSteps (I := KeepsEquipped e) (fun _ ev hi hv => (step_equipped e ev hi hv).1)
    (fun _ ev hi hv => (step_equipped e ev hi hv).2) (accepted_equipped e h) hok

def fresh : Conn := acceptConn {} 0 5 [] [] 0 {}

/-! A POST to a program. -/

def postConfig : Config where
  aliasHashtable _ := [⟨str "/s", str "/b", .scriptAlias⟩]

def postWorld : World where
  stat _ := some .reg
  accessRX _ := true
  tmpfile := some 7
  cloexec := true
  post := [.done 2]
  cgiPipe := some 9
  nonblock := true
  fork := true

def postRun : List Ev :=
  [.process { postWorld with
      recv := [.data (str "POST /s HTTP/1.0\nContent-Length: 2\n\nab")] },
    .process postWorld, .process postWorld, .process postWorld]

theorem body_dispatched_post :
    Run.AllSteps (step postConfig) (fun t ev => ev.dispatches postConfig t) fresh postRun ∧
      (Run.final (step postConfig) fresh postRun).req.status = .pipeRead :=
  ⟨body_dispatched postConfig fresh postRun ⟨{}, 0, 5, [], [], 0, .inl rfl⟩
    ⟨by decide +kernel, by decide +kernel, by decide +kernel, by decide +kernel, trivial⟩,
    by decide +kernel⟩

/-! A GET for a page that is there in its compressed form only. -/

def gzipConfig : Config where
  build := { gunzip := true }
  docroot := some (str "/w")

def gzipWorld : World where
  stat path := if path = str "/w/a.gz" then some .reg else none
  gzopen := some []
  sock := [.done 4096]

def gzipEvents : List Ev :=
  [.process { gzipWorld with recv := [.data (str "GET /a HTTP/1.0\n\n")] },
    .process gzipWorld, .process gzipWorld]

/-- The gzip handler leaves it in the status of a body, and `read_body` runs for a GET. -/
theorem body_dispatched_get :
    Accepted gzipConfig fresh ∧
      ¬Run.AllSteps (step gzipConfig) (fun t ev => ev.dispatches gzipConfig t) fresh gzipEvents := by
  refine ⟨⟨{}, 0, 5, [], [], 0, .inl rfl⟩, fun h => ?_⟩
  obtain ⟨-, -, hlast, -⟩ := h
  have hpost := (hlast (by decide +kernel) (by decide +kernel)).post (by decide +kernel)
  exact absurd hpost.1 (by decide +kernel)

end Crotalus
