import Crotalus.Framework.Run
import Crotalus.Spec.Count
import Crotalus.Spec.Body
import Crotalus.Properties.BodyDispatch

namespace Crotalus

open Stateful ByteMem

/-! The body of a POST on its way to the program: what is in the file, in the window and
still to come. -/

/-- The bytes that wait to be written to the file. -/
def Request.window (r : Request) : List Byte := r.bodyBytes (r.headerEnd - r.headerLine)

/-- The end of the place the window lies in. -/
def Request.windowRoom (r : Request) : Nat :=
  match r.headerArea with
  | .stream => r.clientStream.length
  | .buffer => bufferSize

/-- While a body is taken: the file and the window are the first bytes of it, up to its
length, and nothing more than its length is read. -/
structure InBody (e : Config) (c : Conn) : Prop where
  size : postLength e c.req = some c.req.filesize
  order : c.req.headerLine ≤ c.req.headerEnd
  room : c.req.headerEnd ≤ c.req.windowRoom
  stream : c.req.clientStream.length ≤ clientStreamSize
  file : c.postFile ++ c.req.window = c.body.take c.req.filesize
  pos : c.req.filepos = c.postFile.length
  reads : c.req.status = .bodyRead → c.req.headerArea = .buffer ∧ c.req.headerLine = 0 ∧
    c.req.headerEnd = 0 ∧ c.req.filepos < c.req.filesize

theorem postLength_lt {e : Config} {r : Request} {n : Nat} (h : postLength e r = some n) :
    n < 2^31 := by
  have hatoi : ∀ s : Text, boaAtoi s < 2^31 := by
    intro s
    have hi32 : ∀ x : Int, i32 x < 2^31 := by
      intro x
      have hb := Int.bmod_lt (x := x) (m := 2^32) (by decide)
      rw [i32]
      omega
    unfold boaAtoi
    split
    · decide
    · split
      · decide
      · split
        · decide
        · split
          · exact hi32 _
          · decide
  unfold postLength at h
  split at h
  · cases h
  · rename_i x hx
    obtain ⟨s, -, hs⟩ := Option.map_eq_some_iff.mp hx
    have hlt := hatoi s
    split at h
    · cases h
    · split at h
      · cases h
      · have hn := Option.some.inj h
        omega

section Window

variable {e : Config} {c : Conn}

theorem InBody.window_length (h : InBody e c) :
    c.req.window.length = c.req.headerEnd - c.req.headerLine := by
  have hroom := h.room
  unfold Request.window Request.bodyBytes
  unfold Request.windowRoom at hroom
  cases ha : c.req.headerArea with
  | stream =>
    rw [ha] at hroom
    simp only [List.length_take, List.length_drop]
    dsimp only at hroom
    omega
  | buffer => exact length_slice _ _ _

theorem InBody.small (h : InBody e c) : c.req.headerEnd ≤ clientStreamSize := by
  have hroom := h.room
  have hstream := h.stream
  unfold Request.windowRoom at hroom
  split at hroom
  · omega
  · exact Nat.le_trans hroom (by decide)

/-- What is in the file and in the window does not exceed the length. -/
theorem InBody.within (h : InBody e c) :
    c.req.filepos + (c.req.headerEnd - c.req.headerLine) ≤ c.req.filesize := by
  have hlen : (c.postFile ++ c.req.window).length ≤ c.req.filesize := by
    rw [h.file]
    exact List.length_take_le _ _
  rw [List.length_append, h.window_length, ← h.pos] at hlen
  exact hlen

theorem InBody.bodyCount (h : InBody e c) :
    c.req.bodyCount = c.req.headerEnd - c.req.headerLine := by
  have hsmall := h.small
  have hwithin := h.within
  have hu : u32 (c.req.headerEnd - c.req.headerLine) = c.req.headerEnd - c.req.headerLine := by
    apply Nat.mod_eq_of_lt
    unfold clientStreamSize at hsmall
    omega
  unfold Request.bodyCount
  rw [hu]
  exact if_neg (by omega)

/-- A read asks for no more than what is still to come. -/
theorem InBody.bodyWant (h : InBody e c) : c.req.bodyWant ≤ c.req.filesize - c.req.filepos := by
  have hwithin := h.within
  have hlt := postLength_lt h.size
  have hu : u32 (u64 (c.req.filesize + 2^64 - c.req.filepos)) = c.req.filesize - c.req.filepos := by
    have h64 : u64 (c.req.filesize + 2^64 - c.req.filepos) = c.req.filesize - c.req.filepos := by
      have hsub : c.req.filesize + 2^64 - c.req.filepos = c.req.filesize - c.req.filepos + 2^64 := by
        omega
      rw [u64, hsub, Nat.add_mod_right, Nat.mod_eq_of_lt (by omega)]
    rw [h64, u32, Nat.mod_eq_of_lt (by omega)]
  rw [Request.bodyWant, hu]
  exact Nat.min_le_left _ _

/-- Before a read the whole body that has come is in the file. -/
theorem InBody.arrived (h : InBody e c) (hs : c.req.status = .bodyRead) :
    c.req.window = [] ∧ c.body = c.postFile ∧ c.body.length < c.req.filesize := by
  obtain ⟨ha, hl, hr, hlt⟩ := h.reads hs
  have hw : c.req.window = [] := by
    rw [Request.window, Request.bodyBytes, ha, hl, hr]
    rfl
  have hfile := h.file
  rw [hw, List.append_nil] at hfile
  have hlen : c.body.length < c.req.filesize := by
    by_contra hge
    have htake : (c.body.take c.req.filesize).length = c.req.filesize :=
      List.length_take_of_le (by omega)
    rw [← hfile, ← h.pos] at htake
    omega
  rw [List.take_of_length_le (by omega)] at hfile
  exact ⟨hw, hfile.symm, hlen⟩

/-- The body is complete in the file when nothing is left to write. -/
theorem InBody.complete (h : InBody e c) (hn : c.req.bodyCount = 0)
    (hpos : c.req.filesize ≤ c.req.filepos) :
    c.postFile = c.body.take c.req.filesize ∧ c.postFile.length = c.req.filesize := by
  rw [h.bodyCount] at hn
  have hwithin := h.within
  have hw : c.req.window = [] := List.eq_nil_of_length_eq_zero (h.window_length.trans hn)
  have hfile := h.file
  rw [hw, List.append_nil] at hfile
  exact ⟨hfile, by rw [← h.pos]; omega⟩

theorem InBody.same {c' : Conn} (h : InBody e c) (hr : c'.req = c.req)
    (hp : c'.postFile = c.postFile) (hb : c'.body = c.body) : InBody e c' := by
  obtain ⟨h1, h2, h3, h4, h5, h6, h7⟩ := h
  refine ⟨?_, ?_, ?_, ?_, ?_, ?_, ?_⟩
  · rw [hr]; exact h1
  · rw [hr]; exact h2
  · rw [hr]; exact h3
  · rw [hr]; exact h4
  · rw [hr, hp, hb]; exact h5
  · rw [hr, hp]; exact h6
  · rw [hr]; exact h7

/-- The end of a header: all that is buffered behind it, up to the length, is the window. -/
theorem inBody_start {n : Nat} (hn : postLength e c.req = some n) (hf : c.postFile = [])
    (hpos : c.req.parsePos ≤ c.req.clientStream.length)
    (hs : c.req.clientStream.length ≤ clientStreamSize) :
    InBody e { c with
      body := c.req.clientStream.drop c.req.parsePos, req := c.req.startsBody n } := by
  have hu : u32 (c.req.clientStream.length - c.req.parsePos) =
      c.req.clientStream.length - c.req.parsePos := by
    apply Nat.mod_eq_of_lt
    unfold clientStreamSize at hs
    omega
  have hend : (c.req.startsBody n).headerEnd = c.req.parsePos +
      min n (c.req.clientStream.length - c.req.parsePos) := by
    simp only [Request.startsBody, hu]
    split <;> omega
  refine ⟨hn, ?_, ?_, hs, ?_, ?_, nofun⟩
  · rw [hend]
    exact Nat.le_add_right _ _
  · rw [hend]
    change _ ≤ c.req.clientStream.length
    omega
  · have hwin : (c.req.startsBody n).window = (c.req.clientStream.drop c.req.parsePos).take
        (min n (c.req.clientStream.length - c.req.parsePos)) := by
      have hline : (c.req.startsBody n).headerLine = c.req.parsePos := rfl
      rw [Request.window, hend, hline, Nat.add_sub_cancel_left]
      rfl
    change c.postFile ++ (c.req.startsBody n).window = _
    rw [hf, hwin, List.nil_append]
    change _ = (c.req.clientStream.drop c.req.parsePos).take n
    rw [List.take_eq_take_iff, List.length_drop]
    omega
  · change 0 = c.postFile.length
    rw [hf]
    rfl

theorem InBody.got {bs : List Byte} {w : World} (h : InBody e c) (hs : c.req.status = .bodyRead)
    (hlen : bs.length ≤ c.req.bodyWant) :
    InBody e { c with
      req := c.req.withBody bs, sys := w, input := c.input ++ bs, body := c.body ++ bs } := by
  obtain ⟨ha, hl, hr, -⟩ := h.reads hs
  obtain ⟨-, hbody, hlt⟩ := h.arrived hs
  have hwant := h.bodyWant
  have hfit : c.body.length + bs.length ≤ c.req.filesize := by
    rw [hbody, ← h.pos]
    have hwithin := h.within
    omega
  have hbuf : bs.length ≤ bufferSize := by
    have hroom : c.req.bodyWant ≤ u32 (bufferSize + 2^32 - (c.req.headerEnd - c.req.headerLine)) :=
      Nat.min_le_right _ _
    have hu : u32 (bufferSize + 2^32 - (c.req.headerEnd - c.req.headerLine)) = bufferSize := by
      rw [hl, hr]
      rfl
    omega
  have hwin : (c.req.withBody bs).window = bs := by
    have harea : (c.req.withBody bs).headerArea = .buffer := ha
    rw [Request.window, Request.bodyBytes, harea]
    change slice (store c.req.buffer c.req.headerEnd bs) c.req.headerLine
      (c.req.headerEnd + bs.length - c.req.headerLine) = bs
    rw [hl, hr, Nat.zero_add, Nat.sub_zero]
    exact slice_store _ _ _
  refine ⟨h.size, ?_, ?_, h.stream, ?_, h.pos, nofun⟩
  · change c.req.headerLine ≤ c.req.headerEnd + bs.length
    omega
  · have harea : (c.req.withBody bs).headerArea = .buffer := ha
    change c.req.headerEnd + bs.length ≤ (c.req.withBody bs).windowRoom
    rw [Request.windowRoom, harea, hr, Nat.zero_add]
    exact hbuf
  · change c.postFile ++ (c.req.withBody bs).window = (c.body ++ bs).take c.req.filesize
    rw [hwin, ← hbody, List.take_of_length_le]
    rw [List.length_append]
    exact hfit

theorem InBody.emptied (h : InBody e c) (hn : c.req.bodyCount = 0)
    (hpos : c.req.filepos < c.req.filesize) :
    InBody e { c with req := { c.req with
      headerArea := .buffer, headerLine := 0, headerEnd := 0, status := .bodyRead } } := by
  rw [h.bodyCount] at hn
  have hw : c.req.window = [] := List.eq_nil_of_length_eq_zero (h.window_length.trans hn)
  have hfile := h.file
  rw [hw] at hfile
  refine ⟨h.size, Nat.le_refl 0, Nat.zero_le _, h.stream, ?_, h.pos, fun _ => ⟨rfl, rfl, rfl, hpos⟩⟩
  exact hfile

theorem InBody.took {k : Nat} {w : World} (h : InBody e c) (hs : c.req.status = .bodyWrite)
    (hk : k ≤ (c.req.bodyBytes c.req.bodyCount).length) :
    InBody e { c with
      req := { c.req with filepos := c.req.filepos + k, headerLine := c.req.headerLine + k }
      postFile := c.postFile ++ (c.req.bodyBytes c.req.bodyCount).take k, sys := w } := by
  have hbytes : c.req.bodyBytes c.req.bodyCount = c.req.window := by
    rw [h.bodyCount]
    rfl
  rw [hbytes] at hk ⊢
  have hlen := h.window_length
  have horder := h.order
  have hdrop : ({ c.req with
      filepos := c.req.filepos + k, headerLine := c.req.headerLine + k } : Request).window =
        c.req.window.drop k := by
    unfold Request.window Request.bodyBytes
    cases ha : c.req.headerArea with
    | stream =>
      simp only [List.drop_take, List.drop_drop]
      rw [Nat.sub_add_eq]
    | buffer =>
      simp only
      rw [slice_drop _ _ _ _ (by omega), Nat.sub_add_eq]
  refine ⟨h.size, ?_, h.room, h.stream, ?_, ?_, fun hr => ?_⟩
  · change c.req.headerLine + k ≤ c.req.headerEnd
    omega
  · change c.postFile ++ c.req.window.take k ++ _ = _
    rw [hdrop, List.append_assoc, List.take_append_drop]
    exact h.file
  · change c.req.filepos + k = (c.postFile ++ c.req.window.take k).length
    rw [List.length_append, List.length_take_of_le hk, h.pos]
  · change c.req.status = .bodyRead at hr
    rw [hs] at hr
    cases hr

end Window

/-! What a run shows of it. -/

/-- `write_body` starts the program of a POST. -/
def Visit.startsProgram (v : Visit) : Bool :=
  match v.site with
  | .bodyDone _ _ => v.req.method = .post
  | _ => false

/-- A program starts with the first bytes of its body, as many as announced, in its file. -/
def Visit.delivered (e : Config) (v : Visit) : Prop :=
  ∀ file body, v.site = .bodyDone file body → v.req.method = .post →
    ∃ n, postLength e v.req = some n ∧ file = body.take n ∧ file.length = n

/-- The pool does not refuse the job of a POST with a number that keeps it in its status. -/
def Visit.keepsProgram (v : Visit) : Prop :=
  v.site = .pushWork → v.req.method = .post → v.sys.shprocPush ≠ 1 ∧ v.sys.shprocPush ≠ -1

instance (v : Visit) : Decidable v.keepsProgram := by
  unfold Visit.keepsProgram
  infer_instance

def Status.beforeProgram (st : Status) : Bool := st.reading || st.isBody

def Site.notBody (s : Site) : Prop := s ≠ .sanitize ∧ ∀ file body, s ≠ .bodyDone file body

theorem startsProgram_eq_false {v : Visit} (h : ∀ file body, v.site ≠ .bodyDone file body) :
    v.startsProgram = false := by
  unfold Visit.startsProgram
  split
  · exact absurd ‹_› (h _ _)
  · rfl

theorem quiet_notBody (v : Visit) (h : v.site.notBody) : v.quiet Visit.startsProgram :=
  ⟨h.1, startsProgram_eq_false h.2⟩

theorem fits_startsProgram : Fits Visit.startsProgram Status.beforeProgram := by
  refine ⟨rfl, rfl, rfl, rfl, ?_, ?_, ?_⟩
  all_goals
    intro v hv
    apply startsProgram_eq_false
    rw [hv]
    exact fun _ _ => nofun

theorem Responding.notBody : Responding (fun st => st.beforeProgram = false) Site.notBody := by
  constructor <;> intros <;> first | rfl | exact ⟨nofun, fun _ _ => nofun⟩

theorem Turning.notBody : Turning (fun st => st.beforeProgram = false) Site.notBody := by
  refine ⟨.notBody, rfl, rfl, rfl, ?_, ?_, ?_⟩
  all_goals exact ⟨nofun, fun _ _ => nofun⟩

theorem Reads.notBody : Reads Site.notBody := by
  refine ⟨?_, ⟨nofun, fun _ _ => nofun⟩, ?_⟩
  · rintro s (rfl | rfl) <;> exact ⟨nofun, fun _ _ => nofun⟩
  · constructor <;> intros <;> first | trivial | exact ⟨nofun, fun _ _ => nofun⟩

theorem Passed.delivered {e : Config} {c c' : Conn} (h : Passed Site.notBody c c') :
    ∀ v ∈ c.visits c', v.delivered e := by
  intro v hv file body hsite
  exact absurd hsite ((h.visit hv).2 file body)

/-- What a handler leaves of a request that may take a body. -/
structure Handles (e : Config) (c0 c c' : Conn) (ret : Int) : Prop where
  once : HandledOnce Visit.startsProgram Status.beforeProgram c0 c' ret
  delivered : ∀ v ∈ c.visits c', v.delivered e
  body : ret = 1 ∨ ret = -1 → c'.req.method = .post → c'.req.status.isBody = true → InBody e c'
  stream : c'.req.clientStream.length ≤ clientStreamSize

section Handlers

variable (e : Config) {c0 c : Conn}

theorem not_isBody_reading {st : Status} (h : st.reading = true) : st.isBody = false :=
  (reading_plain h).1

/-- Behind the blank line of a POST its body starts. -/
theorem headerDone_body (hpos : c.req.parsePos ≤ c.req.clientStream.length)
    (hstream : c.req.clientStream.length ≤ clientStreamSize)
    (hv : value (headerDone e) c ≠ 0) (hpost : (exec (headerDone e) c).req.method = .post) :
    InBody e (exec (headerDone e) c) := by
  obtain ⟨host, hw⟩ := headerDone_works e Responding.all trivial c
  have hr := hw.req
  simp only [Request.steady, Prod.mk.injEq] at hr
  have hm : c.req.method = .post := hr.1.symm.trans hpost
  have hopen := processHeaderEnd_opens e (exec (mark .headerEnd) c) hm
  obtain ⟨host', hw'⟩ := processHeaderEnd_works e (exec (mark .headerEnd) c) Responding.all
  have hr' := hw'.req
  simp only [Request.steady, Prod.mk.injEq] at hr'
  simp only [headerDone, value_bind, exec_bind, value_getReq, exec_getReq] at hv ⊢
  change value (endHeader e) c = 0 ∨ (value (endHeader e) c = 1 ∧
    (exec (endHeader e) c).req.postDataFd ≠ 0 ∧ (exec (endHeader e) c).postFile = []) at hopen
  have hstart : (exec (endHeader e) c).req.parsePos = c.req.parsePos ∧
      (exec (endHeader e) c).req.clientStream = c.req.clientStream ∧
      (exec (endHeader e) c).req.method = .post :=
    ⟨hr'.2.2.2.2.2.1, hr'.2.2.2.2.2.2.1, hr'.1.trans hm⟩
  generalize value (endHeader e) c = ret at hv hopen
  generalize exec (endHeader e) c = c1 at hv hopen hstart ⊢
  obtain ⟨hp1, hs1, hm1⟩ := hstart
  by_cases hret : ret ≠ 0 ∧ c1.req.method = .post
  · simp only [if_pos hret] at hv ⊢
    have hfile : c1.postFile = [] := (hopen.resolve_left hret.1).2.2
    rcases startBody_starts e c1 ret with h0 | ⟨n, hn, -, hrun⟩
    · exact absurd h0 hv
    · rw [hrun]
      exact inBody_start hn hfile (by rw [hp1, hs1]; exact hpos) (by rw [hs1]; exact hstream)
  · simp only [if_neg hret] at hv
    exact absurd ⟨hv, hm1⟩ hret

theorem readHeader_handles (h : Counted Visit.startsProgram 0 c0 c)
    (hs : c.req.status.reading = true)
    (hstream : c.req.clientStream.length ≤ clientStreamSize) :
    Handles e c0 c (exec (readHeader e) c) (value (readHeader e) c) := by
  obtain ⟨-, hpass⟩ := readHeader_frame e .notBody hs
  refine ⟨.unseen (h.passed hpass quiet_notBody), hpass.delivered, ?_, ?_⟩
  · intro hret hpost hbody
    rcases readHeader_cases e hs with ⟨ret, c', hstep, hv, he⟩ | ⟨c', hadv, hs', hv, he⟩
    · rw [he] at hpost hbody ⊢
      rw [hv] at hret
      cases hstep with
      | refused _ _ _ => omega
      | @short k c1 hadv hst _ =>
        rcases endHeader_plain e c1 with hp | hp
        · rw [hp, hst] at hbody
          cases hbody
        · rw [hp.1] at hbody
          cases hbody
      | @ended k c1 hk hadv _ =>
        apply headerDone_body e ?_ ?_ (by omega) hpost
        · rw [hadv.pos, hadv.stream]
          omega
        · rw [hadv.stream]
          exact hstream
    · rw [he] at hbody
      obtain ⟨-, -, -, hmore⟩ := readMore_outcome c'
      rcases hmore with h0 | ⟨hst, -⟩
      · omega
      · rw [hst, not_isBody_reading hs'] at hbody
        cases hbody
  · rcases readHeader_cases e hs with ⟨ret, c', hstep, -, he⟩ | ⟨c', hadv, -, -, he⟩
    · rw [he]
      cases hstep with
      | refused _ hkeep _ =>
        rw [hkeep]
        exact hstream
      | @short k c1 hadv _ _ =>
        obtain ⟨host, hw⟩ := processHeaderEnd_works e (exec (mark .headerEnd) c1) Responding.all
        have hkeep : (exec (endHeader e) c1).req.clientStream = c1.req.clientStream :=
          hw.scanned.stream
        rw [hkeep, hadv.stream]
        exact hstream
      | @ended k c1 _ hadv _ =>
        obtain ⟨host, hw⟩ := headerDone_works e Responding.all trivial c1
        have hkeep : (exec (headerDone e) c1).req.clientStream = c1.req.clientStream :=
          hw.scanned.stream
        rw [hkeep, hadv.stream]
        exact hstream
    · rw [he]
      apply readMore_stream
      rw [hadv.stream]
      exact hstream

theorem readBody_handles (h : Counted Visit.startsProgram 0 c0 c) (hs : c.req.status = .bodyRead)
    (hin : c.req.method = .post → InBody e c)
    (hstream : c.req.clientStream.length ≤ clientStreamSize) :
    Handles e c0 c (exec (readBody e) c) (value (readBody e) c) := by
  have hw := readBody_works (T := fun _ => True) (S := Site.notBody) e trivial trivial c
  have hkeep := hw.scanned.stream
  refine ⟨.unseen (h.passed hw.passed quiet_notBody), hw.passed.delivered, ?_, ?_⟩
  · have hr := hw.req
    simp only [Request.steady, Prod.mk.injEq] at hr
    intro hret hpost _
    have hi := hin (hr.1.symm.trans hpost)
    have hreads := readBody_reads e c
    generalize value (readBody e) c = ret at hreads hret
    generalize exec (readBody e) c = c' at hreads
    cases hreads with
    | full _ => exact ⟨hi.size, hi.order, hi.room, hi.stream, hi.file, hi.pos, nofun⟩
    | waits w => exact hi.same rfl rfl rfl
    | ends _ => omega
    | got bs w hlen => exact hi.got hs hlen
  · rw [hkeep]
    exact hstream

theorem initCgi_notBody (c : Conn) :
    Worked (fun st => st.beforeProgram = false) Site.notBody c (exec (initCgi e) c) :=
  have h := Responding.notBody
  initCgi_works (T := fun st => st.beforeProgram = false) (S := Site.notBody) e h.dead h.pipeRead
    h.buffPoll h.startCgi h.pushWork c

/-- The program of a POST takes the request over, or closes it. -/
theorem initCgi_taken (hm : c.req.method = .post)
    (hok : ∀ v ∈ c.visits (exec (initCgi e) c), v.keepsProgram)
    (hret : value (initCgi e) c = 1 ∨ value (initCgi e) c = -1) :
    (exec (initCgi e) c).req.status.beforeProgram = false := by
  have hans := initCgi_answers e c
  cases hans with
  | declined h => omega
  | responds _ hs =>
    generalize (exec (initCgi e) c).req.status = st at hs
    cases st <;> first | rfl | cases hs
  | rejected v h hpush _ =>
    obtain ⟨h1, h2⟩ := hok v h.mem h.site (h.method.trans hm)
    omega
  | gzip v h hne _ => exact absurd hm hne

/-- The state in which `write_body` calls `init_cgi`. -/
def Conn.bodyEnded (c : Conn) : Conn :=
  exec (mark (.bodyDone c.postFile c.body)) { c with req := { c.req with
    headerArea := .buffer, headerLine := 0, headerEnd := 0 } }

theorem bodyEnded_counted (h : Counted Visit.startsProgram 0 c0 c) :
    ∃ n, Counted Visit.startsProgram n c0 c.bodyEnded ∧ (c.req.method ≠ .post → n = 0) := by
  by_cases hm : c.req.method = .post
  · refine ⟨1, h.first (v := ⟨.bodyDone c.postFile c.body, _, c.sys⟩) nofun ?_ rfl, fun hne => ?_⟩
    · exact decide_eq_true hm
    · exact absurd hm hne
  · refine ⟨0, h.other (v := ⟨.bodyDone c.postFile c.body, _, c.sys⟩) ⟨nofun, ?_⟩ rfl, fun _ => rfl⟩
    exact decide_eq_false hm

/-- The body of a POST is in the file when its program is started. -/
theorem bodyEnded_delivered (hin : c.req.method = .post → InBody e c)
    (hn : c.req.bodyCount = 0) (hpos : c.req.filesize ≤ c.req.filepos) :
    ∀ v ∈ c.visits c.bodyEnded, v.delivered e := by
  have hvisits : c.visits c.bodyEnded = [⟨.bodyDone c.postFile c.body, { c.req with
      headerArea := .buffer, headerLine := 0, headerEnd := 0 }, c.sys⟩] := visits_of_append rfl
  intro v hv file body hsite hm
  rw [hvisits] at hv
  rw [List.mem_singleton.mp hv] at hsite hm ⊢
  obtain ⟨hf, hb⟩ := Site.bodyDone.inj hsite
  have hi := hin hm
  obtain ⟨htake, hlen⟩ := hi.complete hn hpos
  exact ⟨c.req.filesize, hi.size, by rw [← hf, ← hb]; exact htake, by rw [← hf]; exact hlen⟩

/-- `init_cgi` called by `write_body`. -/
theorem program_handles (h : Counted Visit.startsProgram 0 c0 c)
    (hin : c.req.method = .post → InBody e c)
    (hstream : c.req.clientStream.length ≤ clientStreamSize)
    (hn : c.req.bodyCount = 0) (hpos : c.req.filesize ≤ c.req.filepos)
    (hok : ∀ v ∈ c.visits (exec (initCgi e) c.bodyEnded), v.keepsProgram) :
    Handles e c0 c (exec (initCgi e) c.bodyEnded) (value (initCgi e) c.bodyEnded) := by
  obtain ⟨n, hcount, hget⟩ := bodyEnded_counted h
  have hended := bodyEnded_delivered e hin hn hpos
  have hmark : Passed (fun _ => True) c c.bodyEnded := mark_passed _ _
  have hm : c.bodyEnded.req.method = c.req.method := rfl
  have hs : c.bodyEnded.req.clientStream = c.req.clientStream := rfl
  generalize c.bodyEnded = c1 at hcount hended hmark hm hs hok
  have hw := initCgi_notBody e c1
  have hcount' := hcount.passed hw.passed quiet_notBody
  have htaken := initCgi_taken e (c := c1)
  have hr := hw.req
  simp only [Request.steady, Prod.mk.injEq] at hr
  have hpost : ∀ hret : value (initCgi e) c1 = 1 ∨ value (initCgi e) c1 = -1,
      (exec (initCgi e) c1).req.method = .post →
        (exec (initCgi e) c1).req.status.beforeProgram = false := by
    intro hret hp
    apply htaken (hr.1.symm.trans hp) ?_ hret
    exact fun v hmem => hok v (mem_visits_after hmark hmem)
  refine ⟨⟨⟨n, hcount'⟩, fun hret hearly => ?_⟩, ?_, fun hret hp hbody => ?_, ?_⟩
  · by_cases hp : c.req.method = .post
    · rw [hpost hret (hr.1.trans (hm.trans hp))] at hearly
      cases hearly
    · rw [hget hp] at hcount'
      exact hcount'
  · intro v hv
    rw [visits_trans hmark hw.passed] at hv
    rcases List.mem_append.mp hv with hv | hv
    · exact hended v hv
    · exact hw.passed.delivered v hv
  · have hlate := hpost hret hp
    rw [Status.beforeProgram, hbody, Bool.or_true] at hlate
    cases hlate
  · rw [hw.scanned.stream, hs]
    exact hstream

theorem writeBody_handles (h : Counted Visit.startsProgram 0 c0 c)
    (hs : c.req.status = .bodyWrite) (hin : c.req.method = .post → InBody e c)
    (hstream : c.req.clientStream.length ≤ clientStreamSize)
    (hok : ∀ v ∈ c.visits (exec (writeBody e) c), v.keepsProgram) :
    Handles e c0 c (exec (writeBody e) c) (value (writeBody e) c) := by
  have hquiet : ∀ {c' : Conn} {ret : Int}, c'.trace = c.trace →
      c'.req.clientStream = c.req.clientStream → (c'.req.method = .post → InBody e c') →
        Handles e c0 c c' ret := by
    intro c' ret ht hstr hbody
    refine ⟨.unseen (h.same ht), ?_, fun _ hp _ => hbody hp, hstr ▸ hstream⟩
    rw [visits_eq ht]
    exact fun v hv => absurd hv List.not_mem_nil
  have hwrites := writeBody_writes e c
  generalize value (writeBody e) c = ret at hwrites
  generalize exec (writeBody e) c = c' at hwrites hok
  cases hwrites with
  | starts c1 hn hpos hc =>
    rw [hc] at hok ⊢
    exact program_handles e h hin hstream hn hpos hok
  | empty hn hpos => exact hquiet rfl rfl fun hp => (hin hp).emptied hn hpos
  | waits w => exact hquiet rfl rfl fun hp => (hin hp).same rfl rfl rfl
  | again w => exact hquiet rfl rfl fun hp => (hin hp).same rfl rfl rfl
  | ends _ hw =>
    refine ⟨.ends (h.same hw.passed.eq), ?_, fun hret => by omega, ?_⟩
    · rw [visits_eq hw.passed.eq]
      exact fun v hv => absurd hv List.not_mem_nil
    · rw [hw.scanned.stream]
      exact hstream
  | took k w hk => exact hquiet rfl rfl fun hp => (hin hp).took hs hk

theorem processStatus_handles {n : Nat} (h : Counted Visit.startsProgram n c0 c)
    (hfresh : c.req.status.beforeProgram = true → Counted Visit.startsProgram 0 c0 c)
    (hin : c.req.method = .post → c.req.status.isBody = true → InBody e c)
    (hstream : c.req.clientStream.length ≤ clientStreamSize)
    (hok : ∀ v ∈ c.visits (exec (processStatus e) c), v.keepsProgram) :
    Handles e c0 c (exec (processStatus e) c) (value (processStatus e) c) := by
  have hrun : ∀ m : Srv Int, value (processStatus e) c = value m c →
      exec (processStatus e) c = exec m c → Handles e c0 c (exec m c) (value m c) →
        Handles e c0 c (exec (processStatus e) c) (value (processStatus e) c) := by
    intro m hv he hm
    rw [hv, he]
    exact hm
  by_cases hread : c.req.status.reading = true
  · obtain ⟨hv, he⟩ := processStatus_reading e hread
    apply hrun _ hv he
    apply readHeader_handles e (hfresh ?_) hread hstream
    rw [Status.beforeProgram, hread]
    rfl
  by_cases hbr : c.req.status = .bodyRead
  · have hearly : c.req.status.beforeProgram = true := by rw [hbr]; rfl
    have hv : value (processStatus e) c = value (readBody e) c ∧
        exec (processStatus e) c = exec (readBody e) c := by
      simp only [processStatus, value_bind, exec_bind, value_getReq, exec_getReq, hbr, and_self]
    apply hrun _ hv.1 hv.2
    exact readBody_handles e (hfresh hearly) hbr (fun hp => hin hp (by rw [hbr]; rfl)) hstream
  by_cases hbw : c.req.status = .bodyWrite
  · have hearly : c.req.status.beforeProgram = true := by rw [hbw]; rfl
    have hv : value (processStatus e) c = value (writeBody e) c ∧
        exec (processStatus e) c = exec (writeBody e) c := by
      simp only [processStatus, value_bind, exec_bind, value_getReq, exec_getReq, hbw, and_self]
    apply hrun _ hv.1 hv.2
    rw [hv.2] at hok
    exact writeBody_handles e (hfresh hearly) hbw (fun hp => hin hp (by rw [hbw]; rfl)) hstream hok
  have hreading : c.req.status.reading = false := by simpa using hread
  have hscan := processStatus_scanned e .notBody hreading (fun h => absurd h hbr)
    fun h => absurd h hbw
  have hlate : (exec (processStatus e) c).req.status.beforeProgram = false := by
    rcases hscan.status with hst | hst
    · rw [hst, Status.beforeProgram, hreading]
      generalize c.req.status = st at hbr hbw
      cases st <;> first | rfl | exact absurd rfl hbr | exact absurd rfl hbw
    · exact hst
  refine ⟨.late (h.passed hscan.passed quiet_notBody) hlate, hscan.passed.delivered, ?_, ?_⟩
  · intro _ _ hbody
    rw [Status.beforeProgram, hbody, Bool.or_true] at hlate
    cases hlate
  · rw [hscan.stream]
    exact hstream

/-- Nothing that a flush or the end of a turn changes is about the body. -/
theorem InBody.core {c' : Conn} (h : InBody e c) (hc : c'.core = c.core)
    (hs : c'.req.status = c.req.status) : InBody e c' := by
  simp only [Conn.core, Prod.mk.injEq] at hc
  obtain ⟨hr, hp, -, hb⟩ := hc
  have hsize : c'.req.core.filesize = c.req.core.filesize := by rw [hr]
  have hlen : postLength e c'.req.core = postLength e c.req.core := by rw [hr]
  have hline : c'.req.core.headerLine = c.req.core.headerLine := by rw [hr]
  have hend : c'.req.core.headerEnd = c.req.core.headerEnd := by rw [hr]
  have hroom : c'.req.core.windowRoom = c.req.core.windowRoom := by rw [hr]
  have hstream : c'.req.core.clientStream = c.req.core.clientStream := by rw [hr]
  have hwindow : c'.req.core.window = c.req.core.window := by rw [hr]
  have hpos : c'.req.core.filepos = c.req.core.filepos := by rw [hr]
  have harea : c'.req.core.headerArea = c.req.core.headerArea := by rw [hr]
  obtain ⟨h1, h2, h3, h4, h5, h6, h7⟩ := h
  refine ⟨?_, ?_, ?_, ?_, ?_, ?_, fun hread => ?_⟩
  · exact hlen.trans (h1.trans (congrArg some hsize.symm))
  · exact hline.trans_le (h2.trans_eq hend.symm)
  · exact hend.trans_le (h3.trans_eq hroom.symm)
  · exact (congrArg List.length hstream).trans_le h4
  · change c'.postFile ++ c'.req.core.window = c'.body.take c'.req.core.filesize
    rw [hp, hb, hwindow, hsize]
    exact h5
  · change c'.req.core.filepos = _
    rw [hpos, hp]
    exact h6
  · rw [hs] at hread
    obtain ⟨ha, hl, he, hlt⟩ := h7 hread
    exact ⟨harea.trans ha, hline.trans hl, hend.trans he,
      hpos.trans_lt (hlt.trans_eq hsize.symm)⟩

theorem TurnEnd.delivered {c' : Conn} {ret : Int} (h : TurnEnd c ret c') :
    ∀ v ∈ c.visits c', v.delivered e := by
  intro v hv file body hsite
  rcases h.sites.visit hv with hs | hs <;> rw [hs] at hsite <;> cases hsite

theorem TurnEnd.body {c' : Conn} {ret : Int} (h : TurnEnd c ret c')
    (hc : ret = 1 ∨ ret = -1 → c.req.method = .post → c.req.status.isBody = true → InBody e c)
    (hp : c'.place ≠ .free) (hm : c'.req.method = .post) (hb : c'.req.status.isBody = true) :
    InBody e c' := by
  have hmethod : c'.core = c.core → c.req.method = .post := by
    intro hcore
    have hr : c'.req.core.method = c.req.core.method := by rw [(Prod.mk.inj hcore).1]
    exact hr.symm.trans hm
  cases h with
  | blocked hret hcore hs _ _ =>
    exact (hc (.inr hret) (hmethod hcore) (hs ▸ hb)).core e hcore hs
  | goesOn hret hcore hs _ _ =>
    exact (hc (.inl hret) (hmethod hcore) (hs ▸ hb)).core e hcore hs
  | dies _ _ hs _ _ =>
    rw [hs] at hb
    cases hb
  | flushing _ _ hs _ _ => rcases hs with hs | hs <;> rw [hs] at hb <;> cases hb
  | closed _ hfree _ => exact absurd hfree hp
  | recycled _ _ _ _ hr _ _ _ _ _ _ =>
    rw [hr] at hb
    cases hb

theorem stream_core {c' : Conn} (hc : c'.core = c.core) :
    c'.req.clientStream = c.req.clientStream := by
  have hr : c'.req.core.clientStream = c.req.core.clientStream := by rw [(Prod.mk.inj hc).1]
  exact hr

theorem TurnEnd.stream {c' : Conn} {ret : Int} (h : TurnEnd c ret c')
    (hc : c.req.clientStream.length ≤ clientStreamSize) (hp : c'.place ≠ .free) :
    c'.req.clientStream.length ≤ clientStreamSize := by
  cases h with
  | blocked _ hcore _ _ _ | goesOn _ hcore _ _ _ | dies _ hcore _ _ _ | flushing _ hcore _ _ _ =>
    rw [stream_core hcore]
    exact hc
  | closed _ hfree _ => exact absurd hfree hp
  | recycled _ c1 hcore _ _ _ _ hstream _ _ _ =>
    rw [hstream, List.length_drop, stream_core hcore]
    omega

end Handlers

/-- The invariant of a connection. -/
structure Delivering (e : Config) (c0 c : Conn) : Prop where
  once : OnceAfter Visit.startsProgram Status.beforeProgram c0 c
  delivered : ∀ v ∈ c0.visits c, v.delivered e
  body : c.place ≠ .free → c.req.method = .post → c.req.status.isBody = true → InBody e c
  stream : c.place ≠ .free → c.req.clientStream.length ≤ clientStreamSize

section Steps

variable (e : Config) {c0 c : Conn}

theorem Delivering.visits {S : Site → Prop} {c' : Conn} (h : Delivering e c0 c)
    (hp : Passed S c c') (hv : ∀ v ∈ c.visits c', v.delivered e) :
    ∀ v ∈ c0.visits c', v.delivered e := by
  obtain ⟨n, hn⟩ := h.once.counted
  have hpast : Passed (fun _ => True) c0 c := ⟨_, hn.trace, fun _ _ => trivial⟩
  intro v hmem
  rw [visits_trans hpast hp] at hmem
  rcases List.mem_append.mp hmem with hmem | hmem
  · exact h.delivered v hmem
  · exact hv v hmem

theorem processRequest_delivering (h : Delivering e c0 c) (hp : c.place = .ready)
    (hok : ∀ v ∈ c.visits (exec (processRequest e) c), v.keepsProgram) :
    Delivering e c0 (exec (processRequest e) c) := by
  have hne : c.place ≠ .free := by
    rw [hp]
    decide
  have hidle := dispatched_idled e c
  have hbody : ∀ {c1 : Conn}, Idled c c1 → c1.req.method = .post → c1.req.status.isBody = true →
      InBody e c1 := by
    intro c1 hi hm hb
    have hr : c1.req.core.method = c.req.core.method := by rw [(Prod.mk.inj hi.core).1]
    rcases hi.status with hs | hs
    · exact (h.body hne (hr.symm.trans hm) (hs ▸ hb)).core e hi.core hs
    · rw [hs] at hb
      cases hb
  have hhandles : ∀ n, Counted Visit.startsProgram n c0 (c.dispatched e) →
      ((c.dispatched e).req.status.beforeProgram = true →
        Counted Visit.startsProgram 0 c0 (c.dispatched e)) →
      (c.dispatched e).visits (exec (processStatus e) (c.dispatched e)) ⊆
        c.visits (exec (processRequest e) c) →
      Handles e c0 (c.dispatched e) (exec (processStatus e) (c.dispatched e))
        (value (processStatus e) (c.dispatched e)) := by
    intro n hn hfresh hsub
    apply processStatus_handles e hn hfresh (hbody hidle)
    · rw [stream_core hidle.core]
      exact h.stream hne
    · exact fun v hmem => hok v (hsub hmem)
  have honce := processRequest_onceAfter e fits_startsProgram h.once hp
    fun n hn hfresh hsub => (hhandles n hn hfresh hsub).once
  rcases processRequest_run e c with ⟨hv, hrun⟩ | ⟨-, hrun⟩
  · obtain ⟨⟨n, hn⟩, hfresh⟩ := h.once.idled fits_startsProgram hp hidle
    have hh := hhandles n hn hfresh (processRequest_visits e hv)
    have hend := settle_turnEnd e (value (processStatus e) (c.dispatched e))
      (exec (processStatus e) (c.dispatched e))
    have hpass := (processStatus_frame e (c.dispatched e)).2
    have htop : Passed (fun _ => True) c (c.dispatched e) := .same hidle.trace
    rw [hrun] at honce ⊢
    refine ⟨honce, h.visits e (htop.trans (hpass.trans hend.passed)) ?_, hend.body e hh.body,
      fun hp' => hend.stream hh.stream hp'⟩
    intro v hmem
    rw [visits_trans htop (hpass.trans hend.passed), visits_eq hidle.trace, List.nil_append,
      visits_trans hpass hend.passed] at hmem
    rcases List.mem_append.mp hmem with hmem | hmem
    · exact hh.delivered v hmem
    · exact hend.delivered e v hmem
  · have hflush := topFlush_idles e c
    have hend := settle_turnEnd e (value (topFlush e) c) (exec (topFlush e) c)
    have htop : Passed (fun _ => True) c (exec (topFlush e) c) := .same hflush.trace
    rw [hrun] at honce ⊢
    refine ⟨honce, h.visits e (htop.trans hend.passed) ?_, hend.body e fun _ => hbody hflush,
      fun hp' => hend.stream ?_ hp'⟩
    · intro v hmem
      rw [visits_trans htop hend.passed, visits_eq hflush.trace, List.nil_append] at hmem
      exact hend.delivered e v hmem
    · rw [stream_core hflush.core]
      exact h.stream hne

/-- At a dispatch to `read_body` what it asks for lies within the length of the body. -/
def Ev.readsWithin (e : Config) (c : Conn) : Ev → Prop
  | .process w =>
    let c := { c with sys := w, waits := none }
    c.place = .ready → value (topFlush e) c = 1 →
      (c.dispatched e).req.method = .post → (c.dispatched e).req.status = .bodyRead →
        ∃ n, postLength e (c.dispatched e).req = some n ∧
          (c.dispatched e).body.length + (c.dispatched e).req.bodyWant ≤ n
  | _ => True

theorem InBody.idled {c' : Conn} (h : c.req.method = .post → c.req.status.isBody = true →
    InBody e c) (hi : Idled c c') (hm : c'.req.method = .post)
    (hb : c'.req.status.isBody = true) : InBody e c' := by
  have hr : c'.req.core.method = c.req.core.method := by rw [(Prod.mk.inj hi.core).1]
  rcases hi.status with hs | hs
  · exact (h (hr.symm.trans hm) (hs ▸ hb)).core e hi.core hs
  · rw [hs] at hb
    cases hb

theorem InBody.fits (h : InBody e c) (hs : c.req.status = .bodyRead) :
    c.body.length + c.req.bodyWant ≤ c.req.filesize := by
  obtain ⟨-, hbody, hlt⟩ := h.arrived hs
  have hwant := h.bodyWant
  have hpos : c.req.filepos = c.body.length := by
    rw [h.pos, hbody]
  omega

theorem step_delivering (ev : Ev) (h : Delivering e c0 c)
    (hok : ∀ v ∈ c.visits (step e c ev), v.keepsProgram) :
    Delivering e c0 (step e c ev) ∧ ev.readsWithin e c := by
  cases ev with
  | process w =>
    simp only [step, Ev.readsWithin] at hok ⊢
    by_cases hp : c.place = .ready
    · rw [if_pos hp] at hok ⊢
      have hne : c.place ≠ .free := by
        rw [hp]
        decide
      have hin : c.req.method = .post → c.req.status.isBody = true →
          InBody e { c with sys := w, waits := none } :=
        fun hm hb => (h.body hne hm hb).same rfl rfl rfl
      obtain ⟨n, hn⟩ := h.once.counted
      have h' : Delivering e c0 { c with sys := w, waits := none } :=
        ⟨⟨⟨n, hn.same rfl⟩, fun hf hs => (h.once.fresh hf hs).same rfl⟩, h.delivered,
          fun _ => hin, h.stream⟩
      refine ⟨processRequest_delivering e h' hp hok, fun _ _ hm hs => ?_⟩
      have hbody := InBody.idled e hin (dispatched_idled e _) hm (by rw [hs]; rfl)
      exact ⟨_, hbody.size, hbody.fits e hs⟩
    · rw [if_neg hp]
      exact ⟨h, fun hready => absurd hready hp⟩
  | select w readyR readyW =>
    refine ⟨?_, trivial⟩
    simp only [step]
    by_cases hp : c.place = .block
    · rw [if_pos hp]
      have hne : c.place ≠ .free := by
        rw [hp]
        decide
      have honce := selectStep_onceAfter e fits_startsProgram h.once hp w readyR readyW
      rcases select_outcome e readyR readyW { c with sys := w } with hw | ⟨v, hv, hw⟩
      · have hpass : Passed (· = .timeout) c _ := .same hw.trace
        refine ⟨honce, h.visits e hpass ?_, fun _ hm hb => ?_, fun _ => ?_⟩
        · intro v hv file body hsite
          rw [hpass.visit hv] at hsite
          cases hsite
        · rw [hw.req] at hm hb
          exact (h.body hne hm hb).core e hw.core (congrArg Request.status hw.req)
        · rw [hw.req]
          exact h.stream hne
      · have hpass : Passed (· = .timeout) c _ :=
          ⟨[v], hw.trace, fun u hu => by rw [List.mem_singleton.mp hu]; exact hv⟩
        refine ⟨honce, h.visits e hpass ?_, fun _ hm hb => ?_, fun _ => ?_⟩
        · intro u hu file body hsite
          rw [hpass.visit hu] at hsite
          cases hsite
        · rw [hw.req] at hb
          cases hb
        · rw [hw.req]
          exact h.stream hne
    · rw [if_neg hp]
      exact h
  | results rs =>
    refine ⟨?_, trivial⟩
    have hscan := cgiWorkResps_scanned (T := fun _ => True) (S := (· = .workResp)) trivial rfl rs c
    have honce := resultsStep_onceAfter fits_startsProgram h.once rs
    simp only [step]
    refine ⟨honce, h.visits e hscan.passed ?_, fun hne hm hb => ?_, fun hne => ?_⟩
    · intro u hu file body hsite
      rw [hscan.passed.visit hu] at hsite
      cases hsite
    · rcases cgiWorkResps_same rs c with hsame | hs
      · rw [hsame] at hne hm hb ⊢
        exact h.body hne hm hb
      · rw [hs] at hb
        cases hb
    · rw [hscan.place] at hne
      rw [hscan.stream]
      exact h.stream hne

theorem accepted_delivering (h : Accepted e c) : Delivering e c c := by
  have hlate : ∀ {s : Status}, Status.isBody s = false → c.req.status = s →
      c.place ≠ .free → c.req.method = .post → c.req.status.isBody = true → InBody e c := by
    intro s hst hs _ _ hb
    rw [hs, hst] at hb
    cases hb
  refine ⟨.start c, ?_, ?_, ?_⟩
  · have hnone : c.visits c = [] := visits_eq rfl
    rw [hnone]
    exact fun v hv => absurd hv List.not_mem_nil
  all_goals obtain ⟨c0, now, fd, localIp, remoteIp, port, hc | hc⟩ := h
  · exact hlate (s := .readHeader) rfl (by rw [hc]; rfl)
  · have hw := refuseConn_works (T := fun st => Status.isBody st = false) (S := fun _ => True) e rfl
      rfl trivial (acceptConn e now fd localIp remoteIp port c0)
    rw [← hc] at hw
    rcases hw.status with hs | hs
    · exact hlate (s := .readHeader) rfl hs
    · exact hlate hs rfl
  · intro _
    rw [hc]
    exact Nat.zero_le _
  · intro _
    have hw := refuseConn_works (T := fun _ => True) (S := fun _ => True) e trivial
      trivial trivial (acceptConn e now fd localIp remoteIp port c0)
    rw [hc, hw.scanned.stream]
    exact Nat.zero_le _

end Steps

/-- The programs started for bodies since the last `sanitize_request`. -/
def programStarts (vs : List Visit) : Nat := countSince Visit.startsProgram vs

/-- A request takes the body of a POST. -/
def Conn.takesBody (c : Conn) : Prop :=
  c.place ≠ .free ∧ c.req.method = .post ∧ c.req.status.isBody = true

/-- What is promised about the bodies of a connection that came from `c0`. -/
structure BodiesDelivered (e : Config) (c0 c : Conn) : Prop where
  delivered : ∀ v ∈ c0.visits c, v.delivered e
  once : ∀ k, programStarts ((c0.visits c).take k) ≤ 1
  within : c.takesBody → postLength e c.req = some c.req.filesize ∧ c.req.filepos ≤ c.req.filesize

theorem Delivering.bodiesDelivered {e : Config} {c0 c : Conn} (h : Delivering e c0 c) :
    BodiesDelivered e c0 c := by
  obtain ⟨n, hn⟩ := h.once.counted
  refine ⟨h.delivered, hn.once, fun ⟨hp, hm, hb⟩ => ?_⟩
  have hin := h.body hp hm hb
  exact ⟨hin.size, Nat.le_of_add_right_le hin.within⟩

/-- In a run in which the pool does not refuse the job of a POST with the numbers that keep
the request in its status, each program is started once, with the whole body in its file. -/
theorem bodies_delivered (e : Config) (c : Conn) (evs : List Ev) (h : Accepted e c)
    (hok : Run.AllSteps (step e) (fun t ev => ∀ v ∈ t.visits (step e t ev), v.keepsProgram) c evs) :
    (∀ t ∈ Run.states (step e) c evs, BodiesDelivered e c t) ∧
      Run.AllSteps (step e) (fun t ev => ev.readsWithin e t) c evs := by
  have hstart := accepted_delivering e h
  have hstep : ∀ t ev, Delivering e c t → (∀ v ∈ t.visits (step e t ev), v.keepsProgram) →
      Delivering e c (step e t ev) := fun t ev hi hv => (step_delivering e ev hi hv).1
  refine ⟨fun t ht => ?_, ?_⟩
  · exact (Run.invariant hstep hstart hok t ht).bodiesDelivered
  · exact Run.allSteps hstep (fun t ev hi hv => (step_delivering e ev hi hv).2) hstart hok

/-! A body that comes in two pieces, and is written in two. -/

def splitRun : List Ev :=
  [.process { postWorld with
      recv := [.data (str "POST /s HTTP/1.0\nContent-Length: 3\n\na")] },
    .process postWorld, .process { postWorld with post := [.done 1] }, .process postWorld,
    .process { postWorld with recv := [.data (str "bc")] },
    .process { postWorld with post := [.done 1] }, .process { postWorld with post := [.done 1] },
    .process postWorld]

theorem bodies_delivered_split :
    (∀ t ∈ Run.states (step postConfig) fresh splitRun, BodiesDelivered postConfig fresh t) ∧
      programStarts (fresh.visits (Run.final (step postConfig) fresh splitRun)) = 1 :=
  ⟨(bodies_delivered postConfig fresh splitRun ⟨{}, 0, 5, [], [], 0, .inl rfl⟩
    ⟨by decide +kernel, by decide +kernel, by decide +kernel, by decide +kernel,
      by decide +kernel, by decide +kernel, by decide +kernel, by decide +kernel, trivial⟩).1,
    by decide +kernel⟩

/-! A pool that refuses the job. -/

def refusedConfig : Config := { postConfig with build := { haveLibshare := true } }

def refusedRun : List Ev :=
  [.process { postWorld with
      recv := [.data (str "POST /s HTTP/1.0\nContent-Length: 2\n\nab")] },
    .process postWorld, .process postWorld, .process { postWorld with shprocPush := -1 },
    .select {} (fun _ => false) (fun _ => true), .process { postWorld with shprocPush := -1 }]

/-- The request stays in the status in which the file is complete, and comes to `init_cgi`
again. -/
theorem program_startedTwice :
    Accepted refusedConfig fresh ∧
      ∃ t ∈ Run.states (step refusedConfig) fresh refusedRun,
        ∃ k, 1 < programStarts ((fresh.visits t).take k) :=
  ⟨⟨{}, 0, 5, [], [], 0, .inl rfl⟩, _, Run.final_mem_states _ _, 20, by decide +kernel⟩

end Crotalus
