import Crotalus.Spec.CgiHeader
import Crotalus.Spec.RelayWalk
import Crotalus.Spec.Under

namespace Crotalus

open Stateful ByteMem

/-! The two indices of the output buffer. -/

/-- `0 <= buffer_start <= buffer_end <= BUFFER_SIZE`. -/
def Request.ordered (r : Request) : Prop :=
  r.bufferStart ≤ r.bufferEnd ∧ r.bufferEnd ≤ bufferSize

/-- The indices are in order, and a gzip filter has no file: its mode is refused. -/
structure Indexed (c : Conn) : Prop where
  order : c.req.bufferStart ≤ c.req.bufferEnd
  room : c.req.bufferEnd ≤ bufferSize
  gzip : c.req.filter = some .gzip → c.req.gzipFl = none

/-- What `Indexed` reads. -/
def Request.indices (r : Request) : Nat × Nat × Option FilterKind × Option (List Byte) :=
  (r.bufferStart, r.bufferEnd, r.filter, r.gzipFl)

section Kept

variable {c c' : Conn}

theorem Indexed.congr (h : Indexed c) (hr : c'.req.indices = c.req.indices) : Indexed c' := by
  simp only [Request.indices, Prod.mk.injEq] at hr
  obtain ⟨hs, he, hf, hg⟩ := hr
  refine ⟨?_, ?_, ?_⟩
  · rw [hs, he]
    exact h.order
  · rw [he]
    exact h.room
  · rw [hf, hg]
    exact h.gzip

/-- More bytes in the room that is left. -/
theorem Indexed.append (h : Indexed c) {msg : Text}
    (hroom : c.req.bufferEnd + msg.length ≤ bufferSize) : Indexed (c.buffers msg) :=
  ⟨Nat.le_trans h.order (Nat.le_add_right _ _), hroom, h.gzip⟩

theorem Indexed.emptied (h : Indexed c) : Indexed { c with req := c.req.emptied } :=
  ⟨Nat.le_refl 0, Nat.zero_le _, h.gzip⟩

/-- Some of the pending bytes are taken. -/
theorem Indexed.taken (h : Indexed c) {k : Nat} (hk : k ≤ c.req.pending.length) :
    Indexed { c with req := c.req.taken k } := by
  have horder := c.req.taken_le h.order hk
  unfold Request.taken at horder ⊢
  split at horder <;> rename_i hall
  · rw [if_pos hall]
    exact h.emptied
  · rw [if_neg hall]
    exact ⟨horder, h.room, h.gzip⟩

end Kept

/-! Writing and flushing. -/

section Output

variable (e : Config) {c : Conn}

theorem reqWrite_indexed (msg : Text) (h : Indexed c) : Indexed (exec (reqWrite msg) c) := by
  by_cases hs : c.req.status.over = true
  · rwa [exec_reqWrite_over msg c hs]
  · rw [exec_reqWrite msg c (Bool.eq_false_iff.mpr hs)]
    split
    · rename_i hfit
      rcases hfit with hfit | rfl
      · exact h.append hfit
      · exact h.append h.room
    · exact h.congr rfl

theorem reqWriteEscape_indexed {esc : Byte → Text} {guard : Nat} (hg : Guards esc guard)
    (msg : Text) (h : Indexed c) : Indexed (exec (reqWriteEscape esc guard msg) c) := by
  have hlen := escapeLoop_length hg (bufferSize - c.req.bufferEnd) msg
  have hroom := h.room
  have happ : Indexed
      (c.buffers (escapeLoop esc guard (bufferSize - c.req.bufferEnd) msg).1) :=
    h.append (by omega)
  simp only [reqWriteEscape, exec_bind, exec_getReq, value_getReq, exec_modReq, exec_ite,
    exec_pure]
  split
  · exact happ
  · exact happ.congr rfl

theorem escapeLoopAt_room {esc : Byte → Text} {guard : Nat} (hg : Guards esc guard) (k : Nat)
    (m : Nat → Byte) {dest : Nat} (inp : Nat) (h : dest ≤ bufferSize) :
    (escapeLoopAt esc guard k m dest inp).2.1 ≤ bufferSize := by
  induction k generalizing m dest inp with
  | zero => exact h
  | succ k ih =>
    unfold escapeLoopAt
    split
    · exact h
    · split
      · exact h
      · have hb := hg (m inp)
        exact ih _ _ (by omega)

theorem reqWriteEscapeAt_indexed {esc : Byte → Text} {guard : Nat} (hg : Guards esc guard)
    (off : Nat) (h : Indexed c) : Indexed (exec (reqWriteEscapeAt esc guard off) c) := by
  have hle := escapeLoopAt_le esc guard bufferSize c.req.buffer c.req.bufferEnd off
  have hroom := escapeLoopAt_room hg bufferSize c.req.buffer off h.room
  have horder := Nat.le_trans h.order hle
  simp only [reqWriteEscapeAt, exec_bind, exec_getReq, value_getReq, exec_ite, exec_pure]
  split
  · exact ⟨horder, hroom, h.gzip⟩
  · exact ⟨horder, hroom, h.gzip⟩

theorem put_indexed (p : Piece) (h : Indexed c) : Indexed (exec (put p) c) := by
  cases p with
  | raw msg => exact reqWrite_indexed msg h
  | http msg => exact reqWriteEscape_indexed guards_http msg h
  | html msg => exact reqWriteEscape_indexed guards_html msg h
  | rawAt off => exact reqWrite_indexed _ h
  | httpAt off => exact reqWriteEscapeAt_indexed guards_http off h
  | htmlAt off => exact reqWriteEscapeAt_indexed guards_html off h

/-- A filter that takes no bytes or all of them. -/
theorem reqFlush_filter_indexed {f : FilterKind} (hs : c.req.status.over = false)
    (hf : c.req.filter = some f) (hne : c.req.bufferEnd ≠ c.req.bufferStart) (h : Indexed c) :
    Indexed (exec (reqFlush e) c) := by
  have hfails : value (mimeFilterWrite e f) c = -2 ∧ exec (mimeFilterWrite e f) c = c →
      Indexed (exec (reqFlush e) c) := by
    intro hw
    rw [(reqFlush_filterFails e hs hf hne hw).2]
    exact h.emptied.congr rfl
  cases f with
  | deflate =>
    cases hz : c.req.zlib.bind fun hist => e.deflate (hist ++ [c.req.pending]) with
    | none => exact hfails (mimeFilterWrite_stuck e (Ne.symm hne) hz)
    | some outs =>
      obtain ⟨hist, hhist, hd⟩ := Option.bind_eq_some_iff.mp hz
      obtain ⟨d, hrun, -⟩ := reqFlush_compressed e hs hf hne hhist hd
      rw [hrun]
      have hfed : Indexed ((c.fed hist).sends (chunksSent outs c.sys.sock) d) := h.congr rfl
      exact hfed.taken (Nat.le_refl _)
  | gzip =>
    apply hfails
    have hnone := h.gzip hf
    simp only [mimeFilterWrite, value_bind, exec_bind, value_getReq, exec_getReq, hnone]
    exact ⟨rfl, rfl⟩

theorem reqFlush_indexed (h : Indexed c) : Indexed (exec (reqFlush e) c) := by
  by_cases hs : c.req.status.over = true
  · rwa [(reqFlush_over e hs).2]
  have hs : c.req.status.over = false := Bool.eq_false_iff.mpr hs
  by_cases hne : c.req.bufferEnd = c.req.bufferStart
  · rw [(reqFlush_empty e hs hne).2]
    exact h.emptied
  cases hf : c.req.filter with
  | some f => exact reqFlush_filter_indexed e hs hf hne h
  | none =>
    have hout := reqFlush_outcome e hs hf h.order
    generalize value (reqFlush e) c = i at hout
    cases hout with
    | took k w hk _ he =>
      rw [he]
      exact (h.taken hk).congr rfl
    | blocked w he =>
      rw [he]
      exact h.congr rfl
    | failed w he =>
      rw [he]
      exact h.emptied.congr rfl

theorem reqFlushRaw_indexed (h : Indexed c) : Indexed (exec reqFlushRaw c) := by
  simp only [reqFlushRaw, exec_bind, value_getReq, exec_getReq]
  by_cases hs : c.req.status.over = true
  · rwa [if_pos hs]
  by_cases hne : c.req.bufferEnd = c.req.bufferStart
  · rw [if_neg hs, if_pos hne]
    exact h.taken (Nat.zero_le _)
  have hw := writePending_wrote 0 c h.order
  simp only [retryIntr] at hw
  simp only [if_neg hs, if_neg hne, exec_bind]
  generalize value writePending c = v at hw ⊢
  generalize exec writePending c = c' at hw ⊢
  cases hw with
  | took n w d =>
    have hlen := List.length_take_le' n c.req.pending
    exact (h.taken hlen).congr rfl
  | failed err w d =>
    have hkept : Indexed { c with sys := w, waits := d } := h.congr rfl
    cases err with
    | again => exact hkept
    | _ => exact hkept.emptied.congr rfl

end Output

/-! What of the way to a response can break the order: the blocks of a decompressed page, and
a bus error behind a header that has been flushed in part. -/

/-- The blocks find room where they are copied to. -/
def blocksFit : List (List Byte) → List Visit → Bool
  | b :: bs, v :: vs =>
    (v.site ≠ .serveFile || v.req.bufferEnd + (b.take 2048).length ≤ bufferSize) && blocksFit bs vs
  | _, _ => true

/-- So do those of every page. -/
def pagesFit : List Visit → Bool
  | [] => true
  | v :: vs => (v.site ≠ .gzip || blocksFit (v.sys.gzopen.getD []) vs) && pagesFit vs

/-- A bus error at an access to file data. -/
def Visit.busErrs (v : Visit) : Bool :=
  match v.site with
  | .fileAccess _ _ => v.sys.sigbus.headD false
  | _ => false

structure KeepsRoom (vs : List Visit) : Prop where
  pages : pagesFit vs = true
  clean : ∀ v ∈ vs, v.busErrs = true → v.req.bufferStart = 0

theorem blocksFit_left {bs : List (List Byte)} {vs us : List Visit}
    (h : blocksFit bs (vs ++ us) = true) : blocksFit bs vs = true := by
  induction vs generalizing bs with
  | nil => cases bs <;> rfl
  | cons v vs ih =>
    cases bs with
    | nil => rfl
    | cons b bs =>
      rw [List.cons_append, blocksFit, Bool.and_eq_true] at h
      rw [blocksFit, Bool.and_eq_true]
      exact ⟨h.1, ih h.2⟩

theorem pagesFit_left {vs us : List Visit} (h : pagesFit (vs ++ us) = true) :
    pagesFit vs = true := by
  induction vs with
  | nil => rfl
  | cons v vs ih =>
    rw [List.cons_append, pagesFit, Bool.and_eq_true, Bool.or_eq_true] at h
    rw [pagesFit, Bool.and_eq_true, Bool.or_eq_true]
    exact ⟨h.1.imp_right blocksFit_left, ih h.2⟩

theorem pagesFit_right {vs us : List Visit} (h : pagesFit (vs ++ us) = true) :
    pagesFit us = true := by
  induction vs with
  | nil => exact h
  | cons v vs ih =>
    rw [List.cons_append, pagesFit, Bool.and_eq_true] at h
    exact ih h.2

theorem KeepsRoom.splits : Splits KeepsRoom where
  left h := ⟨pagesFit_left h.pages, fun v hv => h.clean v (List.mem_append_left _ hv)⟩
  right h := ⟨pagesFit_right h.pages, fun v hv => h.clean v (List.mem_append_right _ hv)⟩

/-! The walk through the handlers. -/

section Walk

variable {ok : List Visit → Prop} (hs : Splits ok) (e : Config)

theorem Request.indices_bare {r r' : Request} (h : r'.bare = r.bare) :
    r'.indices = r.indices := by
  have hi : r'.bare.indices = r.bare.indices := congrArg Request.indices h
  exact hi

theorem Request.indices_unread {r r' : Request} (h : r'.unread = r.unread) :
    r'.indices = r.indices := by
  have hi : r'.unread.indices = r.unread.indices := congrArg Request.indices h
  exact hi

theorem Request.indices_unmoved {r r' : Request} (h : r'.unmoved = r.unmoved) :
    r'.indices = r.indices := by
  have hi : r'.unmoved.indices = r.unmoved.indices := congrArg Request.indices h
  exact hi

theorem modReq_under {f : Request → Request} (h : ∀ r, (f r).indices = r.indices) :
    Rel (Under ok Indexed) (modReq f) :=
  fun c => .still rfl (·.congr (h c.req))

theorem setStatus_under (st : Status) : Rel (Under ok Indexed) (setStatus st) :=
  fun _ => .still rfl (·.congr rfl)

theorem mark_under (site : Site) : Rel (Under ok Indexed) (mark site) :=
  fun _ => .visiting rfl fun _ hi => hi.congr rfl

theorem sigbus_under : Rel (Under ok Indexed) sigbus := fun _ => .still rfl (·.congr rfl)

theorem sockWrite_under (bs : List Byte) : Rel (Under ok Indexed) (sockWrite bs) := by
  intro c
  have hw := sockWrite_wrote bs c
  generalize value (sockWrite bs) c = v at hw
  generalize exec (sockWrite bs) c = c' at hw ⊢
  cases hw with
  | took n w d => exact .still rfl (·.congr rfl)
  | failed err w d => exact .still rfl (·.congr rfl)

theorem sockRead_under (k : Nat) : Rel (Under ok Indexed) (sockRead k) := by
  intro c
  rw [exec_sockRead]
  exact .still rfl (·.congr rfl)

theorem pipeRead_under (k : Nat) : Rel (Under ok Indexed) (pipeRead k) := by
  intro c
  rw [exec_pipeRead]
  exact .still rfl (·.congr rfl)

theorem postWrite_under (bs : List Byte) : Rel (Under ok Indexed) (postWrite bs) := by
  intro c
  have hw := postWrite_posted bs c
  generalize value (postWrite bs) c = v at hw
  generalize exec (postWrite bs) c = c' at hw ⊢
  cases hw with
  | took n w => exact .still rfl (·.congr rfl)
  | failed err w d _ => exact .still rfl (·.congr rfl)

theorem reqFlush_under : Rel (Under ok Indexed) (reqFlush e) :=
  fun c => .still (reqFlush_idles e c).trace (reqFlush_indexed e)

include hs

theorem under_fills : Fills (Under ok Indexed) where
  refl := .refl
  trans := .trans hs
  set h := modReq_under fun r => Request.indices_bare (h r)
  alloc _ := .still rfl (·.congr rfl)

theorem under_walks : Walks e (Under ok Indexed) where
  toFills := under_fills hs
  put p c := .passing (put_works (T := fun _ => True) trivial p c).passed (put_indexed p)
  flush := reqFlush_under e
  flushRaw c := .still (reqFlushRaw_idles c).trace reqFlushRaw_indexed

theorem completeResponse_under : Rel (Under ok Indexed) (completeResponse e) := by
  have h := under_walks hs e
  refine h.bind (mark_under _) fun _ => h.bind (modReq_under fun _ => rfl) fun _ => ?_
  refine readReq_rel fun r => ?_
  split
  · split
    · exact h.returning (puts_rel h _) _
    · refine h.bind (puts_rel h _) fun _ => h.bind (setStatus_under _) fun _ => ?_
      exact h.returning h.flush _
  · exact h.returning (setStatus_under _) _

theorem cgiStarted_under (pipe : Nat) : Rel (Under ok Indexed) (cgiStarted pipe) := by
  have h := under_fills hs
  refine h.bind (mark_under _) fun _ => h.bind (modReq_under fun r => ?_) fun _ => ?_
  · split <;> rfl
  refine readReq_rel fun r => ?_
  split
  · exact h.pure _
  · refine h.bind (modReq_under fun _ => rfl) fun _ => h.bind (setStatus_under _) fun _ => ?_
    exact h.bind (modReq_under fun _ => rfl) fun _ => h.pure _

theorem initWorkCgi_under : Rel (Under ok Indexed) (initWorkCgi e) := by
  have h := under_fills hs
  refine h.bind (completeEnv_rel h) fun _ => h.bind (mark_under _) fun _ => Rel.read fun c => ?_
  dsimp only
  split
  · exact h.pure _
  · exact h.returning (setStatus_under _) _

theorem under_launches : Launches e (Under ok Indexed) where
  toWalks := under_walks hs e
  started := cgiStarted_under hs
  work := initWorkCgi_under hs e

/-! The handlers behind the header. -/

theorem under_carries : Carries e (fun _ => True) (Under ok Indexed) where
  toWalks := under_walks hs e
  move h := modReq_under fun r => Request.indices_unmoved (h r)
  status _ := setStatus_under _
  write := sockWrite_under

theorem cgiMerge_under (lf : Nat) : Rel (Under ok Indexed) (cgiMerge e lf) := by
  have h := under_walks hs e
  have htail : Rel (Under ok Indexed) (mergeTail e) := by
    intro c
    simp only [mergeTail, exec_bind, exec_getReq, value_getReq, exec_ite, exec_modReq, exec_pure]
    split
    · have hempty : Under ok Indexed c { c with req := c.req.emptied } := .still rfl Indexed.emptied
      exact hempty.trans hs (sendRError_rel h _)
    · rename_i hfit
      have hlen := length_slice c.req.buffer c.req.headerLine (c.req.headerEnd - c.req.headerLine)
      have hmove : Under ok Indexed c { c with req := c.req.merged } := by
        refine .still rfl fun hi => ?_
        have happ : Indexed (c.buffers
            (slice c.req.buffer c.req.headerLine (c.req.headerEnd - c.req.headerLine))) :=
          hi.append (by omega)
        exact happ.congr rfl
      split
      all_goals exact hmove.trans hs (h.flush _)
  have hhead : Rel (Under ok Indexed) (modReq (·.headOnly lf)) := by
    refine modReq_under fun r => ?_
    unfold Request.headOnly
    split <;> rfl
  intro c
  rw [(cgiMerge_run e lf c).1]
  exact ((sendRRequestOk_rel h c).trans hs (hhead _)).trans hs (htail _)

theorem under_relays : Relays e (fun _ => True) (Under ok Indexed) where
  toCarries := under_carries hs e
  location := mark_under _
  merge := cgiMerge_under hs e

theorem under_transfers : Transfers e (fun _ => True) (Under ok Indexed) where
  toCarries := under_carries hs e
  complete := completeResponse_under hs e
  access _ _ := mark_under _
  bus := sigbus_under

end Walk

/-! The way to a response. -/

section Read

variable (e : Config)

theorem gzipBlocks_indexed (bs : List (List Byte)) {c : Conn}
    (hfit : blocksFit bs (c.visits (exec (gzipBlocks e bs) c)) = true) (h : Indexed c) :
    Indexed (exec (gzipBlocks e bs) c) := by
  induction bs generalizing c with
  | nil => exact h
  | cons b bs ih =>
    by_cases hb : b = []
    · simp only [gzipBlocks, if_pos hb]
      exact h
    · have hrun : exec (gzipBlocks e (b :: bs)) c =
          exec (gzipBlocks e bs) (exec (gzipBlock e (b.take 2048)) c) := by
        simp only [gzipBlocks, if_neg hb, exec_bind]
      rw [hrun] at hfit ⊢
      generalize hc1 : exec (gzipBlock e (b.take 2048)) c = c1 at hfit ⊢
      have ht : c1.trace = c.trace ++ [⟨.serveFile, c.req, c.sys⟩] := by
        rw [← hc1]
        exact (reqFlush_idles e _).trace
      have hvs : c.visits (exec (gzipBlocks e bs) c1) =
          ⟨.serveFile, c.req, c.sys⟩ :: c1.visits (exec (gzipBlocks e bs) c1) := by
        have h1 : Passed (fun _ => True) c c1 := ⟨_, ht, fun _ _ => trivial⟩
        have h2 : Passed (fun _ => True) c1 (exec (gzipBlocks e bs) c1) :=
          (gzipBlocks_works (T := fun _ => True) e trivial trivial bs c1).passed
        rw [visits_trans h1 h2, visits_of_append ht, List.singleton_append]
      rw [hvs, blocksFit, Bool.and_eq_true] at hfit
      have hroom : c.req.bufferEnd + (b.take 2048).length ≤ bufferSize := by simpa using hfit.1
      refine ih hfit.2 ?_
      have hcopy : Indexed (Conn.buffers (exec (mark .serveFile) c) (b.take 2048)) := by
        have hmark : Indexed (exec (mark .serveFile) c) := h.congr rfl
        exact hmark.append hroom
      rw [← hc1]
      exact reqFlush_indexed e hcopy

theorem mimeGetGzip_under : Rel (Under KeepsRoom Indexed) (mimeGetGzip e) := by
  have hw := under_walks KeepsRoom.splits e
  intro c
  let c1 := exec (mark .gzip) c
  let v : Visit := ⟨.gzip, c.req, c.sys⟩
  have hmark : Passed (fun _ => True) c c1 := mark_passed .gzip c
  cases hg : c.sys.gzopen with
  | none =>
    have hrun : exec (mimeGetGzip e) c = exec (sendRBadGateway e) c1 := by
      simp only [mimeGetGzip, exec_bind, value_get, exec_get, exec_mark, hg]
      rfl
    rw [hrun]
    exact (mark_under _ c).trans KeepsRoom.splits (sendRBadGateway_rel hw c1)
  | some blocks =>
    let c2 := exec (sendRRequestOk e) c1
    have hrun : exec (mimeGetGzip e) c = exec (gzipBlocks e blocks) c2 := by
      simp only [mimeGetGzip, exec_bind, value_get, exec_get, exec_mark, hg]
      rfl
    have hhead : Passed (fun _ => False) c1 c2 :=
      (sendRRequestOk_works (T := fun _ => True) e trivial c1).passed
    have hblocks : Passed (fun _ => True) c2 (exec (gzipBlocks e blocks) c2) :=
      (gzipBlocks_works (T := fun _ => True) e trivial trivial blocks c2).passed
    have hpass : Passed (fun _ => True) c c2 := hmark.trans (.same hhead.eq)
    rw [hrun]
    refine ⟨hpass.trans hblocks, fun hok hi => ?_⟩
    have hv : c.visits c2 = [v] := visits_of_append hhead.eq
    rw [visits_trans hpass hblocks, hv] at hok
    have hfit := hok.pages
    rw [List.singleton_append, pagesFit, Bool.and_eq_true] at hfit
    have hone : blocksFit (c.sys.gzopen.getD []) (c2.visits (exec (gzipBlocks e blocks) c2)) = true := by
      simpa [v] using hfit.1
    rw [hg, Option.getD_some] at hone
    have hi1 : Indexed c1 := hi.congr rfl
    have hi2 : Indexed c2 :=
      (sendRRequestOk_rel (under_walks Splits.all e) c1).keeps trivial hi1
    exact gzipBlocks_indexed e blocks hone hi2

theorem u32_room {n : Nat} (h : n ≤ bufferSize) :
    u32 (bufferSize + 2 ^ 32 - n) = bufferSize - n := by
  simp only [u32, bufferSize] at h ⊢
  omega

theorem fillBuffer_under : Rel (Under KeepsRoom Indexed) (fillBuffer e) := by
  have hw := under_walks KeepsRoom.splits e
  intro c
  simp only [fillBuffer, exec_bind, exec_getReq, value_getReq]
  cases hmem : c.req.dataMem with
  | none => exact .refl c
  | some mem =>
    simp only []
    split
    · exact .refl c
    generalize hn : min (u32 (bufferSize + 2 ^ 32 - c.req.bufferEnd))
      (u32 (u64 (c.req.range.stop + 2 ^ 64 - c.req.range.start + 1))) = n
    let v : Visit := ⟨.fileAccess c.req.range.start n, c.req, c.sys⟩
    let c1 := exec sigbus (exec (mark (.fileAccess c.req.range.start n)) c)
    have ht : c1.trace = c.trace ++ [v] := rfl
    simp only [exec_bind]
    cases hb : value sigbus (exec (mark (.fileAccess c.req.range.start n)) c) with
    | true =>
      have hreset : Under KeepsRoom Indexed c (exec resetOutputBuffer c1) := by
        refine .visiting (v := v) ht fun hok hi => ?_
        have hstart : c.req.bufferStart = 0 := hok.clean v (List.mem_singleton.mpr rfl) hb
        exact ⟨Nat.le_of_eq hstart, Nat.zero_le _, hi.gzip⟩
      exact hreset.trans KeepsRoom.splits (sendRError_rel hw _)
    | false =>
      have hcopy : Under KeepsRoom Indexed c (exec (modReq fun r =>
          ((r.append ((mem.drop c.req.range.start).take n)).counted n).moveStart n) c1) := by
        refine .visiting (v := v) ht fun _ hi => ?_
        have hroom := u32_room hi.room
        have hlen := List.length_take_le n (mem.drop c.req.range.start)
        have hle := hi.room
        have happ : Indexed (c.buffers ((mem.drop c.req.range.start).take n)) :=
          hi.append (by omega)
        exact happ.congr rfl
      simp only [Bool.false_eq_true, if_false, exec_bind, exec_ite, exec_pure]
      split
      · exact hcopy.trans KeepsRoom.splits (completeResponse_under KeepsRoom.splits e _)
      · exact hcopy

/-- A filter that is selected anew starts without a file. -/
theorem selectFilter_under {ok : List Visit → Prop} : Rel (Under ok Indexed) (selectFilter e) := by
  intro c
  have hpass : Passed (fun _ => False) c (exec (selectFilter e) c) :=
    (selectFilter_works (T := fun _ => True) e c).passed
  refine .still hpass.eq fun hi => ?_
  obtain ⟨r, hr⟩ : ∃ r : Request, r =
      if c.req.encoding ≠ [] then { c.req with filter := mimeInterpFilter e c.req } else c.req :=
    ⟨_, rfl⟩
  have hidx : (r.bufferStart, r.bufferEnd) = (c.req.bufferStart, c.req.bufferEnd) := by
    rw [hr]
    split <;> rfl
  obtain ⟨hstart, hend⟩ := Prod.mk.inj hidx
  have horder : r.bufferStart ≤ r.bufferEnd := by
    rw [hstart, hend]
    exact hi.order
  have hroom : r.bufferEnd ≤ bufferSize := by
    rw [hend]
    exact hi.room
  simp only [selectFilter, exec_bind, exec_modReq, exec_getReq, value_getReq, ← hr]
  cases hf : r.filter with
  | none =>
    refine ⟨horder, hroom, fun h => ?_⟩
    have hnone := hf.symm.trans h
    cases hnone
  | some f =>
    cases f with
    | deflate =>
      refine ⟨horder, hroom, fun h => ?_⟩
      have hkind := hf.symm.trans h
      cases hkind
    | gzip =>
      refine ⟨horder, hroom, fun _ => ?_⟩
      have hmode : gzdopenAccepts (str "w+") = false := by decide
      simp only [mimeFilterInit, exec_bind, exec_get, exec_modReq, hmode, Bool.and_false,
        Bool.false_eq_true, if_false]

theorem under_serves : Serves e (Under KeepsRoom Indexed) where
  toLaunches := under_launches KeepsRoom.splits e
  gzip := mimeGetGzip_under e
  filter := selectFilter_under e
  decline := (under_fills KeepsRoom.splits).bind (mark_under _) fun _ => setStatus_under _
  initGet := mark_under _
  dirmaker := mark_under _
  mapped fd f := by
    have h := under_fills KeepsRoom.splits
    refine h.bind (mark_under _) fun _ => Rel.read fun c => ?_
    split
    · exact h.bind (modReq_under fun _ => rfl) fun _ => setStatus_under _
    · exact modReq_under fun _ => rfl
  complete := completeResponse_under KeepsRoom.splits e
  fill := fillBuffer_under e

theorem openPost_under : Rel (Under KeepsRoom Indexed) (openPost e) := by
  have h := under_walks KeepsRoom.splits e
  refine Rel.read fun c => ?_
  dsimp only
  split
  · exact h.returning (sendRError_rel h) _
  · refine h.bind (fun _ => .still rfl (·.congr rfl)) fun _ => ?_
    split
    · exact h.pure _
    · exact h.bind (crotalusPerror_rel h) fun _ => h.bind (modReq_under fun _ => rfl) fun _ => h.pure _

theorem under_heads : Heads e (Under KeepsRoom Indexed) where
  toServes := under_serves e
  script _ _ := .still rfl (·.congr rfl)
  line h := modReq_under fun r => Request.indices_unread (h r)
  headerEnd := mark_under _
  post := openPost_under e

theorem startBody_under (ret : Int) : Rel (Under KeepsRoom Indexed) (startBody e ret) := by
  have h := under_walks KeepsRoom.splits e
  refine h.bind (fun _ => .still rfl (·.congr rfl)) fun _ => ?_
  refine h.bind (modReq_under fun _ => rfl) fun _ => h.bind (setStatus_under _) fun _ => ?_
  refine readReq_rel fun r => ?_
  split
  · exact h.returning (sendRBadRequest_rel h) _
  · exact h.bind (modReq_under fun _ => rfl) fun _ => h.pure _

theorem headerDone_under : Rel (Under KeepsRoom Indexed) (headerDone e) := by
  have h := under_heads e
  refine h.bind (endHeader_rel h) fun ret => readReq_rel fun r => ?_
  split
  · exact startBody_under e _
  · exact h.pure _

theorem under_parses : Parses e (Under KeepsRoom Indexed) where
  toHeads := under_heads e
  logline := mark_under _
  optionLine := mark_under _
  automaton _ _ := setStatus_under _ _
  die := setStatus_under _
  recv := sockRead_under
  ended c _ := headerDone_under e c

end Read

end Crotalus
