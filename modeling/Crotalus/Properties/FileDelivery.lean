import Crotalus.Properties.Accounting
import Crotalus.Properties.ReplyFrame

namespace Crotalus

open Stateful

/-! A file reaches its client: the same bytes in whichever way it is read. -/

/-! A turn keeps to the text, and the end of the response is the end of the text. -/

/-- All that is left of the response is in the buffer. -/
structure Full (e : Config) (text : Text) (c : Conn) : Prop where
  ended : Ended text c
  counting : ∃ base total,Counting base total 0 c ∧ text.length=base+total

/-- `io_shuffle` has one range on its way, from a file that holds it. -/
structure ShufflesOne (e : Config) (text : Text) (c : Conn) : Prop where
  live : Live e text c
  copies : e.build.haveSendfile=false
  status : c.req.status=.ioshuffle
  single : ¬c.req.multipart
  opened : c.req.dataFd≠0
  held : c.req.range.stop < c.req.dataFile.length
  written : c.req.bytesWritten ≤ c.wire.length

/-- A response to one range of a file. -/
inductive Answers (e : Config) (text : Text) (c : Conn) : Prop where
  | serving (base total : Nat) (h : Live e text c) (hone : ServesOne e base total c)
      (hlen : text.length=base+total)
  | shuffling (h : ShufflesOne e text c)
  | full (h : Full e text c)
  | dead (h : Dead text c)

/-- What a handler that returned `ret` leaves. -/
inductive Answered (e : Config) (text : Text) (c : Conn) : Int → Prop where
  | goesOn (ret : Int) (hret : ret≠0) (h : Answers e text c) : Answered e text c ret
  | ends (h : Full e text c) : Answered e text c 0
  | dies (h : Dead text c) : Answered e text c 0

section Turns

variable (e : Config) {text : Text} {base total : Nat} {c : Conn}

theorem Full.of (h : Ended text c) (hcount : Counting base total 0 c)
    (hlen : text.length=base+total) : Full e text c := ⟨h,base,total,hcount,hlen⟩

/-- Bytes in order, and as many of them as are counted. -/
theorem Phase.answers (h : Phase e text c) (ha : Accounted e base total c)
    (hlen : text.length=base+total) : Answers e text c := by
  cases h with
  | live h =>
    cases ha with
    | serving hone => exact .serving base total h hone hlen
    | ended _ hs => exact absurd (h.status e) (by rw [hs]; decide)
    | gone ho => exact absurd ho (by rw [h.2.1]; decide)
  | ended h =>
    have hs := h.1
    cases ha with
    | serving hone =>
      rcases hone.source with ho|hw|⟨hio,-⟩
      · exact absurd ho (by rw [hs]; decide)
      · exact absurd hw (by rw [hs]; decide)
      · exact absurd hio (by rw [hs]; decide)
    | ended hcount => exact .full (.of e h hcount hlen)
    | gone ho => exact absurd ho (by rw [hs]; decide)
  | dead h => exact .dead h

theorem Turned.answered {ret : Int} (ht : Turned e text c ret) (hr : Returned e base total c ret)
    (hlen : text.length=base+total) : Answered e text c ret := by
  cases hr with
  | goesOn ret hret ha =>
    cases ht with
    | blocks h => exact .goesOn _ hret (h.answers e ha hlen)
    | goesOn h => exact .goesOn _ hret (h.answers e ha hlen)
    | ends | dies | loses => exact absurd rfl hret
  | ends hcount hs =>
    cases ht with
    | ends h => exact .ends (.of e ⟨hs,h⟩ hcount hlen)
    | dies h => exact .dies h
    | loses h => exact absurd hcount.order (Nat.not_le.mpr h.crossed)
  | dies ho =>
    cases ht with
    | ends h => exact .dies ⟨h.filter,ho,h.wire⟩
    | dies h => exact .dies h
    | loses h => exact .dies ⟨h.filter,ho,h.sent⟩

theorem serveTurn_turned (h : Phase e text c)
    (hshort : c.direct e=true → shortWrite c.req.pending c.sys.sock=false) :
    Turned e text (exec (serveTurn e) c) (value (serveTurn e) c) := by
  simp only [serveTurn,exec_bind,value_bind]
  cases h with
  | live h =>
    rcases topFlush_live e h hshort with ⟨hv,hlive,hp,hs⟩|⟨hv,ht⟩
    · have hdirect : (exec (topFlush e) c).direct e=c.direct e := by simp only [Conn.direct,hs]
      rw [hv,if_pos rfl]
      exact processStatus_live e hlive (hdirect ▸ hp)
    · rw [if_neg hv]
      exact ht
  | ended h =>
    rcases topFlush_ended e h with ⟨hv,hend⟩|⟨hv,ht⟩
    · rw [hv,if_pos rfl]
      simp only [processStatus,exec_bind,value_bind,exec_getReq,value_getReq,hend.1]
      exact processDone_turned e hend
    · rw [if_neg hv]
      exact ht
  | dead h =>
    obtain ⟨hv,he⟩ := topFlush_skip e (.inr h.ended)
    rw [hv,he,if_pos rfl]
    have hover := processOver_turned e h
    rcases (over_iff _).mp h.ended with hs|hs <;>
      simpa only [processStatus,exec_bind,value_bind,exec_getReq,value_getReq,hs] using hover

/-! The range goes through the buffer. -/

/-- What the steps of `io_shuffle` leave alone. -/
def Request.aimed (r : Request) : Status × Nat × Nat × Nat × Nat × List Byte :=
  (r.status,r.responseStatus,r.numranges,r.dataFd,r.range.stop,r.dataFile)

theorem ShufflesOne.next (h : ShufflesOne e text c) {c' : Conn} (hlive : Live e text c')
    (hsame : c'.req.aimed=c.req.aimed) (hwritten : c'.req.bytesWritten ≤ c'.wire.length) :
    ShufflesOne e text c' := by
  simp only [Request.aimed,Prod.mk.injEq] at hsame
  obtain ⟨hs,hresp,hnum,hfd,hstop,hfile⟩ := hsame
  refine ⟨hlive,h.copies,hs.trans h.status,?_,?_,?_,hwritten⟩
  · unfold Request.multipart
    rw [hresp,hnum]
    exact h.single
  · rw [hfd]
    exact h.opened
  · rw [hstop,hfile]
    exact h.held

theorem ShufflesOne.frame (h : ShufflesOne e text c) (w : World) (d : Option (Nat × Dir)) :
    ShufflesOne e text { c with sys := w, waits := d } :=
  h.next e (h.live.frame e w d) rfl h.written

theorem ShufflesOne.dies (h : ShufflesOne e text c) :
    Answered e text (exec (setStatus .dead) c) 0 :=
  .dies ⟨h.live.1.filter,rfl,h.live.1.closing.wire⟩

theorem ShufflesOne.took (h : ShufflesOne e text c) {k : Nat} (hk : k ≤ c.req.pending.length)
    {n : Nat} (hn : n ≤ k) (w : World) (d : Option (Nat × Dir)) :
    ShufflesOne e text { c with
      req := (c.req.taken k).counted n
      wire := c.wire++c.req.pending.take k, sys := w, waits := d } := by
  have hwritten := h.written
  obtain ⟨b,i,hsame⟩ := taken_same c.req k
  refine h.next e (h.live.took e hk n w d) ?_ ?_
  · dsimp only
    rw [hsame]
    rfl
  · dsimp only
    rw [hsame,List.length_append,List.length_take,Nat.min_eq_left hk]
    show c.req.bytesWritten+n ≤ _
    omega

theorem ioShuffleWrite_answered (h : ShufflesOne e text c) :
    Answered e text (exec ioShuffleWrite c) (value ioShuffleWrite c) := by
  simp only [ioShuffleWrite,exec_bind,value_bind,exec_get,value_get]
  by_cases hempty : c.req.bufferEnd=c.req.bufferStart
  · simp only [if_pos hempty,if_neg h.opened,exec_bind,value_bind,exec_modReq]
    have hlive := h.live.emptied e (c.req.pending_eq_nil (Nat.le_of_eq hempty))
    exact .goesOn 1 (by decide) (.shuffling (h.next e hlive rfl h.written))
  · simp only [if_neg hempty,exec_bind,value_bind]
    have hw := writePending_wrote c.sys.sock.length c h.live.1.order
    generalize value (retryIntr writePending c.sys.sock.length) c=v at hw ⊢
    generalize exec (retryIntr writePending c.sys.sock.length) c=c2 at hw ⊢
    cases hw with
    | failed err w d =>
      cases err with
      | again => exact .goesOn (-1) (by decide) (.shuffling (h.frame e w d))
      | _ => exact (h.frame e w d).dies
    | took k w d =>
      have htake : c.req.pending.take (c.req.pending.take k).length=c.req.pending.take k := by
        rw [List.length_take,← List.take_take,List.take_length]
      have hnext := h.took e (k := (c.req.pending.take k).length) (List.length_take_le' ..)
        (Nat.le_refl _) w d
      rw [htake] at hnext
      exact .goesOn 1 (by decide) (.shuffling hnext)

/-- The range is used up: the text is as long as what has gone out and what waits. -/
theorem completeResponse_answered (h : Spent e text c) (hm : ¬c.req.multipart)
    (hwritten : c.req.bytesWritten ≤ c.wire.length) :
    Answered e text (exec (completeResponse e) c) (value (completeResponse e) c) := by
  obtain ⟨hserving,r0,rs,hr,hspent⟩ := h
  obtain ⟨hv,he⟩ := completeResponse_single e hm
  have hnone : c.req.remaining e=[] := by
    rw [Request.remaining,hr]
    simp only [part_spent _ _ hspent,if_neg hm,List.append_nil]
  have hall : c.wire.length+c.req.pending.length=text.length := by
    rw [← hserving.sent,hnone,List.append_nil,List.length_append]
  rw [hv,he]
  refine .ends ⟨⟨rfl,hserving.filter,hserving.order,hserving.closing.sent⟩,
    text.length-c.req.bytesWritten,c.req.bytesWritten,
    ⟨hserving.filter,hserving.order,rfl,?_⟩,by omega⟩
  show c.wire.length+c.req.pending.length+0=_
  omega

/-- A read of a file that has not come to its end finds something. -/
theorem fileRead_reads (off k : Nat) (hk : 0 < k) (hoff : off < c.req.dataFile.length)
    (hreads : IoRes.done 0 ∉ c.sys.file) :
    value (fileRead off k) c≠.ok [] ∧ IoRes.done 0 ∉ (exec (fileRead off k) c).sys.file ∧
      (exec (fileRead off k) c).req=c.req := by
  cases hs : c.sys.file with
  | nil => simp [fileRead,hs,exec_waitFor,Conn.waiting]
  | cons r rest =>
    rw [hs,List.mem_cons,not_or] at hreads
    cases r with
    | fail err =>
      simp only [fileRead,hs,exec_bind,value_bind,exec_get,value_get,exec_set,exec_waitFor,
        exec_pure,value_pure,Conn.waiting]
      split <;> simp [hreads.2]
    | done n =>
      simp only [fileRead,hs,exec_bind,value_bind,exec_get,value_get,exec_set,exec_pure,value_pure]
      refine ⟨fun h => ?_,hreads.2,trivial⟩
      have hn : n≠0 := fun h0 => hreads.1 (by rw [h0])
      have hlen := congrArg List.length (Except.ok.inj h)
      simp only [List.length_take,List.length_drop,List.length_nil] at hlen
      omega

theorem retryIntr_reads (off k n : Nat) (hk : 0 < k) (hoff : off < c.req.dataFile.length)
    (hreads : IoRes.done 0 ∉ c.sys.file) : value (retryIntr (fileRead off k) n) c≠.ok [] := by
  let R : Conn → Except Errno (List Byte) → Conn → Prop := fun c res c' =>
    off < c.req.dataFile.length → IoRes.done 0 ∉ c.sys.file →
      res≠.ok [] ∧ IoRes.done 0 ∉ c'.sys.file ∧ c'.req=c.req
  have hrun : R c (value (retryIntr (fileRead off k) n) c) (exec (retryIntr (fileRead off k) n) c) := by
    refine retryIntr_spec (fun c => fileRead_reads off k hk) ?_ n c
    intro c1 c2 c3 res h h' hoff hfile
    obtain ⟨-,hfile',hreq⟩ := h hoff hfile
    obtain ⟨hres,hfile'',hreq'⟩ := h' (hreq ▸ hoff) hfile'
    exact ⟨hres,hfile'',hreq'.trans hreq⟩
  exact (hrun hoff hreads).1

theorem ioShuffle_answered (h : ShufflesOne e text c) (hreads : IoRes.done 0 ∉ c.sys.file) :
    Answered e text (exec (ioShuffle e) c) (value (ioShuffle e) c) := by
  obtain ⟨r0,rs,hr,hrange,hok⟩ := h.live.range
  have hhead : c.req.method≠.head := by rw [h.live.1.method]; decide
  simp only [ioShuffle,exec_bind,value_bind,exec_get,value_get,if_neg hhead,hrange]
  by_cases hwant : c.req.shuffleWant > 0 ∧ c.req.dataFd≠0
  · have hn := shuffleWant_le hrange hok hwant.1
    have hpos : 0 < c.req.shuffleWant.toNat := by have := hwant.1; omega
    simp only [if_pos hwant,exec_bind,value_bind]
    generalize c.req.shuffleWant.toNat=n at hn hpos
    have hseek : ShufflesOne e text (exec seekOk c) := h.frame e _ c.waits
    by_cases hok' : value seekOk c=true
    · simp only [hok',if_true,exec_bind,value_bind]
      have hmark : ShufflesOne e text (exec (mark (.fileAccess r0.start n)) (exec seekOk c)) :=
        hseek.next e (hseek.live.marked e _) rfl hseek.written
      have hreq : (exec (mark (.fileAccess r0.start n)) (exec seekOk c)).req=c.req := rfl
      have hfile : (exec (mark (.fileAccess r0.start n)) (exec seekOk c)).sys.file=c.sys.file := rfl
      generalize exec (mark (.fileAccess r0.start n)) (exec seekOk c)=c1 at hmark hreq hfile ⊢
      rw [← hreq] at hr
      have hheld : r0.start < c1.req.dataFile.length := by
        have hstop := hmark.held
        rw [Request.range,hr] at hstop
        exact Nat.lt_of_le_of_lt hok.1 hstop
      have hread := retryIntr_readFile r0.start n c.sys.file.length c1
      have hsome := retryIntr_reads (c := c1) r0.start n c.sys.file.length hpos hheld
        (hfile ▸ hreads)
      generalize value (retryIntr (fileRead r0.start n) c.sys.file.length) c1=v at hread hsome ⊢
      generalize exec (retryIntr (fileRead r0.start n) c.sys.file.length) c1=c2 at hread ⊢
      cases hread with
      | failed err w d =>
        have hnext := hmark.frame e w d
        cases err with
        | again =>
          simp only
          split
          · exact .goesOn (-1) (by decide) (.shuffling hnext)
          · exact ioShuffleWrite_answered e hnext
        | _ => exact hnext.dies
      | got k w d =>
        have hcontent : c1.req.dataFile=c1.req.content := hmark.live.unmapped e hmark.status
        rw [hcontent] at hsome ⊢
        generalize hbs : ((c1.req.content.drop r0.start).take n).take k=bs at hsome
        cases bs with
        | nil => exact absurd rfl hsome
        | cons b bs =>
          obtain ⟨m,hnext,hle,hspent,hlive⟩ :=
            hmark.live.buffered e hr hn (b::bs) hbs.symm w d
          have hstep : exec (modReq fun r => (r.append (b::bs)).moveStart (b::bs).length)
              { c1 with sys := w, waits := d }=
                { c1 with
                  req := (c1.req.append (b::bs)).moveStart (b::bs).length
                  sys := w, waits := d } := rfl
          simp only [exec_bind,value_bind,hstep,exec_getReq,value_getReq]
          rw [hnext]
          split
          · rename_i hz
            exact completeResponse_answered e (hspent ((u64_spent hle hok.2).mp hz)) hmark.single
              hmark.written
          · rename_i hz
            refine ioShuffleWrite_answered e (hmark.next e
              (hlive fun h => hz ((u64_spent hle hok.2).mpr h)) ?_ hmark.written)
            rfl
    · simp only [hok',Bool.false_eq_true,if_false]
      exact hseek.dies
  · simp only [if_neg hwant]
    exact ioShuffleWrite_answered e h

theorem processStatus_shuffles (h : ShufflesOne e text c) (hreads : IoRes.done 0 ∉ c.sys.file) :
    Answered e text (exec (processStatus e) c) (value (processStatus e) c) := by
  simp only [processStatus,exec_bind,value_bind,exec_getReq,value_getReq,h.status,h.copies,
    Bool.false_eq_true,if_false]
  exact ioShuffle_answered e h hreads

/-- The results that the reads of the file will have. -/
def Conn.reads (c : Conn) : List IoRes := c.sys.file

theorem sockWrite_reads (bs : List Byte) : Keeps Conn.reads (sockWrite bs) := by
  intro c
  cases hs : c.sys.sock with
  | nil => rw [(sockWrite_nil bs hs).2]; rfl
  | cons r rest =>
    cases r with
    | fail err =>
      rw [(sockWrite_fail bs hs).2,Conn.waiting]
      split <;> rfl
    | done n => rw [(sockWrite_done bs hs).2]; rfl

/-- The flush before the switch leaves them alone. -/
theorem topFlush_reads (hf : c.req.filter=none) : (exec (topFlush e) c).reads=c.reads := by
  have hwrite : Keeps Conn.reads writePending :=
    .bind .get fun c => .ite (.pure _) (sockWrite_reads _)
  have hflush : (exec (reqFlush e) c).reads=c.reads := by
    simp only [reqFlush,exec_bind,exec_getReq,value_getReq,hf,exec_ite]
    split
    · rfl
    split
    · rfl
    refine (?_ : Conn.reads _=_).trans (hwrite c)
    cases value writePending c with
    | ok n => rfl
    | error err => cases err <;> rfl
  simp only [topFlush,exec_bind,exec_getReq,value_getReq,exec_ite]
  split
  · refine Eq.trans ?_ hflush
    split
    · rfl
    split <;> rfl
  · rfl

theorem ShufflesOne.turn (h : ShufflesOne e text c) (hreads : IoRes.done 0 ∉ c.sys.file) :
    Answered e text (exec (serveTurn e) c) (value (serveTurn e) c) := by
  have hfile : (exec (topFlush e) c).sys.file=c.sys.file := topFlush_reads e h.live.1.filter
  by_cases h0 : c.req.bufferEnd=0
  · obtain ⟨he,hv⟩ := serveTurn_drained e h0
    rw [he,hv]
    exact processStatus_shuffles e h hreads
  · simp only [serveTurn,exec_bind,value_bind]
    rw [← hfile] at hreads
    rcases topFlush_cases e h.live.2.1 h.live.1.filter h.live.1.order h0 with
      ⟨k,w,hk,-,hv,he⟩|⟨w,hv,he⟩|⟨hv,hw,hf,ho⟩
    · rw [hv,if_pos rfl]
      have hnext := h.took e hk (Nat.zero_le k) w c.waits
      rw [he] at hreads ⊢
      exact processStatus_shuffles e hnext hreads
    · rw [hv,he,if_neg (by decide)]
      exact .goesOn (-1) (by decide) (.shuffling (h.frame e w _))
    · rw [hv,if_neg (by decide)]
      exact .dies ⟨hf,ho,hw ▸ h.live.1.closing.wire⟩

/-- Direct writes, the way through the buffer, the rest of it, and the end of a dead request. -/
theorem Answers.turn (h : Answers e text c) (hreads : IoRes.done 0 ∉ c.sys.file)
    (hshort : c.direct e=true → shortWrite c.req.pending c.sys.sock=false) :
    Answered e text (exec (serveTurn e) c) (value (serveTurn e) c) := by
  cases h with
  | serving base total h hone hlen =>
    exact (serveTurn_turned e (.live h) hshort).answered e (serveTurn_returned e (.serving hone)) hlen
  | shuffling h => exact h.turn e hreads
  | full h =>
    obtain ⟨base,total,hcount,hlen⟩ := h.counting
    have hret := serveTurn_returned e (.ended hcount h.ended.1)
    exact (serveTurn_turned e (.ended h.ended) hshort).answered e hret hlen
  | dead h =>
    have hgone : Accounted e 0 text.length c := .gone h.ended
    have hret := serveTurn_returned e hgone
    exact (serveTurn_turned e (.dead h) hshort).answered e hret (Nat.zero_add _).symm

/-! Up to the entry in the access log. -/

/-- The response on its way, and as `log_access` finds it. -/
inductive DeliversFile (e : Config) (text : Text) : Logged → Prop where
  | waits (c : Conn) (h : Answers e text c) : DeliversFile e text ⟨c,false⟩
  | prints (c : Conn) (hw : c.wire <+: text) (hall : Logged.completed ⟨c,true⟩ → c.wire=text) :
      DeliversFile e text ⟨c,true⟩

theorem Answers.wire (h : Answers e text c) : c.wire <+: text := by
  cases h with
  | serving base total h => exact h.1.closing.wire
  | shuffling h => exact h.live.1.closing.wire
  | full h => exact h.ended.2.wire
  | dead h => exact h.sent

theorem DeliversFile.wire {s : Logged} (h : DeliversFile e text s) : s.conn.wire <+: text := by
  cases h with
  | waits c h => exact h.wire
  | prints c hw => exact hw

theorem DeliversFile.whole {s : Logged} (h : DeliversFile e text s) (hc : s.completed) :
    s.conn.wire=text := by
  cases h with
  | waits c h => exact absurd hc.1 Bool.false_ne_true
  | prints c hw hall => exact hall hc

theorem Answers.frame (h : Answers e text c) (w : World) : Answers e text { c with sys := w } := by
  cases h with
  | serving base total h hone hlen =>
    exact .serving base total (h.frame e w c.waits) (hone.frame e w c.waits c.trace) hlen
  | shuffling h => exact .shuffling (h.frame e w c.waits)
  | full h =>
    obtain ⟨base,total,hcount,hlen⟩ := h.counting
    obtain ⟨hs,hc⟩ := h.ended
    exact .full (.of e ⟨hs,hc.filter,hc.order,hc.sent⟩ (hcount.frame w c.waits) hlen)
  | dead h => exact .dead ⟨h.filter,h.ended,h.sent⟩

/-- The flush of `free_request`. -/
theorem freeFlush_phase (h : Ended text c) :
    (exec (freeFlush e) c).wire <+: text ∧
      (value (freeFlush e) c=true → Phase e text (exec (freeFlush e) c)) := by
  obtain ⟨hs,hc⟩ := h
  by_cases h0 : c.req.bufferEnd=0
  · obtain ⟨hv,he⟩ := freeFlush_skip e (.inl h0)
    rw [hv,he]
    exact ⟨hc.wire,fun _ => .ended ⟨hs,hc⟩⟩
  · have hdone : c.asDone=c := by
      unfold Conn.asDone
      rw [← hs]
    obtain ⟨hv,he⟩ := freeFlush_run e h0 (by rw [hs]; rfl)
    rw [hdone] at hv he
    have hout := reqFlush_outcome e (c := c) (by rw [hs]; rfl) hc.filter hc.order
    rw [hv,he]
    generalize value (reqFlush e) c=i at hout ⊢
    generalize exec (reqFlush e) c=c' at hout ⊢
    cases hout with
    | took k w hk hshort he =>
      have hnext := hc.took w hk
      rw [if_neg (by omega),he]
      refine ⟨hnext.wire,fun _ => .ended ⟨?_,hnext⟩⟩
      obtain ⟨b,i,hsame⟩ := taken_same c.req k
      show (c.req.taken k).status=.done
      rw [hsame]
      exact hs
    | blocked w he =>
      rw [he]
      exact ⟨hc.wire,fun hv => absurd hv (by decide)⟩
    | failed w he =>
      rw [he]
      exact ⟨hc.wire,fun hv => absurd hv (by decide)⟩

/-- What has gone out is the front of the text, and the counted bytes are the whole text. -/
theorem Full.logs (h : Full e text c) :
    DeliversFile e text ⟨exec (freeFlush e) c,!value (freeFlush e) c⟩ := by
  obtain ⟨base,total,hcount,hlen⟩ := h.counting
  obtain ⟨hw,hphase⟩ := freeFlush_phase e h.ended
  have hprints := freeFlush_prints e hcount h.ended.1
  generalize value (freeFlush e) c=v at hphase hprints ⊢
  generalize exec (freeFlush e) c=c' at hw hphase hprints ⊢
  cases v with
  | true =>
    cases hprints with
    | waits _ ha => exact .waits c' ((hphase rfl).answers e ha hlen)
  | false =>
    cases hprints with
    | prints _ hcount' =>
      refine .prints c' hw fun hdone => hw.eq_of_length ?_
      have hsent := hcount'.sent
      have hpend : c'.req.pending=[] := hdone.2.2
      rw [hpend,List.length_nil] at hsent
      omega
    | lost _ ho => exact .prints c' hw fun hdone => absurd ho (by rw [hdone.2.1]; decide)

theorem Answered.logs {ret : Int} (h : Answered e text c ret) : DeliversFile e text (c.logs e ret) := by
  cases h with
  | goesOn ret hret h =>
    rw [Conn.logs,if_neg hret]
    exact .waits c h
  | ends h =>
    rw [Conn.logs,if_pos rfl]
    exact h.logs
  | dies h =>
    obtain ⟨hv,he⟩ := freeFlush_skip e (.inr h.ended)
    rw [Conn.logs,if_pos rfl,hv,he]
    refine .prints c h.sent fun hdone => ?_
    have hover : c.req.status.over=false := hdone.2.1
    exact absurd h.ended (by rw [hover]; decide)

/-- A turn before which the file still has what it should, and whose flush, in front of a write
past the buffer, empties the buffer or takes nothing. -/
def Logged.smooth (e : Config) (s : Logged) (w : World) : Prop :=
  s.logged=true ∨ IoRes.done 0 ∉ w.file ∧
    (s.conn.direct e=true → shortWrite s.conn.req.pending w.sock=false)

theorem logTurn_delivers (s : Logged) (w : World) (h : DeliversFile e text s) (hok : s.smooth e w) :
    DeliversFile e text (logTurn e s w) := by
  cases h with
  | waits c h =>
    obtain ⟨hreads,hshort⟩ := hok.resolve_left Bool.false_ne_true
    exact ((h.frame e w).turn e hreads hshort).logs
  | prints c hw hall => exact .prints c hw hall

end Turns

/-- The range of the file that a request is answered with: the one it names, or all of it. -/
def Request.answeredRange (f : File) (r : Request) : Range :=
  (rangesLeft f.size r.ranges).headD ⟨0,f.size-1⟩

def Request.fileReply (r : Request) : Reply := if r.ranges=[] then .ok else .partialContent

/-- The request with its range settled. -/
def Request.ranged (r : Request) (a : Range) : Request := { r with ranges := [a] }

/-- The header of the answer. -/
def fileHeader (e : Config) (t : Nat) (f : File) (r : Request) : Text :=
  pieceBytes (r.fileReply.pieces e t
    (r.fileReply.begins ((r.opened f).ranged (r.answeredRange f))))

/-- The answer: the header, and the bytes of the range. -/
def fileAnswer (e : Config) (t : Nat) (f : File) (r : Request) : Text :=
  fileHeader e t f r++part f.bytes (r.answeredRange f)

/-- A request for one range of a file, or for all of it, behind an empty buffer; the file holds
what its size says, and its header fits the buffer. -/
structure AsksPlainly (e : Config) (fd : Nat) (f : File) (c : Conn) : Prop where
  asks : AsksOne e f c
  version : c.req.httpVersion≠.http09
  unhandled : c.req.mime=none ∧ c.req.cgiType=.unset
  empty : c.req.bufferEnd=0
  held : f.bytes.length=f.size
  opened : fd≠0
  calm : c.sys.sigbus.headD false=false
  fits : (fileHeader e c.sys.now f c.req).length ≤ bufferSize

section Header

variable {e : Config} {fd : Nat} {f : File} {c : Conn}

theorem answeredRange_ok (h : AsksOne e f c) :
    (c.req.answeredRange f).start ≤ (c.req.answeredRange f).stop ∧
      (c.req.answeredRange f).stop < f.size ∧
      (c.req.ranges≠[] → rangesLeft f.size c.req.ranges=[c.req.answeredRange f]) := by
  have hsize : 0 < f.size ∧ f.size < 2^63 :=
    ⟨(h.asked.settled e h.serves).nonempty,h.asked.size⟩
  by_cases hr : c.req.ranges=[]
  · have hall : c.req.answeredRange f=⟨0,f.size-1⟩ := by
      rw [Request.answeredRange,hr,rangesLeft,if_neg (by omega)]
      rfl
    rw [hall]
    exact ⟨Nat.zero_le _,by show f.size-1 < f.size; omega,fun hne => absurd hr hne⟩
  · have hlen := rangesLeft_length f.size c.req.ranges
    have hone := h.ranges
    have hleft : rangesLeft f.size c.req.ranges≠[] := by
      intro hnil
      have hserves := h.serves
      simp [Conn.servesFile,hr,hnil] at hserves
    obtain ⟨a,rest,ha⟩ := List.exists_cons_of_ne_nil hleft
    rw [ha,List.length_cons] at hlen
    have hrest : rest=[] := List.length_eq_zero_iff.mp (by omega)
    have hans : c.req.answeredRange f=a := by rw [Request.answeredRange,ha]; rfl
    obtain ⟨hok,hstop⟩ := rangesLeft_ok hsize c.req.ranges a (by rw [ha]; exact List.mem_cons_self)
    rw [hans]
    exact ⟨hok.1,hstop,fun _ => by rw [ha,hrest]⟩

/-- `init_get` behind the choice between the mapping and the descriptor. -/
def Conn.chosen (fd : Nat) (f : File) (c : Conn) : Conn :=
  exec (mapFile fd f) (exec (mark .serveFile) (c.opened f))

/-- Before the reply the range is settled. -/
def Conn.rangeSettled (fd : Nat) (f : File) (c : Conn) : Conn :=
  { c.chosen fd f with req := (c.chosen fd f).req.ranged (c.req.answeredRange f) }

theorem chosen_cases (fd : Nat) (f : File) (c : Conn) :
    (f.size > maxFileMmap ∨ c.sys.mmap=false) ∧ (c.chosen fd f).sys=c.sys ∧
        (c.chosen fd f).wire=c.wire ∧ (c.chosen fd f).req=
          { c.req.opened f with dataFd := fd, dataFile := f.bytes, status := .ioshuffle } ∨
      ¬(f.size > maxFileMmap ∨ c.sys.mmap=false) ∧ (c.chosen fd f).sys=c.sys ∧
        (c.chosen fd f).wire=c.wire ∧
        (c.chosen fd f).req={ c.req.opened f with dataMem := some f.mapped } := by
  have hsize : (exec (mark .serveFile) (c.opened f)).req.filesize=f.size := rfl
  have hmmap : (!(exec (mark .serveFile) (c.opened f)).sys.mmap)=true ↔ c.sys.mmap=false := by
    show (!c.sys.mmap)=true ↔ _
    simp
  unfold Conn.chosen
  simp only [mapFile,exec_bind,value_get,exec_get,exec_ite,hsize,hmmap]
  by_cases hbig : f.size > maxFileMmap ∨ c.sys.mmap=false
  · rw [if_pos hbig]
    exact .inl ⟨hbig,rfl,rfl,rfl⟩
  · rw [if_neg hbig]
    exact .inr ⟨hbig,rfl,rfl,rfl⟩

theorem headed_sends (h : AsksOne e f c) :
    headed e fd f (c.opened f)=exec (c.req.fileReply.send e) (c.rangeSettled fd f) := by
  have hsize : 0 < f.size ∧ f.size < 2^63 :=
    ⟨(h.asked.settled e h.serves).nonempty,h.asked.size⟩
  obtain ⟨-,-,hone⟩ := answeredRange_ok h
  have hrun : headed e fd f (c.opened f)=exec (serveHeader e) (c.chosen fd f) := rfl
  have hchosen : (c.chosen fd f).req.ranges=rangesLeft f.size c.req.ranges ∧
      (c.chosen fd f).req.filesize=f.size := by
    rcases chosen_cases fd f c with ⟨-,-,-,hr⟩|⟨-,-,-,hr⟩ <;> rw [hr] <;> exact ⟨rfl,rfl⟩
  rw [hrun]
  by_cases hr : c.req.ranges=[]
  · have hnil : (c.chosen fd f).req.ranges=[] := by
      rw [hchosen.1,hr,rangesLeft,if_neg (by omega)]
      rfl
    have hall : c.req.answeredRange f=⟨0,f.size-1⟩ := by
      rw [Request.answeredRange,hr,rangesLeft,if_neg (by omega)]
      rfl
    have hwhole := rangesLeft_whole hsize
    have hreply : c.req.fileReply=.ok := if_pos hr
    rw [hreply,Conn.rangeSettled,hall]
    simp [serveHeader,hnil,rangesFixup,hwhole,hchosen.2,Reply.send,Request.ranged]
  · have hleft : (c.chosen fd f).req.ranges=[c.req.answeredRange f] := hchosen.1.trans (hone hr)
    have hsame : c.rangeSettled fd f=c.chosen fd f := by
      unfold Conn.rangeSettled Request.ranged
      rw [← hleft]
    have hreply : c.req.fileReply=.partialContent := if_neg hr
    rw [hreply,hsame]
    simp [serveHeader,hleft,Reply.send]

/-- What the header says has nothing to do with how the file is read. -/
theorem fileReply_pieces (t : Nat) : pieceBytes (c.req.fileReply.pieces e t
    (c.req.fileReply.begins (c.rangeSettled fd f).req))=fileHeader e t f c.req := by
  have hreq : (c.rangeSettled fd f).req=(c.chosen fd f).req.ranged (c.req.answeredRange f) := rfl
  rw [hreq,fileHeader]
  unfold Request.fileReply
  rcases chosen_cases fd f c with ⟨-,-,-,hr⟩|⟨-,-,-,hr⟩ <;> rw [hr] <;> split <;> rfl

/-- The header is in the buffer. -/
theorem headed_buffers (h : AsksPlainly e fd f c) : headed e fd f (c.opened f)=
    (c.req.fileReply.start (c.rangeSettled fd f)).buffers (fileHeader e c.sys.now f c.req) := by
  have hasks := h.asks
  have hsettled : (c.rangeSettled fd f).sys=c.sys ∧ (c.rangeSettled fd f).req.status.over=false ∧
      (c.rangeSettled fd f).req.bufferEnd=0 ∧ (c.rangeSettled fd f).req.httpVersion=c.req.httpVersion ∧
      (c.rangeSettled fd f).req.mime=c.req.mime ∧ (c.rangeSettled fd f).req.cgiType=c.req.cgiType ∧
      (c.rangeSettled fd f).req.filter=none := by
    have hreq : (c.rangeSettled fd f).req=(c.chosen fd f).req.ranged (c.req.answeredRange f) := rfl
    have hst := hasks.asked.status
    rw [hreq]
    rcases chosen_cases fd f c with ⟨-,hs,-,hr⟩|⟨-,hs,-,hr⟩ <;> rw [hr]
    · exact ⟨hs,rfl,h.empty,rfl,rfl,rfl,hasks.asked.filter⟩
    · exact ⟨hs,by show c.req.status.over=false; rw [hst]; rfl,h.empty,rfl,rfl,rfl,
        hasks.asked.filter⟩
  obtain ⟨hsys,halive,hempty,hv,hmime,hkind,hfilter⟩ := hsettled
  have hstart : ∀ k : Reply,(k=.ok ∨ k=.partialContent) →
      (k.start (c.rangeSettled fd f)).req.status.over=false ∧
        (k.start (c.rangeSettled fd f)).req.bufferEnd=0 := by
    rintro k (rfl|rfl) <;> exact ⟨halive,hempty⟩
  have hsends : exec (c.req.fileReply.send e) (c.rangeSettled fd f)=
      exec (puts (c.req.fileReply.pieces e c.sys.now (c.req.fileReply.begins (c.rangeSettled fd f).req)))
        (c.req.fileReply.start (c.rangeSettled fd f)) := by
    unfold Request.fileReply
    split
    · rw [ok_prints ⟨hmime.trans h.unhandled.1,hkind.trans h.unhandled.2⟩ (hv ▸ h.version),
        if_pos hfilter,hsys]
      rfl
    · rw [partialContent_prints,hsys]
  have hkind : c.req.fileReply=.ok ∨ c.req.fileReply=.partialContent := by
    unfold Request.fileReply
    split
    · exact .inl rfl
    · exact .inr rfl
  obtain ⟨hs,h0⟩ := hstart _ hkind
  obtain ⟨hiff,hwritten⟩ := puts_fits _ (Reply.pieces_cushioned (e := e) (t := c.sys.now)
    (r := c.req.fileReply.begins (c.rangeSettled fd f).req) c.req.fileReply)
    (c.req.fileReply.start (c.rangeSettled fd f)) hs (by rw [h0]; exact Nat.zero_le _)
  rw [headed_sends hasks,hsends,hwritten (hiff.mpr _),fileReply_pieces]
  rw [h0,fileReply_pieces,Nat.zero_add]
  exact h.fits

theorem fileReply_begins (r r' : Request) :
    r.fileReply.begins r'={ r' with responseStatus := r.fileReply.code } := by
  unfold Request.fileReply
  split <;> rfl

/-- What the header leaves is the same for the three ways of reading. -/
theorem headed_leaves (h : AsksPlainly e fd f c) :
    (headed e fd f (c.opened f)).wire=c.wire ∧ (headed e fd f (c.opened f)).sys=c.sys ∧
      (headed e fd f (c.opened f)).req.pending=fileHeader e c.sys.now f c.req ∧
      (headed e fd f (c.opened f)).req.ranges=[c.req.answeredRange f] ∧
      (headed e fd f (c.opened f)).req.numranges=c.req.numranges ∧
      (headed e fd f (c.opened f)).req.content=f.bytes ∧
      (headed e fd f (c.opened f)).req.bytesWritten=0 ∧
      (f.size > maxFileMmap ∨ c.sys.mmap=false →
        (headed e fd f (c.opened f)).req.status=.ioshuffle ∧
        (headed e fd f (c.opened f)).req.dataMem=none ∧
        (headed e fd f (c.opened f)).req.dataFd=fd ∧
        (headed e fd f (c.opened f)).req.dataFile=f.bytes) := by
  have hmapped : f.mapped=f.bytes := by
    rw [File.mapped,h.held,Nat.sub_self,List.replicate_zero,List.append_nil]
  have hpend : ∀ r : Request,r.bufferStart ≤ r.bufferEnd → r.bufferEnd=0 → ∀ msg,
      (r.append msg).pending=msg := by
    intro r hle h0 msg
    rw [r.pending_append msg hle,r.pending_eq_nil (by omega),List.nil_append]
  have hreq : (c.rangeSettled fd f).req=(c.chosen fd f).req.ranged (c.req.answeredRange f) := rfl
  have hsame : (c.rangeSettled fd f).wire=(c.chosen fd f).wire ∧
      (c.rangeSettled fd f).sys=(c.chosen fd f).sys := ⟨rfl,rfl⟩
  have hfresh := h.asks.fresh
  rw [headed_buffers h]
  simp only [Conn.buffers,Reply.start,fileReply_begins,hreq,hsame.1,hsame.2]
  rcases chosen_cases fd f c with ⟨-,hs,hw,hr⟩|⟨hno,hs,hw,hr⟩ <;> rw [hs,hw,hr]
  · refine ⟨rfl,rfl,hpend _ h.asks.asked.order h.empty _,rfl,rfl,?_,hfresh,?_⟩
    · have hmem : c.req.dataMem=none := h.asks.asked.dataMem
      show c.req.dataMem.getD f.bytes=f.bytes
      rw [hmem]
      rfl
    · exact fun _ => ⟨rfl,h.asks.asked.dataMem,rfl,rfl⟩
  · exact ⟨rfl,rfl,hpend _ h.asks.asked.order h.empty _,rfl,rfl,hmapped,hfresh,
      fun hyes => absurd hyes hno⟩

theorem part_length {data : List Byte} {r : Range} (h : r.stop < data.length) :
    (part data r).length=r.stop+1-r.start := by
  rw [part,List.length_take,List.length_drop]
  omega

theorem headed_single (h : AsksPlainly e fd f c) :
    ¬(headed e fd f (c.opened f)).req.multipart := by
  obtain ⟨-,-,-,-,hnum,-⟩ := headed_leaves h
  rintro ⟨-,hmany⟩
  rw [hnum] at hmany
  exact absurd hmany (Nat.not_lt.mpr h.asks.numranges)

theorem headed_remaining (h : AsksPlainly e fd f c) :
    (headed e fd f (c.opened f)).req.remaining e=part f.bytes (c.req.answeredRange f) := by
  obtain ⟨-,-,-,hranges,-,hcontent,-⟩ := headed_leaves h
  rw [Request.remaining,hranges,hcontent]
  simp only [if_neg (headed_single h),List.append_nil]

theorem headed_total (h : AsksPlainly e fd f c) :
    (headed e fd f (c.opened f)).total e=c.wire++fileAnswer e c.sys.now f c.req := by
  obtain ⟨hw,-,hpend,-⟩ := headed_leaves h
  rw [Conn.total,headed_remaining h,hw,hpend,List.append_assoc]
  rfl

/-- The header is in the buffer: the response is on its way. -/
theorem logStart_delivers (h : AsksPlainly e fd f c) :
    DeliversFile e (c.wire++fileAnswer e c.sys.now f c.req) (logStart e fd f c) := by
  have hsettled := h.asks.asked.settled e h.asks.serves
  obtain ⟨hopened,hret⟩ := initGetFile_serves e fd h.asks.serves
  obtain ⟨hfilled,hret'⟩ := serveFile_filled e fd hsettled
  obtain ⟨-,-,hopen,hshort⟩ := headed_open e fd hsettled
  obtain ⟨hw,hsys,hpend,hranges,hnum,hcontent,hwritten,hway⟩ := headed_leaves h
  have htext := headed_total h
  have hstop : (c.req.answeredRange f).stop < f.bytes.length := by
    rw [h.held]
    exact (answeredRange_ok h.asks).2.1
  have hbus : (headed e fd f (c.opened f)).busError=false := by
    rw [Conn.busError,hsys,h.calm,Bool.and_false]
  rw [htext] at hopen
  rw [logStart,hopened,hret,hfilled,hret']
  by_cases hcopies : e.build.haveSendfile=false ∧ (f.size > maxFileMmap ∨ c.sys.mmap=false)
  · obtain ⟨hsend,hfar⟩ := hcopies
    obtain ⟨hs,hmem,hfd,hfile⟩ := hway hfar
    have hfill : exec (fillBuffer e) (headed e fd f (c.opened f))=headed e fd f (c.opened f) ∧
        value (fillBuffer e) (headed e fd f (c.opened f))=1 := by
      simp only [fillBuffer,exec_bind,value_bind,exec_getReq,value_getReq,hmem,exec_pure,value_pure,
        and_self]
    rw [hfill.1,hfill.2]
    refine Answered.logs e (.goesOn 1 (by decide) (.shuffling
      ⟨⟨hopen.1,by rw [hs]; decide,hopen.2⟩,hsend,hs,headed_single h,?_,?_,?_⟩))
    · rw [hfd]
      exact h.opened
    · rw [Request.range,hranges,hfile]
      exact hstop
    · rw [hwritten]
      exact Nat.zero_le _
  · have hcounts : c.countsAll e fd f := by
      refine ⟨?_,hbus⟩
      rw [not_and_or,not_or,Bool.not_eq_false,Bool.not_eq_false] at hcopies
      exact hcopies.imp id fun hnear => ⟨Nat.le_of_not_lt hnear.1,hnear.2⟩
    have hheld : ∀ mem,(headed e fd f (c.opened f)).req.dataMem=some mem →
        (headed e fd f (c.opened f)).req.range.stop < maxFileMmap ∧
          (headed e fd f (c.opened f)).req.range.stop < mem.length := by
      intro mem hm
      refine hshort mem hm _ ?_
      rw [Request.range,hranges]
      exact List.mem_singleton_self _
    refine ((fillBuffer_turned e hopen hbus hshort).answered e
      (fillBuffer_returned e (headed_serves e fd h.asks hcounts) hbus hheld) ?_).logs
    have hleft : (headed e fd f (c.opened f)).req.left=
        (c.req.answeredRange f).stop+1-(c.req.answeredRange f).start := by
      rw [Request.left,Request.range,hranges]
      rfl
    rw [← htext,Conn.total,List.length_append,headed_remaining h,part_length hstop,hleft]
    rfl

/-- A file reaches its client: in every run of the response whose flushes are not cut short in
front of a direct write, what the client has been sent is the front of the one answer, and is all
of it when the response is complete, whether the file is mapped, sent by `sendfile` or read into
the buffer. -/
theorem file_delivered (h : AsksPlainly e fd f c) (ws : List World)
    (hok : Run.AllSteps (logTurn e) (Logged.smooth e) (logStart e fd f c) ws) :
    ∀ s∈Run.states (logTurn e) (logStart e fd f c) ws,
      s.conn.wire <+: c.wire++fileAnswer e c.sys.now f c.req ∧
        (s.completed → s.conn.wire=c.wire++fileAnswer e c.sys.now f c.req) := by
  intro s hs
  have hdelivers := Run.invariant (logTurn_delivers e) (logStart_delivers h) hok s hs
  exact ⟨hdelivers.wire e,hdelivers.whole e⟩

end Header

theorem twoBytesAsked_plainly : AsksPlainly {} 7 twoBytes (twoBytesAsked false) :=
  ⟨twoBytesAsked_asksOne false,by decide,⟨rfl,rfl⟩,rfl,rfl,by decide,rfl,by decide +kernel⟩

/-- The header goes out, then `io_shuffle` reads the two bytes one by one. -/
def oneByOne : List World :=
  [{ sock := [.done 500,.done 500], file := [.done 1] },
    { sock := [.done 500,.done 500], file := [.done 1] }]

theorem file_delivered_oneByOne :
    (Run.final (logTurn {}) (logStart {} 7 twoBytes (twoBytesAsked false)) oneByOne).completed ∧
      (Run.final (logTurn {}) (logStart {} 7 twoBytes (twoBytesAsked false)) oneByOne).conn.wire=
        fileAnswer {} 0 twoBytes (twoBytesAsked false).req := by
  have hdone : (Run.final (logTurn {}) (logStart {} 7 twoBytes (twoBytesAsked false))
      oneByOne).completed := by decide +kernel
  have hsmooth : Run.AllSteps (logTurn {}) (Logged.smooth {})
      (logStart {} 7 twoBytes (twoBytesAsked false)) oneByOne := by
    refine ⟨.inr ⟨by decide,?_⟩,.inr ⟨by decide,?_⟩,trivial⟩
    · decide +kernel
    · decide +kernel
  exact ⟨hdone,(file_delivered twoBytesAsked_plainly oneByOne hsmooth _
    (Run.final_mem_states _ _)).2 hdone⟩

end Crotalus
