import Crotalus.Spec.Await

namespace Crotalus

open Stateful

/-! A blocked request in the descriptor sets of `select`. -/

/-- Just `fd` in direction `d` is new in the sets. -/
def Conn.adds (c c' : Conn) (fd : Nat) (d : Dir) : Prop :=
  ∀ x y,c'.isSet x y=(decide (x=fd ∧ y=d) || c.isSet x y)

/-- Just `fd` in direction `d` is gone from them. -/
def Conn.drops (c c' : Conn) (fd : Nat) (d : Dir) : Prop :=
  ∀ x y,c'.isSet x y=(!decide (x=fd ∧ y=d) && c.isSet x y)

theorem fdSet_adds (fd : Nat) (d : Dir) (c : Conn) : c.adds (exec (fdSet fd d) c) fd d := by
  intro x y
  cases d <;> cases y <;> simp [fdSet,Conn.isSet]

theorem fdClr_drops (fd : Nat) (d : Dir) (c : Conn) : c.drops (exec (fdClr fd d) c) fd d := by
  intro x y
  cases d <;> cases y <;> simp [fdClr,Conn.isSet]

theorem fdSet_maxFd (fd : Nat) (d : Dir) (c : Conn) : (fd : Int) ≤ (exec (fdSet fd d) c).maxFd := by
  cases d with
  | read => exact Int.le_max_right ..
  | write => exact Int.le_max_right ..

/-- The state `c` that a handler has left is to wait for `fd` in direction `d`, and does.
`t` is the blocked request in any later state of the sets, `last` when it was last active. -/
structure WaitsRight (e : Config) (c : Conn) (fd : Nat) (d : Dir) : Prop where
  blocks : (exec (settle e (-1)) c).place=.block ∧ c.adds (exec (settle e (-1)) c) fd d
  wakes : ∀ (t : Conn) (last : Nat),
    t.req={ (exec (settle e (-1)) c).req with timeLast := last } →
    t.req.expired e t.sys.now=false → t.isSet fd d=true →
      (exec (fdsetUpdate e) t).place=.ready
  asks : ∀ (t : Conn) (last : Nat),
    t.req={ (exec (settle e (-1)) c).req with timeLast := last } →
    t.req.expired e t.sys.now=false → t.isSet fd d=false → t.place=.block →
      (exec (fdsetUpdate e) t).place=.block ∧ t.adds (exec (fdsetUpdate e) t) fd d ∧
        (fd : Int) ≤ (exec (fdsetUpdate e) t).maxFd
  clears : ∀ t : Conn,t.req=(exec (settle e (-1)) c).req →
    (exec (readyRequest e) t).place=.ready ∧ t.drops (exec (readyRequest e) t) fd d

/-- Does `fdset_update` ask again for what the request is registered for? -/
def Request.rearms (e : Config) (r : Request) : Prop :=
  r.status.over=false ∧
    ¬(r.status=.ioshuffle ∧ e.build.haveSendfile=false ∧ r.bufferEnd=0 ∧ r.bufferStart=0)

section Select

variable (e : Config)

theorem blockRequest_blocks (c : Conn) : (exec (blockRequest e) c).place=.block ∧
    c.adds (exec (blockRequest e) c) (c.req.registration e).1 (c.req.registration e).2 := by
  have hrun : exec (blockRequest e) c=
      exec (fdSet (c.req.registration e).1 (c.req.registration e).2)
        { c with place := .block } := rfl
  rw [hrun,place_fdSet]
  exact ⟨rfl,fdSet_adds _ _ { c with place := .block }⟩

theorem readyRequest_clears (c : Conn) : (exec (readyRequest e) c).place=.ready ∧
    c.drops (exec (readyRequest e) c) (c.req.registration e).1 (c.req.registration e).2 := by
  have hrun : exec (readyRequest e) c=
      exec (fdClr (c.req.registration e).1 (c.req.registration e).2)
        { c with place := .ready } := rfl
  rw [hrun,place_fdClr]
  exact ⟨rfl,fdClr_drops _ _ { c with place := .ready }⟩

/-- A request that is parked keeps what says where it waits. -/
theorem settle_blocks (c : Conn) : (exec (settle e (-1)) c).place=.block ∧
    c.adds (exec (settle e (-1)) c) (c.req.registration e).1 (c.req.registration e).2 ∧
    ∃ ka,(exec (settle e (-1)) c).req={ c.req with keepalive := ka } := by
  have hrun : exec (settle e (-1)) c=
      exec (blockRequest e) (exec (onlyIf c.sys.sigterm squashKa) c) := rfl
  rw [hrun,req_blockRequest]
  cases c.sys.sigterm with
  | false => exact ⟨(blockRequest_blocks e c).1,(blockRequest_blocks e c).2,_,rfl⟩
  | true =>
    obtain ⟨hp,hadds⟩ := blockRequest_blocks e (exec squashKa c)
    exact ⟨hp,hadds,_,rfl⟩

theorem fdsetUpdate_inTime {t : Conn} (h : t.req.expired e t.sys.now=false) :
    exec (fdsetUpdate e) t=exec (updateBlocked e) t := by
  simp only [fdsetUpdate,exec_bind,exec_get,value_get,h]
  rfl

/-- What the switch of `fdset_update` does for a request that is not at its end. -/
theorem updateBlocked_rearms {t : Conn} (h : t.req.rearms e) : exec (updateBlocked e) t=
    exec (awaitFd e (t.req.registration e).1 (t.req.registration e).2) t := by
  obtain ⟨hover,hfile⟩ := h
  simp only [updateBlocked,exec_bind,exec_getReq,value_getReq,Request.registration]
  by_cases hb : t.req.bufferEnd≠0
  · rw [if_pos hb]
    by_cases hd : t.req.status.rank<Status.rank .done
    · rw [if_pos ⟨hb,hd⟩]
    · rw [if_neg fun hand => hd hand.2]
      cases hs : t.req.status with
      | done => rfl
      | timedOut | dead =>
        rw [hs] at hover
        cases hover
      | readHeader | oneCr | oneLf | twoCr | bodyRead | bodyWrite | write | buffPoll | buffRead
      | buffWrite | pipeRead | pipeWrite | ioshuffle => exact absurd (by rw [hs]; decide) hd
  · rw [if_neg hb,if_neg fun hand => hb hand.1]
    cases hs : t.req.status with
    | timedOut | dead =>
      rw [hs] at hover
      cases hover
    | ioshuffle =>
      dsimp only
      by_cases hread : (!e.build.haveSendfile)=true ∧ t.req.bufferEnd=t.req.bufferStart
      · refine absurd ⟨hs,?_,not_not.mp hb,?_⟩ hfile
        · simpa using hread.1
        · rw [← hread.2]
          exact not_not.mp hb
      · rw [if_neg hread,if_neg hread]
    | readHeader | oneCr | oneLf | twoCr | bodyRead | bodyWrite | write | buffPoll | buffRead
    | buffWrite | pipeRead | pipeWrite | done => rfl

/-- A request at its end is ready at once, and one that waits for its file is not asked for. -/
theorem updateBlocked_drops {t : Conn} (h : ¬t.req.rearms e) :
    exec (updateBlocked e) t=exec (readyRequest e) t ∨
      (t.isSet t.req.dataFd .read=false → exec (updateBlocked e) t=t) := by
  have hcases : t.req.status.over=true ∨
      (t.req.status=.ioshuffle ∧ e.build.haveSendfile=false ∧ t.req.bufferEnd=0 ∧
        t.req.bufferStart=0) := by
    by_contra hboth
    rw [not_or] at hboth
    exact h ⟨Bool.eq_false_iff.mpr hboth.1,hboth.2⟩
  simp only [updateBlocked,exec_bind,exec_getReq,value_getReq]
  rcases hcases with hover | ⟨hs,hsend,hb,hstart⟩
  · have hlate : ¬(t.req.bufferEnd≠0 ∧ t.req.status.rank<Status.rank .done) := by
      intro hand
      have hgt := of_decide_eq_true hover
      omega
    rw [if_neg hlate]
    cases hs : t.req.status with
    | timedOut | dead => exact .inl rfl
    | readHeader | oneCr | oneLf | twoCr | bodyRead | bodyWrite | write | buffPoll | buffRead
    | buffWrite | pipeRead | pipeWrite | ioshuffle | done =>
      rw [hs] at hover
      cases hover
  · right
    intro hset
    rw [if_neg fun hand => hand.1 hb,hs]
    dsimp only
    rw [if_pos ⟨by rw [hsend]; rfl,by rw [hb,hstart]⟩]
    simp only [exec_bind,exec_get,value_get,hset]
    rfl

/-- A request waits right when it is registered for what it waits for, and is asked for again. -/
theorem waitsRight_iff (c : Conn) (fd : Nat) (d : Dir) :
    WaitsRight e c fd d ↔ c.req.registration e=(fd,d) ∧ c.req.rearms e := by
  obtain ⟨hplace,hadds,ka,hreq⟩ := settle_blocks e c
  constructor
  · intro h
    have hreg : c.req.registration e=(fd,d) := by
      let t : Conn := { exec (settle e (-1)) c with readSet := fun _ => true, writeSet := fun _ => true }
      have hfull : ∀ x y,t.isSet x y=true := by
        intro x y
        cases y <;> rfl
      have hmine := (readyRequest_clears e t).2 (c.req.registration e).1 (c.req.registration e).2
      have hsame : t.req.registration e=c.req.registration e := by
        change (exec (settle e (-1)) c).req.registration e=_
        rw [hreq]
        rfl
      rw [(h.clears t rfl).2,hfull,hsame] at hmine
      simpa [Prod.ext_iff] using hmine
    refine ⟨hreg,?_⟩
    by_contra harm
    let t : Conn := { req := { (exec (settle e (-1)) c).req with timeLast := 1 }, place := .block }
    have hearly : t.req.expired e t.sys.now=false := by
      have hkacount : ¬(((0 : Nat) : Int)-((1 : Nat) : Int)≥e.kaTimeout) := by omega
      have hlimit : ¬(((0 : Nat) : Int)-((1 : Nat) : Int)>requestTimeout) := by
        change ¬(((0 : Nat) : Int)-((1 : Nat) : Int)>(60 : Nat))
        omega
      exact decide_eq_false fun hor => hor.elim (fun hka => hkacount hka.2.1) hlimit
    have hunset : ∀ x y,t.isSet x y=false := by
      intro x y
      cases y <;> rfl
    have hdrop : ¬t.req.rearms e := by
      have hiff : t.req.rearms e ↔ c.req.rearms e := by
        change Request.rearms e { (exec (settle e (-1)) c).req with timeLast := 1 } ↔ _
        rw [hreq]
        rfl
      rwa [hiff]
    obtain ⟨hblock,hask,-⟩ := h.asks t 1 rfl hearly (hunset fd d) rfl
    rw [fdsetUpdate_inTime e hearly] at hblock hask
    rcases updateBlocked_drops e hdrop with hrun | hrun
    · rw [hrun,(readyRequest_clears e t).1] at hblock
      cases hblock
    · rw [hrun (hunset _ _)] at hask
      have hnow := hask fd d
      rw [hunset] at hnow
      simp at hnow
  · rintro ⟨hreg,harm⟩
    rw [hreg] at hadds
    have hlater : ∀ (t : Conn) (last : Nat),
        t.req={ (exec (settle e (-1)) c).req with timeLast := last } →
        t.req.registration e=(fd,d) ∧ t.req.rearms e := by
      intro t last ht
      rw [ht,hreq]
      exact ⟨hreg,harm⟩
    refine ⟨⟨hplace,hadds⟩,?_,?_,?_⟩
    · intro t last ht htime hset
      obtain ⟨hreg',harm'⟩ := hlater t last ht
      rw [fdsetUpdate_inTime e htime,updateBlocked_rearms e harm',hreg']
      simp only [awaitFd,exec_bind,exec_get,value_get,hset,if_true]
      exact (readyRequest_clears e t).1
    · intro t last ht htime hset hblock
      obtain ⟨hreg',harm'⟩ := hlater t last ht
      rw [fdsetUpdate_inTime e htime,updateBlocked_rearms e harm',hreg']
      simp only [awaitFd,exec_bind,exec_get,value_get,hset,Bool.false_eq_true,if_false]
      rw [place_fdSet]
      exact ⟨hblock,fdSet_adds fd d t,fdSet_maxFd fd d t⟩
    · intro t ht
      have hreg' : t.req.registration e=(fd,d) := by
        rw [ht,hreq]
        exact hreg
      obtain ⟨hready,hdrops⟩ := readyRequest_clears e t
      rw [hreg'] at hdrops
      exact ⟨hready,hdrops⟩

end Select

/-! What the handlers wait for. -/

/-- Points where a handler returns −1 with nothing blocked: a missing compressed file, a job
that the pool refuses, a `sendfile` that sends nothing. -/
def Site.declines : Site → Bool
  | .gzip | .pushWork | .noneSent => true
  | _ => false

/-- The handler returned −1 because a call on `fd` in direction `d` would have blocked. -/
structure BlockedOn (e : Config) (c : Conn) (fd : Nat) (d : Dir) : Prop where
  fresh : c.waits=none
  gaveUp : value (processStatus e) c= -1
  last : (exec (processStatus e) c).waits=some (fd,d)
  refused : ∀ v ∈ c.visits (exec (processStatus e) c),v.site.declines=false

/-- Does the status, with what is buffered, stand for the call that blocks in direction `d`? -/
def Conn.waitAgrees (c : Conn) (d : Dir) : Prop :=
  match c.req.status with
  | .readHeader | .oneCr | .oneLf | .twoCr | .bodyRead => c.req.bufferEnd=0
  | .bodyWrite => c.req.bufferEnd=0 ∨ c.req.postDataFd=c.req.fd
  | .buffRead | .buffWrite => c.req.bufferEnd≠0
  | .pipeRead => d=.read ↔ c.req.bufferEnd=0
  | .ioshuffle => d=.write
  | _ => True

section Handlers

variable (e : Config) {c : Conn} {fd : Nat} {d : Dir}

/-- A responder that gives up has declined. -/
theorem Answer.declines {c' : Conn} (h : Answer c c' (-1)) :
    ∃ v ∈ c.visits c',v.site.declines=true := by
  cases h with
  | declined h => cases h
  | responds h _ => exact absurd rfl h
  | rejected v hstuck _ _ =>
    refine ⟨v,hstuck.mem,?_⟩
    rw [hstuck.site]
    rfl
  | gzip v hstuck _ _ =>
    refine ⟨v,hstuck.mem,?_⟩
    rw [hstuck.site]
    rfl

theorem endHeader_declines (hv : value (endHeader e) c= -1) :
    ∃ v ∈ c.visits (exec (endHeader e) c),v.site.declines=true := by
  have hval : value (processHeaderEnd e) (exec (mark .headerEnd) c)= -1 := hv
  by_cases hm : c.req.method=.post
  · rcases processHeaderEnd_opens e (exec (mark .headerEnd) c) hm with h | ⟨h,-⟩
    · omega
    · omega
  have hans := processHeaderEnd_answers e (exec (mark .headerEnd) c) hm
  rw [hval] at hans
  obtain ⟨v,hmem,hsite⟩ := hans.declines
  exact ⟨v,mem_visits_after (mark_passed .headerEnd c) hmem,hsite⟩

theorem headerDone_declines (hv : value (headerDone e) c= -1) :
    ∃ v ∈ c.visits (exec (headerDone e) c),v.site.declines=true := by
  simp only [headerDone,value_bind,exec_bind,value_getReq,exec_getReq] at hv ⊢
  by_cases hpost : value (endHeader e) c≠0 ∧ (exec (endHeader e) c).req.method=.post
  · rw [if_pos hpost] at hv
    have hm : c.req.method=.post := by
      rw [← endHeader_method e c]
      exact hpost.2
    have hone : value (endHeader e) c=1 := by
      rcases processHeaderEnd_opens e (exec (mark .headerEnd) c) hm with h | ⟨h,-⟩
      · exact absurd h hpost.1
      · exact h
    rcases startBody_starts e (exec (endHeader e) c) (value (endHeader e) c) with h | ⟨n,-,h,-⟩
    · omega
    · omega
  · rw [if_neg hpost] at hv ⊢
    exact endHeader_declines e hv

/-- While the header is read only a `read` for more of it blocks. -/
theorem readHeader_waits (hs : c.req.status.reading=true) (hv : value (readHeader e) c= -1)
    (hok : ∀ v ∈ c.visits (exec (readHeader e) c),v.site.declines=false) :
    (exec (readHeader e) c).req.status.reading=true ∧
      (exec (readHeader e) c).req.bufferEnd=c.req.bufferEnd ∧
      (exec (readHeader e) c).waits=some ((exec (readHeader e) c).req.fd,.read) := by
  have habsurd : ¬∃ v ∈ c.visits (exec (readHeader e) c),v.site.declines=true := by
    rintro ⟨v,hmem,hsite⟩
    rw [hok v hmem] at hsite
    cases hsite
  rcases readHeader_cases e hs with ⟨ret,c',hstep,hval,hrun⟩ | ⟨c',hadv,hst,hval,hrun⟩
  · rw [hval] at hv
    rw [hrun] at habsurd
    cases hstep with
    | refused _ _ _ => cases hv
    | short hadv _ _ =>
      obtain ⟨v,hmem,hsite⟩ := endHeader_declines e hv
      exact absurd ⟨v,mem_visits_after hadv.passed hmem,hsite⟩ habsurd
    | ended _ hadv _ =>
      obtain ⟨v,hmem,hsite⟩ := headerDone_declines e hv
      exact absurd ⟨v,mem_visits_after hadv.passed hmem,hsite⟩ habsurd
  · rw [hval] at hv
    rw [hrun]
    obtain ⟨hview,s,hmem,hw⟩ := readMore_awaitsAt c' hv
    rw [List.mem_singleton.mp hmem] at hw
    simp only [Request.view,Prod.mk.injEq] at hview
    obtain ⟨hstatus,hb,hfd,-,-⟩ := hview
    refine ⟨by rwa [hstatus],hb.trans hadv.buffered,?_⟩
    rw [hw,hfd]
    rfl

theorem registration_view {r r' : Request} (h : r'.view=r.view) (hs : r.status≠.ioshuffle) :
    r'.registration e=r.registration e := by
  simp only [Request.view,Prod.mk.injEq] at h
  obtain ⟨hstatus,hb,hfd,hdata,hpost⟩ := h
  simp only [Request.registration,hstatus,hb,hfd,hdata,hpost]
  cases hr : r.status with
  | ioshuffle => exact absurd hr hs
  | readHeader | oneCr | oneLf | twoCr | bodyRead | bodyWrite | write | buffPoll | buffRead
  | buffWrite | pipeRead | pipeWrite | done | timedOut | dead => rfl

/-- A handler that leaves the view of the request waits right if that is where it was. -/
theorem AwaitsAt.waitsRight_iff {S : List Spot} {m : Srv Int} (h : AwaitsAt S m)
    (hv : value m c= -1) (hw : (exec m c).waits=some (fd,d)) (hover : c.req.status.over=false)
    (hs : c.req.status≠.ioshuffle) : (∃ s ∈ S,(fd,d)=s.of c.req) ∧
      (WaitsRight e (exec m c) fd d ↔ c.req.registration e=(fd,d)) := by
  obtain ⟨hview,s,hmem,hspot⟩ := h c hv
  have hstatus : (exec m c).req.status=c.req.status := congrArg (·.1) hview
  refine ⟨⟨s,hmem,Option.some.inj (hw.symm.trans hspot)⟩,?_⟩
  rw [Crotalus.waitsRight_iff,registration_view e hview hs]
  refine and_iff_left ⟨by rwa [hstatus],?_⟩
  rw [hstatus]
  exact fun hand => hs hand.1

theorem ioShuffle_waitsRight_iff (hs : c.req.status=.ioshuffle)
    (hsend : e.build.haveSendfile=false) (hv : value (ioShuffle e) c= -1)
    (hw : (exec (ioShuffle e) c).waits=some (fd,d)) :
    WaitsRight e (exec (ioShuffle e) c) fd d ↔ d=.write := by
  have hshuffle := ioShuffle_waits e hv
  generalize exec (ioShuffle e) c=c' at hw hshuffle
  obtain ⟨hstatus,hspot⟩ := hshuffle
  rw [hs] at hstatus
  rw [waitsRight_iff,Request.rearms,hstatus]
  rcases hspot with ⟨hreq,hempty,hwaits⟩ | ⟨hb,hwaits⟩
  · have hpair : (fd,d)=(c'.req.dataFd,.read) := Option.some.inj (hw.symm.trans hwaits)
    obtain ⟨rfl,rfl⟩ := Prod.mk.inj hpair
    rw [← hreq] at hempty
    refine ⟨?_,fun h => (by cases h)⟩
    rintro ⟨hreg,-,harm⟩
    by_cases hb : c'.req.bufferEnd=0
    · exact absurd ⟨rfl,hsend,hb,by rw [← hempty,hb]⟩ harm
    · rw [Request.registration,if_pos hb] at hreg
      cases (Prod.mk.inj hreg).2
  · have hpair : (fd,d)=(c'.req.fd,.write) := Option.some.inj (hw.symm.trans hwaits)
    obtain ⟨rfl,rfl⟩ := Prod.mk.inj hpair
    refine iff_of_true ⟨?_,rfl,fun hand => hb hand.2.2.1⟩ rfl
    rw [Request.registration,if_pos hb]

theorem ioShuffleSendfile_waitsRight (hs : c.req.status=.ioshuffle)
    (hsend : e.build.haveSendfile=true) (hv : value (ioShuffleSendfile e) c= -1)
    (hw : (exec (ioShuffleSendfile e) c).waits=some (fd,d))
    (hok : ∀ v ∈ c.visits (exec (ioShuffleSendfile e) c),v.site.declines=false) :
    WaitsRight e (exec (ioShuffleSendfile e) c) fd d ∧ d=.write := by
  have hsent : ∀ v ∈ c.visits (exec (ioShuffleSendfile e) c),v.site≠.noneSent := by
    intro v hmem hsite
    have hfalse := hok v hmem
    rw [hsite] at hfalse
    cases hfalse
  obtain ⟨hreq,hwaits⟩ := ioShuffleSendfile_waits e hv hsent
  have hpair : (fd,d)=(c.req.fd,.write) := Option.some.inj (hw.symm.trans hwaits)
  obtain ⟨rfl,rfl⟩ := Prod.mk.inj hpair
  refine ⟨?_,rfl⟩
  rw [waitsRight_iff,hreq]
  refine ⟨?_,by rw [hs]; rfl,fun hand => ?_⟩
  · simp [Request.registration,hs,hsend]
  · rw [hsend] at hand
    cases hand.2.1

theorem writeBody_waits (hv : value (writeBody e) c= -1)
    (hok : ∀ v ∈ c.visits (exec (writeBody e) c),v.site.declines=false) :
    (exec (writeBody e) c).req=c.req ∧
      (exec (writeBody e) c).waits=some (c.req.postDataFd,.write) := by
  have hwrites := writeBody_writes e c
  generalize value (writeBody e) c=ret at hv hwrites
  generalize exec (writeBody e) c=c' at hok hwrites ⊢
  cases hwrites with
  | waits w => exact ⟨rfl,rfl⟩
  | starts c1 hn hpos hc =>
    have hans := initCgi_answers e (exec (mark (.bodyDone c.postFile c.body)) c1)
    rw [hv] at hans
    obtain ⟨v,hmem,hsite⟩ := hans.declines
    have hstart : Passed (fun _ => True) c (exec (mark (.bodyDone c.postFile c.body)) c1) := by
      rw [hc]
      exact ⟨[_],rfl,fun _ _ => trivial⟩
    rw [hok v (mem_visits_after hstart hmem)] at hsite
    cases hsite
  | empty _ _ => cases hv
  | again w => cases hv
  | ends c' hw => cases hv
  | took k w hk => cases hv

theorem readFromShbuff_waits (hfresh : c.waits=none) (hv : value (readFromShbuff e) c= -1)
    (hw : (exec (readFromShbuff e) c).waits=some (fd,d)) :
    (exec (readFromShbuff e) c).req.view=c.req.view ∧ (fd,d)=(c.req.fd,.write) := by
  cases hb : c.req.buff with
  | none =>
    have hsame : (exec (readFromShbuff e) c).waits=none := by
      simp only [readFromShbuff,exec_ite,exec_bind,value_getReq,exec_getReq,hb,exec_pure]
      split <;> exact hfresh
    rw [hsame] at hw
    cases hw
  | some bs =>
    obtain ⟨hview,hwaits⟩ := readFromShbuff_awaitsAt e (by rw [hb]; rfl) hv
    exact ⟨hview,Option.some.inj (hw.symm.trans hwaits)⟩

/-- The registration of a request while its header is read. -/
theorem registration_reading {r : Request} (h : r.status.reading=true) :
    r.registration e=(r.fd,.read) ↔ r.bufferEnd=0 := by
  by_cases hb : r.bufferEnd=0
  · refine iff_of_true ?_ hb
    rw [Request.registration,if_neg (not_not.mpr hb)]
    cases hs : r.status with
    | readHeader | oneCr | oneLf | twoCr => rfl
    | bodyRead | bodyWrite | write | buffPoll | buffRead | buffWrite | pipeRead | pipeWrite
    | ioshuffle | done | timedOut | dead => exact absurd h (by rw [hs]; decide)
  · refine iff_of_false ?_ hb
    rw [Request.registration,if_pos hb]
    intro heq
    cases (Prod.mk.inj heq).2

theorem writeFromShbuff_awaitsAt : AwaitsAt [.clientWrite] (writeFromShbuff e) := by
  unfold writeFromShbuff
  exact .ite (writeFrom_awaitsAt .buffRead) (NeverBlocks.pure (by decide)).awaitsAt

/-- A request whose handler was blocked waits for what blocked it exactly if its status, with
what is buffered, stands for that. -/
theorem blockedOn_iff (h : BlockedOn e c fd d) :
    WaitsRight e (exec (processStatus e) c) fd d ↔ c.waitAgrees d := by
  obtain ⟨hfresh,hgave,hlast,hrefused⟩ := h
  have hover : ∀ st,c.req.status=st → st.over=false → c.req.status.over=false :=
    fun st hs h => by rw [hs,h]
  have hfile : ∀ st,c.req.status=st → st≠.ioshuffle → c.req.status≠.ioshuffle :=
    fun st hs h => by rwa [hs]
  cases hs : c.req.status with
  | readHeader | oneCr | oneLf | twoCr =>
    have hreading : c.req.status.reading=true := by
      rw [hs]
      rfl
    obtain ⟨hval,hrun⟩ := processStatus_reading e hreading
    rw [hval] at hgave
    rw [hrun] at hlast hrefused ⊢
    obtain ⟨hst,hb,hwaits⟩ := readHeader_waits e hreading hgave hrefused
    have hpair := Option.some.inj (hlast.symm.trans hwaits)
    have harm : (exec (readHeader e) c).req.rearms e := by
      generalize (exec (readHeader e) c).req=r at hst
      constructor
      · revert hst
        cases r.status <;> decide
      · rintro ⟨hio,-⟩
        rw [hio] at hst
        cases hst
    rw [waitsRight_iff,hpair,registration_reading e hst,hb,and_iff_left harm]
    simp only [Conn.waitAgrees,hs]
  | bodyRead =>
    simp only [processStatus,value_bind,exec_bind,value_getReq,exec_getReq,hs] at hgave hlast ⊢
    obtain ⟨⟨s,hmem,hspot⟩,hiff⟩ := (readBody_awaitsAt e).waitsRight_iff e hgave hlast
      (hover _ hs rfl) (hfile _ hs (by decide))
    rw [List.mem_singleton.mp hmem] at hspot
    rw [hiff,hspot]
    simp [Request.registration,Spot.of,Conn.waitAgrees,hs]
  | bodyWrite =>
    simp only [processStatus,value_bind,exec_bind,value_getReq,exec_getReq,hs]
      at hgave hlast hrefused ⊢
    obtain ⟨hreq,hwaits⟩ := writeBody_waits e hgave hrefused
    have hpair := Option.some.inj (hlast.symm.trans hwaits)
    have harm : c.req.rearms e := by
      refine ⟨hover _ hs rfl,fun hand => ?_⟩
      rw [hs] at hand
      cases hand.1
    rw [waitsRight_iff,hreq,hpair,and_iff_left harm]
    simp only [Request.registration,Conn.waitAgrees,hs]
    by_cases hb : c.req.bufferEnd=0
    · simp [hb]
    · simp [hb,eq_comm]
  | write =>
    simp only [processStatus,value_bind,exec_bind,value_getReq,exec_getReq,hs] at hgave hlast ⊢
    obtain ⟨⟨s,hmem,hspot⟩,hiff⟩ := (processGet_awaitsAt e).waitsRight_iff e hgave hlast
      (hover _ hs rfl) (hfile _ hs (by decide))
    rw [List.mem_singleton.mp hmem] at hspot
    rw [hiff,hspot]
    simp [Request.registration,Spot.of,Conn.waitAgrees,hs]
  | buffPoll =>
    simp only [processStatus,value_bind,value_getReq,exec_getReq,hs] at hgave
    exact absurd hgave (pollFromShbuff_neverBlocks e c)
  | buffRead =>
    simp only [processStatus,value_bind,exec_bind,value_getReq,exec_getReq,hs] at hgave hlast ⊢
    obtain ⟨hview,hpair⟩ := readFromShbuff_waits e hfresh hgave hlast
    have hstatus : (exec (readFromShbuff e) c).req.status=.buffRead :=
      (congrArg (·.1) hview).trans hs
    have harm : (exec (readFromShbuff e) c).req.rearms e := by
      refine ⟨by rw [hstatus]; rfl,fun hand => ?_⟩
      rw [hstatus] at hand
      cases hand.1
    rw [waitsRight_iff,registration_view e hview (hfile _ hs (by decide)),hpair,
      and_iff_left harm]
    simp [Request.registration,Conn.waitAgrees,hs]
  | buffWrite =>
    simp only [processStatus,value_bind,exec_bind,value_getReq,exec_getReq,hs] at hgave hlast ⊢
    obtain ⟨⟨s,hmem,hspot⟩,hiff⟩ := (writeFromShbuff_awaitsAt e).waitsRight_iff e hgave hlast
      (hover _ hs rfl) (hfile _ hs (by decide))
    rw [List.mem_singleton.mp hmem] at hspot
    rw [hiff,hspot]
    simp [Request.registration,Spot.of,Conn.waitAgrees,hs]
  | pipeRead =>
    simp only [processStatus,value_bind,exec_bind,value_getReq,exec_getReq,hs] at hgave hlast ⊢
    obtain ⟨⟨s,hmem,hspot⟩,hiff⟩ := (readFromPipe_awaitsAt e).waitsRight_iff e hgave hlast
      (hover _ hs rfl) (hfile _ hs (by decide))
    rw [hiff,hspot]
    have hd : d=(s.of c.req).2 := congrArg (·.2) hspot
    rcases List.mem_cons.mp hmem with rfl | hmem
    · simp [Request.registration,Spot.of,Conn.waitAgrees,hs,hd]
    · rw [List.mem_singleton.mp hmem] at hd ⊢
      simp [Request.registration,Spot.of,Conn.waitAgrees,hs,hd]
  | pipeWrite =>
    simp only [processStatus,value_bind,exec_bind,value_getReq,exec_getReq,hs] at hgave hlast ⊢
    obtain ⟨⟨s,hmem,hspot⟩,hiff⟩ := (writeFrom_awaitsAt .pipeRead).waitsRight_iff e hgave hlast
      (hover _ hs rfl) (hfile _ hs (by decide))
    rw [List.mem_singleton.mp hmem] at hspot
    rw [writeFromPipe,hiff,hspot]
    simp [Request.registration,Spot.of,Conn.waitAgrees,hs]
  | ioshuffle =>
    simp only [processStatus,value_bind,exec_bind,value_getReq,exec_getReq,hs]
      at hgave hlast hrefused ⊢
    simp only [Conn.waitAgrees,hs]
    cases hsend : e.build.haveSendfile with
    | true =>
      simp only [hsend,if_true] at hgave hlast hrefused ⊢
      obtain ⟨hright,hd⟩ := ioShuffleSendfile_waitsRight e hs hsend hgave hlast hrefused
      exact iff_of_true hright hd
    | false =>
      simp only [hsend,Bool.false_eq_true,if_false] at hgave hlast ⊢
      exact ioShuffle_waitsRight_iff e hs hsend hgave hlast
  | done =>
    simp only [processStatus,value_bind,exec_bind,value_getReq,exec_getReq,hs] at hgave hlast ⊢
    obtain ⟨⟨s,hmem,hspot⟩,hiff⟩ := (processDone_awaitsAt e).waitsRight_iff e hgave hlast
      (hover _ hs rfl) (hfile _ hs (by decide))
    rw [List.mem_singleton.mp hmem] at hspot
    rw [hiff,hspot]
    simp [Request.registration,Spot.of,Conn.waitAgrees,hs]
  | timedOut | dead =>
    simp only [processStatus,value_bind,value_getReq,exec_getReq,hs] at hgave
    cases hgave

/-- The flush before the handler waits right in every status. -/
theorem topFlush_waitsRight (hv : value (topFlush e) c= -1) :
    WaitsRight e (exec (topFlush e) c) c.req.fd .write := by
  simp only [topFlush,value_bind,exec_bind,value_getReq,exec_getReq] at hv ⊢
  split at hv
  case isFalse => cases hv
  rename_i hand
  rw [if_pos hand]
  simp only [value_bind,exec_bind] at hv ⊢
  split at hv
  · cases hv
  rename_i hfail
  rw [if_neg hfail]
  split at hv
  · cases hv
  rename_i hneg
  rw [if_neg hneg]
  obtain ⟨-,hb,hrun⟩ := reqFlush_refused e (c := c) hv
  rw [exec_pure,waitsRight_iff,hrun]
  refine ⟨?_,?_,fun hempty => hb hempty.2.2.1⟩
  · rw [Request.registration,if_pos hb]
  · simpa using hand.2

end Handlers

/-- The header of a program's output is behind it; its body goes to the client as it comes. -/
def relaying (output : List RecvRes) : Conn where
  req := { status := .pipeRead, fd := 5, dataFd := 7, cgiStatus := .buffer, headerArea := .buffer }
  sys := { pipe := output }

theorem blockedOn_iff_pipe : WaitsRight {} (exec (processStatus {}) (relaying [])) 7 .read :=
  (blockedOn_iff {} (c := relaying [])
    ⟨rfl,by decide +kernel,by decide +kernel,by decide +kernel⟩).mpr (iff_of_true rfl rfl)

/-- The client's socket is full, and the request waits for the program to write more. -/
theorem relaying_waitsWrong : BlockedOn {} (relaying [.data (str "a")]) 5 .write ∧
    ¬WaitsRight {} (exec (processStatus {}) (relaying [.data (str "a")])) 5 .write :=
  ⟨⟨rfl,by decide +kernel,by decide +kernel,by decide +kernel⟩,
    fun h => absurd (h.blocks.2 5 .write) (by decide +kernel)⟩

end Crotalus
