import Crotalus.Server.Queue
import Crotalus.Spec.Turn
import Mathlib.Data.List.Perm.Subperm

namespace Crotalus

open Stateful Linked

namespace Queues

/-! What lies on the queues. -/

def setConn (s : Queues) (req : Nat) (c : Conn) : Queues :=
  { s with conns := fun i => if i=req then c else s.conns i }

@[simp] theorem exec_onConn {α : Type} (req : Nat) (m : Srv α) (s : Queues) :
    exec (onConn req m) s=s.setConn req (exec m (s.conns req)) := rfl

@[simp] theorem value_onConn {α : Type} (req : Nat) (m : Srv α) (s : Queues) :
    value (onConn req m) s=value m (s.conns req) := rfl

@[simp] theorem setConn_same (s : Queues) (req : Nat) (c : Conn) :
    (s.setConn req c).conns req=c := if_pos rfl

theorem setConn_other (s : Queues) {req i : Nat} (c : Conn) (h : i≠req) :
    (s.setConn req c).conns i=s.conns i := if_neg h

@[simp] theorem setConn_setConn (s : Queues) (req : Nat) (c c' : Conn) :
    (s.setConn req c).setConn req c'=s.setConn req c' := by
  unfold setConn
  congr 1
  funext i
  dsimp only
  split <;> rfl

/-- The lists `q`, with another one for `p`. -/
def putList (q : Place → List Nat) (p : Place) (xs : List Nat) : Place → List Nat :=
  fun p' => if p'=p then xs else q p'

@[simp] theorem putList_same (q : Place → List Nat) (p : Place) (xs : List Nat) :
    putList q p xs p=xs := if_pos rfl

theorem putList_other (q : Place → List Nat) {p p' : Place} (xs : List Nat) (h : p'≠p) :
    putList q p xs p'=q p' := if_neg h

/-- How often a struct lies on the queues. -/
def listedTimes (q : Place → List Nat) (i : Nat) : Nat :=
  (q .ready).count i+(q .block).count i+(q .free).count i

/-- The queues are the lists `q`, which hold each allocated struct once, the structs `held`
left out. -/
structure Listed (held : List Nat) (q : Place → List Nat) (s : Queues) : Prop where
  lists : ∀ p,IsList s.links (s.head p) (q p)
  once : ∀ i,held.count i+listedTimes q i=s.allocated.count i
  nodup : s.allocated.Nodup
  fresh : ∀ i∈s.allocated,i < s.mallocs

section Listed

variable {held : List Nat} {q : Place → List Nat} {s s' : Queues} {p p' : Place} {x : Nat}
  {xs ys : List Nat}

theorem count_le_listedTimes (i : Nat) : (q p).count i ≤ listedTimes q i := by
  unfold listedTimes
  cases p <;> omega

theorem count_two_le_listedTimes (h : p≠p') (i : Nat) :
    (q p).count i+(q p').count i ≤ listedTimes q i := by
  unfold listedTimes
  cases p <;> cases p' <;> first | exact absurd rfl h | omega

theorem listedTimes_putList (i : Nat) :
    listedTimes (putList q p xs) i+(q p).count i=listedTimes q i+xs.count i := by
  unfold listedTimes
  cases p <;> simp [putList] <;> omega

theorem Listed.times_le (h : Listed held q s) (i : Nat) : held.count i+listedTimes q i ≤ 1 := by
  rw [h.once]
  exact List.nodup_iff_count_le_one.mp h.nodup i

theorem Listed.list_nodup (h : Listed held q s) : (q p).Nodup := by
  refine List.nodup_iff_count_le_one.mpr fun i => ?_
  have hle := h.times_le i
  have hp := count_le_listedTimes (q := q) (p := p) i
  omega

theorem Listed.apart (h : Listed held q s) (hx : x∈q p) (hp : p≠p') : x∉q p' := by
  intro hx'
  have hle := h.times_le x
  have htwo := count_two_le_listedTimes (q := q) hp x
  have h1 := List.count_pos_iff.mpr hx
  have h2 := List.count_pos_iff.mpr hx'
  omega

theorem Listed.not_held (h : Listed held q s) (hx : x∈held) : x∉q p := by
  intro hx'
  have hle := h.times_le x
  have hp := count_le_listedTimes (q := q) (p := p) x
  have h1 := List.count_pos_iff.mpr hx
  have h2 := List.count_pos_iff.mpr hx'
  omega

theorem Listed.congr (h : Listed held q s) (hl : s'.links=s.links) (hh : s'.head=s.head)
    (ha : s'.allocated=s.allocated) (hm : s'.mallocs=s.mallocs) : Listed held q s' := by
  constructor
  · rw [hl,hh]
    exact h.lists
  · rw [ha]
    exact h.once
  · rw [ha]
    exact h.nodup
  · rw [ha,hm]
    exact h.fresh

/-- A struct leaves its queue. -/
theorem Listed.dequeue (h : Listed held q s) (hq : q p=xs++x::ys) :
    Listed (x::held) (putList q p (xs++ys)) (exec (dequeue p x) s) := by
  have hx : x∈q p := by
    rw [hq]
    exact List.mem_append_right _ List.mem_cons_self
  have hd := h.list_nodup (p := p)
  have hlist := h.lists p
  rw [hq] at hd hlist
  -- the second assignment reads the link behind `x` after the first has been made
  have hself : ¬some x=s.links.prev x := by
    rw [hlist.threaded.links.1]
    intro heq
    exact (List.nodup_append.mp hd).2.2 x (List.mem_of_getLast? heq.symm) x List.mem_cons_self rfl
  have hkept : (s.links.setNext (s.links.prev x) (s.links.next x)).next x=s.links.next x :=
    setNext_other hself
  have hnext : ∀ z,z≠x → (exec (Queues.dequeue p x) s).links.next z=
      if some z=s.links.prev x then s.links.next x else s.links.next z := fun z hz => by
    have hz' : ¬some z=some x := fun heq => hz (Option.some.inj heq)
    exact if_neg hz'
  have hprev : ∀ z,z≠x → (exec (Queues.dequeue p x) s).links.prev z=
      if some z=s.links.next x then s.links.prev x else s.links.prev z := fun z hz => by
    have hz' : ¬some z=some x := fun heq => hz (Option.some.inj heq)
    change (if some z=some x then _ else if some z=(s.links.setNext _ _).next x then _ else _)=_
    rw [if_neg hz',hkept]
    rfl
  constructor
  · intro p'
    by_cases hp : p'=p
    · subst hp
      rw [putList_same]
      have hhead : (exec (Queues.dequeue p' x) s).head p'=
          if s.head p'=some x then s.links.next x else s.head p' := if_pos rfl
      rw [hhead]
      exact hlist.unlink hd hnext hprev
    · rw [putList_other q _ hp]
      have hhead : (exec (Queues.dequeue p x) s).head p'=s.head p' := if_neg hp
      rw [hhead]
      refine (h.lists p').congr fun z hz => ?_
      have hzp : z∉q p := h.apart hz hp
      have hzx : z≠x := fun heq => hzp (heq ▸ hx)
      constructor
      · rw [hnext z hzx,if_neg fun heq => hzp ((h.lists p).neighbours hx (.inl heq))]
      · rw [hprev z hzx,if_neg fun heq => hzp ((h.lists p).neighbours hx (.inr heq))]
  · intro i
    have honce := h.once i
    have hput : listedTimes (putList q p (xs++ys)) i+(q p).count i=
        listedTimes q i+(xs++ys).count i := listedTimes_putList i
    rw [hq,List.count_append,List.count_append,List.count_cons] at hput
    rw [List.count_cons]
    change _=s.allocated.count i
    omega
  · exact h.nodup
  · exact h.fresh

/-- A struct that lay on no queue comes to the head of one. -/
theorem Listed.enqueue (h : Listed (x::held) q s) :
    Listed held (putList q p (x::q p)) (exec (enqueue p x) s) := by
  have hfree : ∀ p',x∉q p' := fun p' => h.not_held List.mem_cons_self
  have hnext : ∀ z,z≠x → (exec (Queues.enqueue p x) s).links.next z=s.links.next z :=
    fun z hz => if_neg fun heq => hz (Option.some.inj heq)
  have hprev : ∀ z,z≠x → (exec (Queues.enqueue p x) s).links.prev z=
      if some z=s.head p then some x else s.links.prev z :=
    fun z hz => if_neg fun heq => hz (Option.some.inj heq)
  constructor
  · intro p'
    by_cases hp : p'=p
    · subst hp
      have hhead : (exec (Queues.enqueue p' x) s).head p'=some x := if_pos rfl
      rw [putList_same,hhead]
      exact (h.lists p').push h.list_nodup (hfree p') (if_pos rfl) (if_pos rfl) hnext hprev
    · have hhead : (exec (Queues.enqueue p x) s).head p'=s.head p' := if_neg hp
      rw [putList_other q _ hp,hhead]
      refine (h.lists p').congr fun z hz => ?_
      have hzx : z≠x := fun heq => hfree p' (heq ▸ hz)
      refine ⟨hnext z hzx,(hprev z hzx).trans (if_neg fun heq => ?_)⟩
      -- the head of `p` is on no other queue
      have hzp : z∈q p := List.mem_of_head? ((h.lists p).head ▸ heq.symm)
      exact h.apart hz hp hzp
  · intro i
    have honce := h.once i
    have hput : listedTimes (putList q p (x::q p)) i+(q p).count i=
        listedTimes q i+(x::q p).count i := listedTimes_putList i
    rw [List.count_cons] at honce hput
    change _=s.allocated.count i
    omega
  · exact h.nodup
  · exact h.fresh

theorem Listed.length (h : Listed held q s) :
    held.length+((q .ready).length+(q .block).length+(q .free).length)=s.allocated.length := by
  have hperm : (held++((q .ready++q .block)++q .free)).Perm s.allocated := by
    refine List.perm_iff_count.mpr fun i => ?_
    have honce := h.once i
    unfold listedTimes at honce
    simp only [List.count_append]
    omega
  have hlen := hperm.length_eq
  simp only [List.length_append] at hlen
  omega

end Listed

/-- The queues between the steps of the loop: a request that has none of the turns under way is
on the queue it says and is as good as `G`, and the counter counts the requests that are not
free. -/
structure Inv (G : Conn → Prop) (max : Nat) (held : List Nat) (busy : Option Nat)
    (q : Place → List Nat) (s : Queues) : Prop where
  listed : Listed held q s
  conns : ∀ p,p≠.free → ∀ i∈q p,some i≠busy → (s.conns i).place=p ∧ G (s.conns i)
  count : s.totalConnections=(q .ready).length+(q .block).length
  room : s.pendingRequests=true → s.totalConnections ≤ max
  bound : s.totalConnections ≤ max+1
  size : s.allocated.length ≤ max+1

/-- At most one request has come to the ready queue, with a new connection. -/
structure Opens (e : Config) (q q' : Place → List Nat) (s s' : Queues) : Prop where
  block : q' .block=q .block
  ready : ∃ new,q' .ready=new++q .ready ∧ new.length ≤ 1 ∧ ∀ i∈new,Accepted e (s'.conns i)
  conns : ∀ p,p≠.free → ∀ i∈q p,s'.conns i=s.conns i

section Accepting

variable {G : Conn → Prop} {max : Nat} {busy : Option Nat} {q : Place → List Nat} {s : Queues}

theorem Opens.refl (e : Config) (q : Place → List Nat) (s s' : Queues) (h : s'.conns=s.conns) :
    Opens e q q s s' :=
  ⟨rfl,⟨[],rfl,Nat.zero_le 1,fun _ hi => absurd hi List.not_mem_nil⟩,fun _ _ _ _ => by rw [h]⟩

theorem takeAccept_inv {held : List Nat} (h : Inv G max held busy q s) :
    Inv G max held busy q (exec takeAccept s) :=
  ⟨h.listed.congr rfl rfl rfl rfl,h.conns,h.count,h.room,h.bound,h.size⟩

/-- A struct for a connection: from the free queue, or a new one. -/
theorem newRequest_inv (e : Config) (a : Accept) (h : Inv G max [] busy q s)
    (hp : s.pendingRequests=true) :
    (value (newRequest e a) s=none ∧ exec (newRequest e a) s=s) ∨
      ∃ x q',value (newRequest e a) s=some x ∧ q' .ready=q .ready ∧ q' .block=q .block ∧
        Inv G max [x] busy q' (exec (newRequest e a) s) ∧
        (exec (newRequest e a) s).pendingRequests=true ∧
        ∀ p,p≠.free → ∀ i∈q p,(exec (newRequest e a) s).conns i=s.conns i := by
  have hroom := h.room hp
  simp only [newRequest,value_bind,exec_bind,value_get,exec_get]
  cases hfree : s.head .free with
  | some x =>
    right
    obtain ⟨xs,hxs⟩ : ∃ xs,q .free=[]++x::xs := by
      have hhead := (h.listed.lists .free).head
      rw [hfree] at hhead
      exact ⟨_,List.eq_cons_of_mem_head? hhead.symm⟩
    have hready : putList q .free xs .ready=q .ready := putList_other q xs (fun h => by cases h)
    have hblock : putList q .free xs .block=q .block := putList_other q xs (fun h => by cases h)
    have hkept : ∀ p,p≠.free → ∀ i∈q p,
        ((exec (dequeue .free x) s).setConn x
          (exec (modReq (Request.sanitizeNew e a.now)) (s.conns x))).conns i=s.conns i := by
      intro p hne i hi
      refine setConn_other _ _ fun hix => ?_
      refine h.listed.apart hi hne ?_
      rw [hix,hxs]
      exact List.mem_cons_self
    refine ⟨x,putList q .free xs,rfl,hready,hblock,?_,hp,hkept⟩
    refine ⟨(h.listed.dequeue hxs).congr rfl rfl rfl rfl,fun p hne i hi hb => ?_,?_,h.room,
      h.bound,h.size⟩
    · rw [putList_other q xs hne] at hi
      exact (hkept p hne i hi).symm ▸ h.conns p hne i hi hb
    · rw [hready,hblock]
      exact h.count
  | none =>
    cases a.malloc with
    | false => exact .inl ⟨rfl,rfl⟩
    | true =>
      right
      have hnew : s.mallocs∉s.allocated := fun hmem => Nat.lt_irrefl _ (h.listed.fresh _ hmem)
      have hnone : listedTimes q s.mallocs=0 := by
        have honce := h.listed.once s.mallocs
        rw [List.count_eq_zero.mpr hnew] at honce
        omega
      have hkept : ∀ p,p≠.free → ∀ i∈q p,
          (s.setConn s.mallocs
            (exec (modReq (Request.sanitizeNew e a.now)) (s.conns s.mallocs))).conns i=s.conns i := by
        intro p _ i hi
        refine setConn_other _ _ fun hix => ?_
        have hpos := List.count_pos_iff.mpr hi
        have hle := count_le_listedTimes (q := q) (p := p) i
        rw [hix] at hpos hle
        omega
      refine ⟨s.mallocs,q,rfl,rfl,rfl,?_,hp,hkept⟩
      refine ⟨⟨h.listed.lists,fun i => ?_,List.nodup_cons.mpr ⟨hnew,h.listed.nodup⟩,?_⟩,
        fun p hne i hi hb => ?_,h.count,h.room,h.bound,?_⟩
      · have honce := h.listed.once i
        rw [List.count_nil] at honce
        change [s.mallocs].count i+listedTimes q i=(s.mallocs::s.allocated).count i
        rw [List.count_cons,List.count_cons,List.count_nil]
        omega
      · intro i hi
        rcases List.mem_cons.mp hi with rfl|hi
        · exact Nat.lt_succ_self _
        · exact Nat.lt_succ_of_lt (h.listed.fresh i hi)
      · exact (hkept p hne i hi).symm ▸ h.conns p hne i hi hb
      · have hlen := h.listed.length
        have hcount := h.count
        have hnil : q .free=[] := by
          have hhead := (h.listed.lists .free).head
          rw [hfree] at hhead
          exact List.head?_eq_none_iff.mp hhead.symm
        rw [hnil] at hlen
        change s.allocated.length+1 ≤ max+1
        simp only [List.length_nil] at hlen
        omega

/-- The struct goes to the ready queue with its connection, or back to the free ones. -/
theorem setUp_inv {e : Config} (hacc : ∀ c,Accepted e c → G c) (a : Accept) {x : Nat}
    (h : Inv G max [x] busy q s) (hp : s.pendingRequests=true) :
    ∃ q',Inv G max [] busy q' (exec (setUp e max a x) s) ∧
      Opens e q q' s (exec (setUp e max a x) s) := by
  have hroom := h.room hp
  have hne : ∀ p i,i∈q p → i≠x := fun p i hi hix =>
    h.listed.not_held List.mem_cons_self (hix ▸ hi)
  unfold setUp
  cases a.addresses with
  | none =>
    simp only [exec_bind,exec_onConn]
    generalize exec (modReq fun r => { r with fd := a.fd }) (s.conns x) = c
    have hready : putList q .free (x::q .free) .ready=q .ready :=
      putList_other q _ (fun h => by cases h)
    have hblock : putList q .free (x::q .free) .block=q .block :=
      putList_other q _ (fun h => by cases h)
    have hlisted : Listed [x] q (s.setConn x c) := h.listed.congr rfl rfl rfl rfl
    have hkept : ∀ p,p≠.free → ∀ i∈q p,(s.setConn x c).conns i=s.conns i :=
      fun p _ i hi => setConn_other _ _ (hne p i hi)
    refine ⟨putList q .free (x::q .free),⟨hlisted.enqueue,fun p hpf i hi hb => ?_,?_,h.room,
      h.bound,h.size⟩,hblock,
      ⟨[],hready,Nat.zero_le 1,fun _ hi => absurd hi List.not_mem_nil⟩,hkept⟩
    · rw [putList_other q _ hpf] at hi
      exact (hkept p hpf i hi).symm ▸ h.conns p hpf i hi hb
    · rw [hready,hblock]
      exact h.count
  | some addresses =>
    obtain ⟨localIp,remoteIp⟩ := addresses
    simp only [exec_bind,exec_onConn,exec_modify]
    let c := acceptConn e a.now a.fd localIp remoteIp a.port { s.conns x with sys := a.sys }
    let s1 : Queues := { s.setConn x c with totalConnections := s.totalConnections+1 }
    change ∃ q',Inv G max [] busy q' (exec (enqueue .ready x) (exec (breathe e max x) s1)) ∧
      Opens e q q' s (exec (enqueue .ready x) (exec (breathe e max x) s1))
    have hopen : ∃ c',Accepted e c' ∧ ∃ b,exec (breathe e max x) s1=
        { s.setConn x c' with totalConnections := s.totalConnections+1, pendingRequests := b } ∧
        (b=true → s.totalConnections+1 ≤ max) := by
      simp only [breathe,exec_bind,value_get,exec_get]
      by_cases hmax : max < s1.totalConnections
      · rw [if_pos hmax]
        refine ⟨exec (refuseConn e) c,⟨_,_,_,_,_,_,.inr rfl⟩,false,?_,fun h => by cases h⟩
        have hx : s1.conns x=c := setConn_same s x c
        have hset := setConn_setConn s x c (exec (refuseConn e) c)
        change ({ s1.setConn x (exec (refuseConn e) (s1.conns x)) with pendingRequests := false } :
          Queues)=_
        rw [hx,← hset]
        rfl
      · rw [if_neg hmax]
        exact ⟨c,⟨_,_,_,_,_,_,.inl rfl⟩,s.pendingRequests,rfl,fun _ => Nat.le_of_not_lt hmax⟩
    obtain ⟨c',hc,b,hrun,hb⟩ := hopen
    rw [hrun]
    let s2 : Queues :=
      { s.setConn x c' with totalConnections := s.totalConnections+1, pendingRequests := b }
    have hblock : putList q .ready (x::q .ready) .block=q .block :=
      putList_other q _ (fun h => by cases h)
    have hlisted : Listed [x] q s2 := h.listed.congr rfl rfl rfl rfl
    have hkept : ∀ p,p≠.free → ∀ i∈q p,s2.conns i=s.conns i :=
      fun p _ i hi => setConn_other _ _ (hne p i hi)
    have hown : s2.conns x=c' := setConn_same s x c'
    refine ⟨putList q .ready (x::q .ready),⟨hlisted.enqueue,fun p hpf i hi hbusy => ?_,?_,hb,
      Nat.succ_le_succ hroom,h.size⟩,hblock,
      ⟨[x],putList_same q _ _,Nat.le_refl 1,fun i hi => ?_⟩,hkept⟩
    · change (s2.conns i).place=p ∧ G (s2.conns i)
      by_cases hpr : p=.ready
      · subst hpr
        rw [putList_same] at hi
        rcases List.mem_cons.mp hi with rfl|hi
        · rw [hown]
          exact ⟨accepted_ready e hc,hacc c' hc⟩
        · exact (hkept _ hpf i hi).symm ▸ h.conns _ hpf i hi hbusy
      · rw [putList_other q _ hpr] at hi
        exact (hkept p hpf i hi).symm ▸ h.conns p hpf i hi hbusy
    · rw [putList_same,hblock,List.length_cons]
      change s.totalConnections+1=_
      have hcount := h.count
      omega
    · rw [List.mem_singleton.mp hi]
      exact hown.symm ▸ hc

theorem getRequest_inv {e : Config} (hacc : ∀ c,Accepted e c → G c) (h : Inv G max [] busy q s)
    (hp : s.pendingRequests=true) :
    ∃ q',Inv G max [] busy q' (exec (getRequest e max) s) ∧
      Opens e q q' s (exec (getRequest e max) s) := by
  simp only [getRequest,exec_bind]
  have h1 := takeAccept_inv h
  have hp1 : (exec takeAccept s).pendingRequests=true := hp
  have hconns : (exec takeAccept s).conns=s.conns := rfl
  generalize value takeAccept s = v
  generalize exec takeAccept s = s1 at h1 hp1 hconns
  cases v with
  | none =>
    refine ⟨q,⟨h1.listed.congr rfl rfl rfl rfl,h1.conns,h1.count,fun h => (by cases h),h1.bound,
      h1.size⟩,.refl e q _ _ hconns⟩
  | some a =>
    dsimp only
    split
    · exact ⟨q,h1,.refl e q _ _ hconns⟩
    · simp only [exec_bind]
      rcases newRequest_inv e a h1 hp1 with ⟨hval,hrun⟩|⟨x,q1,hval,hready,hblock,h2,hp2,hkept⟩
      · rw [hval,hrun]
        exact ⟨q,h1,.refl e q _ _ hconns⟩
      · rw [hval]
        obtain ⟨q',h3,hopens⟩ := setUp_inv hacc a h2 hp2
        refine ⟨q',h3,hopens.block.trans hblock,?_,fun p hpf i hi => ?_⟩
        · rw [← hready]
          exact hopens.ready
        · have hq : q1 p=q p := by cases p <;> first | exact hready | exact hblock | exact absurd rfl hpf
          rw [← hconns,← hkept p hpf i hi]
          exact hopens.conns p hpf i (hq ▸ hi)

theorem getPending_inv {e : Config} (hacc : ∀ c,Accepted e c → G c)
    (h : Inv G max [] busy q s) :
    ∃ q',Inv G max [] busy q' (exec (getPending e max) s) ∧
      Opens e q q' s (exec (getPending e max) s) := by
  simp only [getPending,exec_bind,value_get,exec_get]
  cases hp : s.pendingRequests with
  | true => exact getRequest_inv hacc h hp
  | false => exact ⟨q,h,.refl e q _ _ rfl⟩

end Accepting

/-! The end of a turn. -/

/-- The switch on the value of a turn, for the connection alone. -/
def ending (e : Config) (ret : Int) : Srv Unit :=
  if ret=-1 then Crotalus.blockRequest e
  else if ret=0 then do
    touch
    Crotalus.freeRequest e
  else if ret=1 then touch
  else setStatus .dead

/-- The turn of a connection is the same with its queue and without it. -/
theorem exec_processRequest (e : Config) (c : Conn) :
    exec (processRequest e) c=
      exec (ending e (value (turnOf e) c))
        (exec (do onlyIf ((← get).sys.sigterm) squashKa) (exec (turnOf e) c)) := by
  have hsettle : ∀ ret c,exec (Crotalus.settle e ret) c=
      exec (ending e ret) (exec (do onlyIf ((← get).sys.sigterm) squashKa) c) := fun _ _ => rfl
  rw [← hsettle]
  simp only [processRequest,turnOf,exec_bind,value_bind]
  split <;> rfl

theorem turnOf_place (e : Config) (c : Conn) : (exec (turnOf e) c).place=c.place := by
  have hflush := topFlush_idles e c
  simp only [turnOf,exec_bind]
  split
  · exact (processStatus_frame e _).1.trans hflush.place
  · exact hflush.place

section Turns

variable {G : Conn → Prop} {max : Nat} {q : Place → List Nat} {s : Queues} {x : Nat}
  {front rest : List Nat} (e : Config)

theorem enqueue_setConn (p : Place) (s : Queues) (c : Conn) :
    exec (enqueue p x) (s.setConn x c)=(exec (enqueue p x) s).setConn x c := rfl

theorem dequeue_setConn (p : Place) (s : Queues) (c : Conn) :
    exec (dequeue p x) (s.setConn x c)=(exec (dequeue p x) s).setConn x c := rfl

theorem Inv.weaken (h : Inv G max [] none q s) : Inv G max [] (some x) q s :=
  ⟨h.listed,fun p hp i hi _ => h.conns p hp i hi fun heq => (by cases heq),h.count,h.room,h.bound,
    h.size⟩

/-- The request whose turn it is stays on its queue. -/
theorem Inv.stays (h : Inv G max [] (some x) q s) {p : Place} (hq : q p=front++x::rest)
    {c : Conn} (hplace : c.place=p) (hgood : G c) :
    ∃ q' front',Inv G max [] none q' (s.setConn x c) ∧ q' p=front'++rest := by
  have hx : x∈q p := by
    rw [hq]
    exact List.mem_append_right _ List.mem_cons_self
  refine ⟨q,front++[x],⟨h.listed.congr rfl rfl rfl rfl,fun p' hpf i hi _ => ?_,h.count,h.room,
    h.bound,h.size⟩,by simp [hq]⟩
  by_cases hix : i=x
  · subst hix
    have hp : p'=p := by
      by_contra hne
      exact h.listed.apart hx (Ne.symm hne) hi
    rw [setConn_same,hp]
    exact ⟨hplace,hgood⟩
  · rw [setConn_other s c hix]
    exact h.conns p' hpf i hi fun heq => hix (Option.some.inj heq)

/-- It moves from the queue `p0` to the queue `p`. -/
theorem Inv.moves (h : Inv G max [] (some x) q s) {p0 p : Place} (hq : q p0=front++x::rest)
    (hp0 : p0≠.free) (hp : p≠p0) {c : Conn} (hgood : p≠.free → c.place=p ∧ G c) {total : Nat}
    (htotal : total+(if p=.free then 1 else 0)=s.totalConnections) :
    ∃ q' front',Inv G max [] none q'
        { (exec (enqueue p x) (exec (dequeue p0 x) s)).setConn x c with
          totalConnections := total } ∧
      q' p0=front'++rest := by
  let q1 := putList q p0 (front++rest)
  let q' := putList q1 p (x::q1 p)
  let s' := exec (enqueue p x) (exec (dequeue p0 x) s)
  have hlisted : Listed [] q' s' := (h.listed.dequeue hq).enqueue
  have hleft : q' p0=front++rest :=
    (putList_other q1 _ (Ne.symm hp)).trans (putList_same q p0 _)
  have hother : ∀ p',p'≠p0 → q1 p'=q p' := fun p' hp' => putList_other q _ hp'
  have hto : q' p=x::q p := (putList_same q1 p _).trans (by rw [hother p hp])
  have hrest : ∀ p',p'≠p0 → p'≠p → q' p'=q p' := fun p' hp0' hp' =>
    (putList_other q1 _ hp').trans (hother p' hp0')
  have hx : x∈q' p := by
    rw [hto]
    exact List.mem_cons_self
  have hold : ∀ p' i,i≠x → i∈q' p' → i∈q p' := by
    intro p' i hix hi
    by_cases hpp : p'=p
    · subst hpp
      rw [hto] at hi
      exact (List.mem_cons.mp hi).resolve_left hix
    · by_cases hpr : p'=p0
      · subst hpr
        rw [hleft] at hi
        rw [hq]
        rcases List.mem_append.mp hi with hi|hi
        · exact List.mem_append_left _ hi
        · exact List.mem_append_right _ (List.mem_cons_of_mem x hi)
      · exact hrest p' hpr hpp ▸ hi
  refine ⟨q',front,⟨hlisted.congr rfl rfl rfl rfl,fun p' hpf i hi _ => ?_,?_,fun hpend => ?_,
    ?_,h.size⟩,hleft⟩
  · change ((s'.setConn x c).conns i).place=p' ∧ G ((s'.setConn x c).conns i)
    by_cases hix : i=x
    · subst hix
      have hpp : p'=p := by
        by_contra hne
        exact hlisted.apart hx (Ne.symm hne) hi
      subst hpp
      rw [setConn_same]
      exact hgood hpf
    · rw [setConn_other s' c hix]
      exact h.conns p' hpf i (hold p' i hix hi) fun heq => hix (Option.some.inj heq)
  · have hcount := h.count
    have hlen := congrArg List.length hq
    have hlen0 := congrArg List.length hleft
    have hlen1 := congrArg List.length hto
    simp only [List.length_append,List.length_cons] at hlen hlen0 hlen1
    change total=(q' .ready).length+(q' .block).length
    cases p0 with
    | free => exact absurd rfl hp0
    | ready =>
      cases p with
      | ready => exact absurd rfl hp
      | block =>
        simp only [reduceCtorEq,if_false] at htotal
        omega
      | free =>
        have hkept := congrArg List.length
          (hrest .block (fun h => by cases h) (fun h => by cases h))
        simp only [if_true] at htotal
        omega
    | block =>
      cases p with
      | block => exact absurd rfl hp
      | ready =>
        simp only [reduceCtorEq,if_false] at htotal
        omega
      | free =>
        have hkept := congrArg List.length
          (hrest .ready (fun h => by cases h) (fun h => by cases h))
        simp only [if_true] at htotal
        omega
  · have hroom := h.room hpend
    change total ≤ max
    omega
  · have hbound := h.bound
    change total ≤ max+1
    omega

/-- What the last switch of a turn does with the struct, whose connection it leaves as `c`. -/
inductive Settled (x : Nat) (s : Queues) (c : Conn) : Queues → Prop where
  | stays (h : c.place=(s.conns x).place) : Settled x s c (s.setConn x c)
  | parks (h : c.place=.block) :
      Settled x s c ((exec (enqueue .block x) (exec (dequeue .ready x) s)).setConn x c)
  | frees (h : c.place=.free) :
      Settled x s c { (exec (enqueue .free x) (exec (dequeue .ready x) s)).setConn x c with
        totalConnections := s.totalConnections-1 }

/-- The connection ends its turn as it does alone. -/
theorem settle_run (ret : Int) (s : Queues) (x : Nat) :
    Settled x s (exec (ending e ret) (s.conns x)) (exec (settle e x ret) s) := by
  unfold ending settle
  split_ifs
  · obtain ⟨-,-,hp,-⟩ := blockRequest_outcome e (s.conns x)
    exact .parks hp
  · simp only [exec_bind,exec_onConn]
    let c1 := exec touch (s.conns x)
    obtain ⟨-,hp1,-,-⟩ := freeFlush_outcome e c1
    simp only [freeRequest,Crotalus.freeRequest,exec_bind,value_onConn,exec_onConn,setConn_same,
      setConn_setConn]
    change Settled x s (exec (if value (freeFlush e) c1 then _ else _) _)
      (exec (if value (freeFlush e) c1 then _ else _) _)
    cases value (freeFlush e) c1 with
    | true => exact .stays hp1
    | false =>
      let c3 := exec (finishFilter e) (exec (freeFlush e) c1)
      have hkeep : c3.settled.req.keepsAlive=c3.req.timedOut.keepsAlive := by
        rw [(settled_outcome c3).1]
        rfl
      have hrelease := exec_release c3
      rw [hkeep] at hrelease
      simp only [Bool.false_eq_true,if_false,exec_bind,exec_onConn,value_onConn,
        dequeue_setConn,setConn_same,setConn_setConn,value_getReq,exec_getReq]
      change Settled x s (exec release c3) (exec (if c3.req.timedOut.keepsAlive=true then _ else _)
        ((exec (dequeue .ready x) s).setConn x (exec release c3)))
      cases hk : c3.req.timedOut.keepsAlive with
      | true =>
        rw [hk,if_pos rfl] at hrelease
        exact .parks (by rw [hrelease]; rfl)
      | false =>
        rw [hk,if_neg Bool.false_ne_true] at hrelease
        exact .frees (by rw [hrelease]; exact (closeConn_outcome _).1)
  · exact .stays rfl
  · exact .stays rfl

/-- The last switch of a turn. -/
theorem settle_inv (h : Inv G max [] (some x) q s) (hq : q .ready=front++x::rest) {ret : Int}
    (hplace : (s.conns x).place=.ready) (hgood : G (exec (ending e ret) (s.conns x))) :
    ∃ q' front',Inv G max [] none q' (exec (settle e x ret) s) ∧ q' .ready=front'++rest := by
  have hpos : 1 ≤ s.totalConnections := by
    have hcount := h.count
    rw [hq] at hcount
    simp only [List.length_append,List.length_cons] at hcount
    omega
  have hrun := settle_run e ret s x
  generalize exec (ending e ret) (s.conns x) = c at hgood hrun
  generalize exec (settle e x ret) s = t at hrun ⊢
  cases hrun with
  | stays hp => exact h.stays hq (hp.trans hplace) hgood
  | parks hp =>
    have htotal : s.totalConnections+(if Place.block=.free then 1 else 0)=s.totalConnections := by
      simp
    exact h.moves hq (p := .block) (fun h => by cases h) (fun h => by cases h)
      (fun _ => ⟨hp,hgood⟩) htotal
  | frees _ =>
    have htotal : s.totalConnections-1+(if Place.free=.free then 1 else 0)=
        s.totalConnections := by simp; omega
    exact h.moves hq (p := .free) (fun h => by cases h) (fun h => by cases h)
      (fun h => absurd rfl h) htotal

theorem cgiWorkResps_place (rs : List (Int × List Byte)) (c : Conn) :
    (exec (cgiWorkResps rs) c).place=c.place :=
  (cgiWorkResps_scanned (T := fun _ => True) (S := fun _ => True) trivial trivial rs c).place

/-- The server in the turn of a request, when `get_request` comes. -/
def atAccept (e : Config) (x : Nat) (s : Queues) : Queues :=
  let t := value takeTurn s
  let c := exec (turnOf e) { s.conns x with sys := t.sys, waits := none }
  (exec (deliver x t.others) ((exec takeTurn s).setConn x c)).setConn x
    (exec (do onlyIf ((← get).sys.sigterm) squashKa) c)

theorem atAccept_other {i : Nat} (h : i≠x) :
    (atAccept e x s).conns i=exec (cgiWorkResps ((value takeTurn s).others i)) (s.conns i) := by
  rw [atAccept,setConn_other _ _ h]
  exact (if_neg h).trans (congrArg _ (setConn_other _ _ h))

/-- A round of the loop over the ready queue. -/
theorem processOne_run (max : Nat) (s : Queues) (x : Nat) :
    value (processOne e max x) s=(exec (getPending e max) (atAccept e x s)).links.next x ∧
      exec (processOne e max x) s=
        exec (settle e x (value (turnOf e)
          { s.conns x with sys := (value takeTurn s).sys, waits := none }))
          (exec (getPending e max) (atAccept e x s)) := by
  let t := value takeTurn s
  let c0 : Conn := { s.conns x with sys := t.sys, waits := none }
  let c1 := exec (turnOf e) c0
  let s4 := exec (deliver x t.others) ((exec takeTurn s).setConn x c1)
  have hown : s4.conns x=c1 := (if_pos rfl).trans (setConn_same _ x c1)
  have hbegin : exec (onConn x (modify fun c : Conn =>
      { c with sys := (value takeTurn s).sys, waits := none })) (exec takeTurn s)=
        (exec takeTurn s).setConn x c0 := rfl
  have hret : value (onConn x (turnOf e)) ((exec takeTurn s).setConn x c0)=value (turnOf e) c0 := by
    rw [value_onConn,setConn_same]
  have hturn : exec (onConn x (turnOf e)) ((exec takeTurn s).setConn x c0)=
      (exec takeTurn s).setConn x c1 := by
    rw [exec_onConn,setConn_same,setConn_setConn]
  have hlast : exec (onConn x (do onlyIf ((← get).sys.sigterm) squashKa))
      (exec (deliver x (value takeTurn s).others) ((exec takeTurn s).setConn x c1))=
        atAccept e x s := by
    change exec (onConn x _) s4=_
    rw [exec_onConn,hown]
    rfl
  constructor
  · simp only [processOne,value_bind,value_get,exec_get,value_pure,hbegin,hret,hturn,hlast]
  · simp only [processOne,exec_bind,value_get,exec_get,exec_pure,hbegin,hret,hturn,hlast]
    rfl

/-- A round of the loop over the ready queue goes on behind its request, which is on a queue
again at its end. -/
theorem processOne_inv {e : Config} (hacc : ∀ c,Accepted e c → G c)
    (hstep : ∀ c ev,G c → G (step e c ev)) (h : Inv G max [] none q s)
    (hq : q .ready=front++x::rest) :
    value (processOne e max x) s=rest.head? ∧
      ∃ q' front',Inv G max [] none q' (exec (processOne e max x) s) ∧ q' .ready=front'++rest := by
  have hx : x∈q .ready := by
    rw [hq]
    exact List.mem_append_right _ List.mem_cons_self
  obtain ⟨hplace,hgood⟩ := h.conns .ready (fun h => by cases h) x hx (fun h => by cases h)
  obtain ⟨hval,hrun⟩ := processOne_run e max s x
  rw [hval,hrun]
  let t := value takeTurn s
  let c0 : Conn := { s.conns x with sys := t.sys, waits := none }
  let ret := value (turnOf e) c0
  let c1 := exec (turnOf e) c0
  let c2 := exec (do onlyIf ((← get).sys.sigterm) squashKa) c1
  let s5 := atAccept e x s
  have h5 : Inv G max [] (some x) q s5 := by
    refine ⟨h.listed.congr rfl rfl rfl rfl,fun p hp i hi hb => ?_,h.count,h.room,h.bound,h.size⟩
    have hix : i≠x := fun heq => hb (by rw [heq])
    obtain ⟨hpi,hgi⟩ := h.conns p hp i hi (fun h => by cases h)
    rw [atAccept_other e hix]
    exact ⟨(cgiWorkResps_place _ _).trans hpi,hstep _ (.results _) hgi⟩
  obtain ⟨q6,h6,hblock,⟨new,hready,-⟩,hkept⟩ := getPending_inv hacc h5
  have hq6 : q6 .ready=(new++front)++x::rest := by rw [hready,hq,List.append_assoc]
  have hx6 : (exec (getPending e max) s5).conns x=c2 := by
    rw [hkept .ready (fun h => by cases h) x hx]
    exact setConn_same _ x c2
  have hsquash : c2.place=c1.place := by
    change (exec (onlyIf c1.sys.sigterm squashKa) c1).place=_
    cases c1.sys.sigterm <;> rfl
  have hplace2 : c2.place=.ready := hsquash.trans ((turnOf_place e c0).trans hplace)
  have hgood2 : G (exec (ending e ret) c2) := by
    have hone := hstep (s.conns x) (.process t.sys) hgood
    rw [step,if_pos hplace,exec_processRequest] at hone
    exact hone
  constructor
  · have hlist := h6.listed.lists .ready
    rw [hq6] at hlist
    exact hlist.threaded.links.2
  · exact settle_inv e h6 hq6 (hx6.symm ▸ hplace2) (hx6.symm ▸ hgood2)

/-- A blocked connection behind its pass. -/
def passed (p : Pass) (c : Conn) : Conn :=
  exec (do
    selectFds p.readyR p.readyW
    Crotalus.fdsetUpdate p.conf) { c with sys := p.sys }

/-- A round of `fdset_update`. -/
theorem updateOne_run (p : Pass) (s : Queues) (x : Nat) :
    value (updateOne p x) s=s.links.next x ∧
      exec (updateOne p x) s=if (passed p (s.conns x)).place=.ready then
        exec (enqueue .ready x) (exec (dequeue .block x) (s.setConn x (passed p (s.conns x))))
      else s.setConn x (passed p (s.conns x)) := by
  let c := passed p (s.conns x)
  constructor
  · simp only [updateOne,value_bind,value_get,exec_get]
    split <;> rfl
  · have hturn : exec (onConn x (do
        selectFds p.readyR p.readyW
        Crotalus.fdsetUpdate p.conf)) (s.setConn x { s.conns x with sys := p.sys })=
          s.setConn x c := by
      rw [exec_onConn,setConn_same,setConn_setConn]
      rfl
    have hbegin : exec (onConn x (modify fun c : Conn => { c with sys := p.sys })) s=
        s.setConn x { s.conns x with sys := p.sys } := rfl
    have hget : exec (onConn x get) (s.setConn x c)=s.setConn x c := by
      rw [exec_onConn,setConn_same,setConn_setConn]
      rfl
    have hval : value (onConn x get) (s.setConn x c)=c := by
      rw [value_onConn,setConn_same]
      rfl
    simp only [updateOne,exec_bind,value_get,exec_get,hbegin,hturn,hget,hval]
    split <;> rfl

/-- A round of `fdset_update` goes on behind its request, which it leaves on the blocked queue
or moves to the ready one. -/
theorem updateOne_inv {p : Pass} (hstep : ∀ c ev,G c → G (step p.conf c ev))
    (h : Inv G max [] none q s) (hq : q .block=front++x::rest) :
    value (updateOne p x) s=rest.head? ∧
      ∃ q' front',Inv G max [] none q' (exec (updateOne p x) s) ∧ q' .block=front'++rest := by
  have hx : x∈q .block := by
    rw [hq]
    exact List.mem_append_right _ List.mem_cons_self
  obtain ⟨hplace,hgood⟩ := h.conns .block (fun h => by cases h) x hx (fun h => by cases h)
  have hlist := h.listed.lists .block
  rw [hq] at hlist
  obtain ⟨hval,hrun⟩ := updateOne_run p s x
  have hgood' : G (passed p (s.conns x)) := by
    have hone := hstep (s.conns x) (.select p.sys p.readyR p.readyW) hgood
    rw [step,if_pos hplace] at hone
    exact hone
  have hplace' : (passed p (s.conns x)).place=.block ∨ (passed p (s.conns x)).place=.ready := by
    rcases select_outcome p.conf p.readyR p.readyW { s.conns x with sys := p.sys } with hw|⟨v,-,hw⟩
    all_goals exact hw.place.imp (fun h => h.trans hplace) id
  refine ⟨hval.trans hlist.threaded.links.2,?_⟩
  rw [hrun]
  generalize passed p (s.conns x) = c at hgood' hplace'
  rcases hplace' with hp|hp
  · rw [if_neg (by rw [hp]; exact fun h => by cases h)]
    exact h.weaken.stays hq hp hgood'
  · rw [if_pos hp,dequeue_setConn,enqueue_setConn]
    exact h.weaken.moves hq (p := .ready) (fun h => by cases h) (fun h => by cases h)
      (fun _ => ⟨hp,hgood'⟩) rfl

end Turns

/-! The loops over the queues. -/

section Loops

variable {G : Conn → Prop} {max fuel : Nat} {q : Place → List Nat} {s : Queues}

/-- The queue, seen from its head. -/
theorem Listed.head_eq {held : List Nat} (h : Listed held q s) (p : Place) :
    s.head p=(q p).head? := (h.lists p).head

theorem Inv.list_length (h : Inv G max [] none q s) (p : Place) : (q p).length ≤ max+1 := by
  have hlen := h.listed.length
  have hsize := h.size
  simp only [List.length_nil] at hlen
  cases p <;> omega

/-- `process_requests` visits the request it accepts first, then those on the ready queue. -/
theorem processRequests_inv {e : Config} (hacc : ∀ c,Accepted e c → G c)
    (hstep : ∀ c ev,G c → G (step e c ev)) (h : Inv G max [] none q s) (hfuel : max+1 ≤ fuel) :
    ∃ new t q',processRequests e max fuel s=some (new++q .ready,t) ∧ (new++q .ready).Nodup ∧
      Inv G max [] none q' t := by
  obtain ⟨q1,h1,hopens⟩ := getPending_inv hacc h
  obtain ⟨new,hready,-⟩ := hopens.ready
  let P : List Nat → Queues → Prop := fun rest t =>
    ∃ q' front,Inv G max [] none q' t ∧ q' .ready=front++rest
  have hround : ∀ x xs t,P (x::xs) t →
      value (processOne e max x) t=xs.head? ∧ P xs (exec (processOne e max x) t) := by
    rintro x xs t ⟨q',front,hinv,hq'⟩
    exact processOne_inv hacc hstep hinv hq'
  have hlen : (q1 .ready).length ≤ fuel := (h1.list_length .ready).trans hfuel
  obtain ⟨t,hrun,q',front,hinv,-⟩ :=
    forEach_visits hround (s := exec (getPending e max) s) ⟨q1,[],h1,rfl⟩ hlen
  rw [← h1.listed.head_eq,hready] at hrun
  exact ⟨new,t,q',hrun,hready ▸ h1.listed.list_nodup,hinv⟩

/-- `fdset_update` visits the blocked requests. -/
theorem fdsetUpdate_inv {p : Pass} (hstep : ∀ c ev,G c → G (step p.conf c ev))
    (h : Inv G max [] none q s) (hfuel : max+1 ≤ fuel) :
    ∃ t q',fdsetUpdate p fuel s=some (q .block,t) ∧ Inv G max [] none q' t := by
  let P : List Nat → Queues → Prop := fun rest t =>
    ∃ q' front,Inv G max [] none q' t ∧ q' .block=front++rest
  have hround : ∀ x xs t,P (x::xs) t →
      value (updateOne p x) t=xs.head? ∧ P xs (exec (updateOne p x) t) := by
    rintro x xs t ⟨q',front,hinv,hq'⟩
    exact updateOne_inv hstep hinv hq'
  have hlen : (q .block).length ≤ fuel := (h.list_length .block).trans hfuel
  obtain ⟨t,hrun,q',front,hinv,-⟩ := forEach_visits hround (s := s) ⟨q,[],h,rfl⟩ hlen
  rw [← h.listed.head_eq] at hrun
  exact ⟨t,q',hrun,hinv⟩

/-- `free_requests` gives back the structs on the free queue, and no other. -/
theorem freeRequests_inv (h : Inv G max [] none q s) (hfuel : max+1 ≤ fuel) :
    ∃ t,freeRequests fuel s=some t ∧ Inv G max [] none (putList q .free []) t := by
  let P : List Nat → Queues → Prop := fun rest t =>
    ∃ front,q .free=front++rest ∧ t={ s with allocated := t.allocated } ∧ t.allocated.Nodup ∧
      ∀ i,t.allocated.count i+front.count i=s.allocated.count i
  have hround : ∀ x xs t,P (x::xs) t → value (freeOne x) t=xs.head? ∧ P xs (exec (freeOne x) t) := by
    rintro x xs t ⟨front,hq,ht,hnodup,hcount⟩
    have hlist := h.listed.lists .free
    rw [hq] at hlist
    have hlinks : t.links=s.links := by rw [ht]
    constructor
    · change t.links.next x=_
      rw [hlinks]
      exact hlist.threaded.links.2
    · refine ⟨front++[x],by simp [hq],?_,hnodup.erase x,fun i => ?_⟩
      · change { t with allocated := t.allocated.erase x }=_
        rw [ht]
        rfl
      · change (t.allocated.erase x).count i+_=_
        have hi := hcount i
        have hx : 1 ≤ s.allocated.count x := by
          have honce := h.listed.once x
          have hle := count_le_listedTimes (q := q) (p := .free) x
          have hpos : 1 ≤ (q .free).count x := by
            rw [hq]
            exact List.count_pos_iff.mpr (List.mem_append_right _ List.mem_cons_self)
          omega
        have hfront : front.count x=0 := by
          have hd := h.listed.list_nodup (p := .free)
          rw [hq] at hd
          refine List.count_eq_zero.mpr fun hmem => ?_
          exact (List.nodup_append.mp hd).2.2 x hmem x List.mem_cons_self rfl
        have hown := hcount x
        rw [List.count_append,List.count_erase,List.count_cons,List.count_nil]
        by_cases hix : x=i
        · subst hix
          simp only [beq_self_eq_true,if_true]
          omega
        · have hne : (x==i)=false := beq_false_of_ne hix
          rw [hne]
          simp only [Bool.false_eq_true,if_false]
          omega
  have hlen : (q .free).length ≤ fuel := (h.list_length .free).trans hfuel
  have hstart : P (q .free) s := ⟨[],rfl,rfl,h.listed.nodup,fun i => by simp⟩
  obtain ⟨t,hrun,front,hq,ht,hnodup,hcount⟩ := forEach_visits hround hstart hlen
  rw [← h.listed.head_eq] at hrun
  have hfront : front=q .free := by rw [hq,List.append_nil]
  have hsub : ∀ i,i∈t.allocated → i∈s.allocated := by
    intro i hi
    have hpos := List.count_pos_iff.mpr hi
    have hi := hcount i
    exact List.count_pos_iff.mp (by omega)
  have hready : putList q .free [] .ready=q .ready := putList_other q _ (fun h => by cases h)
  have hblock : putList q .free [] .block=q .block := putList_other q _ (fun h => by cases h)
  refine ⟨t.setHead .free none,by rw [freeRequests,hrun]; rfl,?_⟩
  rw [ht]
  refine ⟨⟨fun p => ?_,fun i => ?_,hnodup,fun i hi => h.listed.fresh i (hsub i hi)⟩,
    fun p hp i hi hb => ?_,?_,h.room,h.bound,?_⟩
  · by_cases hp : p=.free
    · subst hp
      rw [putList_same]
      have hhead : ∀ u : Queues,(u.setHead .free none).head .free=none := fun _ => rfl
      exact ⟨hhead _,trivial⟩
    · rw [putList_other q _ hp]
      have hhead : (setHead { s with allocated := t.allocated } .free none).head p=s.head p := if_neg hp
      rw [hhead]
      exact h.listed.lists p
  · have hput : listedTimes (putList q .free []) i+(q .free).count i=
        listedTimes q i+([] : List Nat).count i := listedTimes_putList i
    have honce := h.listed.once i
    have hi := hcount i
    rw [hfront] at hi
    change _=t.allocated.count i
    simp only [List.count_nil] at hput honce ⊢
    omega
  · rw [putList_other q _ hp] at hi
    exact h.conns p hp i hi hb
  · rw [hready,hblock]
    exact h.count
  · have hle : ∀ i,t.allocated.count i ≤ s.allocated.count i := fun i => by
      have hi := hcount i
      omega
    exact (List.subperm_iff_count.mpr hle).length_le.trans h.size

end Loops

end Queues

end Crotalus
