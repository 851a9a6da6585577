import Crotalus.Framework.Run
import Crotalus.Server.CgiEnv
import Mathlib.Data.List.Nodup
import Mathlib.Tactic.Common

namespace Crotalus

/-! Who owns the strings of the environments, over runs with reloads. -/

/-- The file is read again only while no request holds strings, and a request gets strings
only while there are as many common variables as when its line was read. -/
def EnvOk (w : EnvServer) : EnvEvent → Prop
  | .reload _ => ∀ k,(w.reqs k).own=[]
  | .header k _ ok => (w.reqs k).stage=.headers → ok=true → (w.reqs k).seen=w.common.length
  | .complete k vars => (w.reqs k).stage=.headers → vars.head?.map Prod.snd=some true →
      (w.reqs k).seen=w.common.length
  | _ => True

/-! The invariant. -/

/-- A request's strings stand together behind the common ones that its line saw. -/
structure EnvRequest.Inv (n allocs : Nat) (ended : List EnvString) (k : Nat)
    (r : EnvRequest) : Prop where
  index : r.cgiEnvIndex=r.seen+r.own.length
  top : r.cgiEnvIndex ≤ cgiEnvMax
  seen : r.seen≤n
  current : r.own≠[] → r.seen=n
  holds : NullArray.Holds r.cgiEnv r.seen r.own
  mine : ∀ s∈r.own,s.owner=some k ∧ s.id<allocs ∧ s∉ended
  nodup : r.own.Nodup
  waiting : r.stage=.waiting → r.own=[]

structure EnvServer.Inv (w : EnvServer) : Prop where
  room : w.exited=false → w.common.length ≤ cgiEnvMax
  shared : ∀ s∈w.common,s.owner=none
  reqs : ∀ k,(w.reqs k).Inv w.common.length w.allocs w.ended k
  freed : w.freed=w.ended
  ended : w.ended.Nodup ∧ ∀ s∈w.ended,s.owner≠none ∧ s.id<w.allocs
  whole : ∀ b∈w.built,b.envp=b.common++b.headers++b.vars
  bounded : ∀ i∈w.touched,i < cgiEnvMax+4

theorem EnvServer.Initial.inv {w : EnvServer} (h : w.Initial) : w.Inv where
  room _ := h.room
  shared := h.shared
  reqs k := by
    obtain ⟨hstage,hindex,hseen,hown⟩ := h.idle k
    constructor
    · rw [hindex,hseen,hown]
      rfl
    · rw [hindex]
      exact Nat.zero_le _
    · rw [hseen]
      exact Nat.zero_le _
    · exact fun hne => absurd hown hne
    · rw [hown]
      exact .nil _ _
    · rw [hown]
      exact fun s hs => nomatch hs
    · rw [hown]
      exact List.nodup_nil
    · exact fun _ => hown
  freed := by rw [h.clear.1,h.clear.2.1]
  ended := by
    rw [h.clear.2.1]
    exact ⟨List.nodup_nil,fun s hs => nomatch hs⟩
  whole := by
    rw [h.clear.2.2.1]
    exact fun b hb => nomatch hb
  bounded := by
    rw [h.clear.2.2.2]
    exact fun i hi => nomatch hi

/-- More allocations elsewhere do not concern a request. -/
theorem EnvRequest.Inv.allocs {n a a' : Nat} {ended : List EnvString} {k : Nat}
    {r : EnvRequest} (h : r.Inv n a ended k) (ha : a≤a') : r.Inv n a' ended k :=
  { h with
    mine := fun s hs => by
      obtain ⟨howner,hid,hend⟩ := h.mine s hs
      exact ⟨howner,Nat.lt_of_lt_of_le hid ha,hend⟩ }

/-- A request without strings does not mind more common variables. -/
theorem EnvRequest.Inv.more {n n' a : Nat} {ended : List EnvString} {k : Nat}
    {r : EnvRequest} (h : r.Inv n a ended k) (hown : r.own=[]) (hn : n≤n') :
    r.Inv n' a ended k :=
  { h with
    seen := Nat.le_trans h.seen hn
    current := fun hne => absurd hown hne }

@[simp] theorem EnvServer.setReq_same (w : EnvServer) (k : Nat) (r : EnvRequest) :
    (w.setReq k r).reqs k=r := if_pos rfl

@[simp] theorem EnvServer.touch_reqs (w : EnvServer) (is : List Nat) :
    (w.touch is).reqs=w.reqs := rfl

theorem EnvServer.setReq_other (w : EnvServer) {j k : Nat} (r : EnvRequest) (h : j≠k) :
    (w.setReq k r).reqs j=w.reqs j := if_neg h

/-- A request replaced by one that keeps the invariant. -/
theorem EnvServer.Inv.setReq {w : EnvServer} (h : w.Inv) {k : Nat} {r : EnvRequest}
    (hr : r.Inv w.common.length w.allocs w.ended k) : (w.setReq k r).Inv :=
  { h with
    reqs := fun j => by
      by_cases hj : j=k
      · subst hj
        rw [w.setReq_same]
        exact hr
      · rw [w.setReq_other r hj]
        exact h.reqs j }

theorem EnvServer.Inv.touch {w : EnvServer} (h : w.Inv) (is : List Nat)
    (his : ∀ i∈is,i < cgiEnvMax+4) : (w.touch is).Inv :=
  { h with
    bounded := fun i hi => by
      rcases List.mem_append.mp hi with hi|hi
      · exact h.bounded i hi
      · exact his i hi }

/-! One call each. -/

theorem EnvServer.Inv.addToCommonEnv {w : EnvServer} (h : w.Inv)
    (hown : ∀ k,(w.reqs k).own=[]) (text : Text) :
    (w.addToCommonEnv text).Inv ∧ ∀ k,((w.addToCommonEnv text).reqs k).own=[] := by
  unfold EnvServer.addToCommonEnv
  split_ifs with hexit
  · exact ⟨h,hown⟩
  · refine ⟨?_,hown⟩
    have hlen : (w.common++[(⟨w.allocs,none,text⟩ : EnvString)]).length=w.common.length+1 := by
      rw [List.length_append,List.length_singleton]
    exact {
      room := fun hfit => Nat.not_lt.mp (of_decide_eq_false hfit)
      shared := fun s hs => by
        rcases List.mem_append.mp hs with hs|hs
        · exact h.shared s hs
        · rw [List.mem_singleton.mp hs]
      reqs := fun k => by
        apply ((h.reqs k).more (hown k) _).allocs (Nat.le_succ _)
        rw [hlen]
        exact Nat.le_succ _
      freed := h.freed
      ended := ⟨h.ended.1,fun s hs => ⟨(h.ended.2 s hs).1,Nat.lt_succ_of_lt (h.ended.2 s hs).2⟩⟩
      whole := h.whole
      bounded := h.bounded }

theorem EnvServer.Inv.reload {w : EnvServer} (h : w.Inv) (hown : ∀ k,(w.reqs k).own=[])
    (texts : List Text) : (texts.foldl EnvServer.addToCommonEnv w).Inv := by
  induction texts generalizing w with
  | nil => exact h
  | cons text texts ih =>
    obtain ⟨hnext,hkept⟩ := h.addToCommonEnv hown text
    exact ih hnext hkept

theorem EnvServer.Inv.processLogline {w : EnvServer} (h : w.Inv) (hexit : w.exited=false)
    {k : Nat} (hstage : (w.reqs k).stage=.waiting) : (w.processLogline k).Inv := by
  have hown : (w.reqs k).own=[] := (h.reqs k).waiting hstage
  apply h.setReq
  constructor
  · change w.common.length=w.common.length+(w.reqs k).own.length
    rw [hown]
    rfl
  · exact h.room hexit
  · exact Nat.le_refl _
  · exact fun _ => rfl
  · change NullArray.Holds _ _ (w.reqs k).own
    rw [hown]
    exact .nil _ _
  · exact (h.reqs k).mine
  · exact (h.reqs k).nodup
  · exact fun _ => hown

/-- The request with one string more. -/
def EnvRequest.push (r : EnvRequest) (s : EnvString) : EnvRequest :=
  { r with
    cgiEnv := NullArray.put r.cgiEnv r.cgiEnvIndex (some s)
    cgiEnvIndex := r.cgiEnvIndex+1
    own := r.own++[s] }

theorem EnvServer.addCgiEnv_cases (w : EnvServer) (k : Nat) (text : Text) (ok : Bool) :
    w.addCgiEnv k text ok=(w,false) ∨
    (ok=true ∧ (w.reqs k).cgiEnvIndex < cgiEnvMax ∧ w.addCgiEnv k text ok=
      ((({ w with allocs := w.allocs+1 } : EnvServer).setReq k
        ((w.reqs k).push ⟨w.allocs,some k,text⟩)).touch [(w.reqs k).cgiEnvIndex],true)) := by
  unfold EnvServer.addCgiEnv
  dsimp only
  split_ifs with hroom
  · obtain ⟨hlt,hok⟩ := (Bool.and_eq_true _ _).mp hroom
    exact .inr ⟨hok,of_decide_eq_true hlt,rfl⟩
  · exact .inl rfl

theorem EnvRequest.Inv.push {n allocs : Nat} {ended : List EnvString} {k : Nat}
    {r : EnvRequest} (h : r.Inv n allocs ended k) (hseen : r.seen=n)
    (hlt : r.cgiEnvIndex < cgiEnvMax) (hstage : r.stage≠.waiting)
    (hended : ∀ s∈ended,s.id<allocs) (text : Text) :
    (r.push ⟨allocs,some k,text⟩).Inv n (allocs+1) ended k where
  index := by
    change r.cgiEnvIndex+1=r.seen+(r.own++[_]).length
    rw [h.index,List.length_append,List.length_singleton,Nat.add_assoc]
  top := hlt
  seen := h.seen
  current _ := hseen
  holds := by
    have hput := h.holds.put (⟨allocs,some k,text⟩ : EnvString)
    rw [← h.index] at hput
    exact hput
  mine s hs := by
    rcases List.mem_append.mp hs with hs|hs
    · obtain ⟨howner,hid,hend⟩ := h.mine s hs
      exact ⟨howner,Nat.lt_succ_of_lt hid,hend⟩
    · rw [List.mem_singleton.mp hs]
      exact ⟨rfl,Nat.lt_succ_self _,fun hend => Nat.lt_irrefl _ (hended _ hend)⟩
  nodup := by
    refine List.nodup_append.mpr ⟨h.nodup,List.nodup_singleton _,?_⟩
    intro s hs t ht heq
    have hid := (h.mine s hs).2.1
    rw [heq,List.mem_singleton.mp ht] at hid
    exact Nat.lt_irrefl _ hid
  waiting hw := absurd hw hstage

/-- What calls of `add_cgi_env` for a request leave as it was. -/
structure EnvServer.Adds (k : Nat) (w w' : EnvServer) : Prop where
  inv : w'.Inv
  common : w'.common=w.common
  seen : (w'.reqs k).seen=(w.reqs k).seen
  stage : (w'.reqs k).stage=(w.reqs k).stage
  own : (w.reqs k).own<+:(w'.reqs k).own
  below : ∀ i,i<(w.reqs k).seen → (w'.reqs k).cgiEnv i=(w.reqs k).cgiEnv i

theorem EnvServer.Adds.refl {k : Nat} {w : EnvServer} (h : w.Inv) : w.Adds k w :=
  ⟨h,rfl,rfl,rfl,List.prefix_refl _,fun _ _ => rfl⟩

theorem EnvServer.Adds.trans {k : Nat} {w w' w'' : EnvServer} (h : w.Adds k w')
    (h' : w'.Adds k w'') : w.Adds k w'' where
  inv := h'.inv
  common := h'.common.trans h.common
  seen := h'.seen.trans h.seen
  stage := h'.stage.trans h.stage
  own := h.own.trans h'.own
  below i hi := (h'.below i (by rw [h.seen]; exact hi)).trans (h.below i hi)

theorem EnvServer.Inv.addCgiEnv {w : EnvServer} (h : w.Inv) {k : Nat} (text : Text) {ok : Bool}
    (hseen : ok=true → (w.reqs k).seen=w.common.length)
    (hstage : (w.reqs k).stage≠.waiting) : w.Adds k (w.addCgiEnv k text ok).1 := by
  rcases w.addCgiEnv_cases k text ok with heq|⟨hok,hlt,heq⟩
  · rw [heq]
    exact .refl h
  · rw [heq]
    have hmore : ({ w with allocs := w.allocs+1 } : EnvServer).Inv :=
      { h with
        reqs := fun j => (h.reqs j).allocs (Nat.le_succ _)
        ended := ⟨h.ended.1,fun s hs =>
          ⟨(h.ended.2 s hs).1,Nat.lt_succ_of_lt (h.ended.2 s hs).2⟩⟩ }
    have hpush := (h.reqs k).push (hseen hok) hlt hstage (fun s hs => (h.ended.2 s hs).2) text
    have hreq : ((({ w with allocs := w.allocs+1 } : EnvServer).setReq k
        ((w.reqs k).push ⟨w.allocs,some k,text⟩)).touch [(w.reqs k).cgiEnvIndex]).reqs k=
        (w.reqs k).push ⟨w.allocs,some k,text⟩ := if_pos rfl
    constructor
    · apply (hmore.setReq hpush).touch _
      intro i hi
      rw [List.mem_singleton.mp hi]
      omega
    · rfl
    · rw [hreq]
      rfl
    · rw [hreq]
      rfl
    · rw [hreq]
      exact List.prefix_append _ _
    · intro i hi
      rw [hreq]
      apply NullArray.put_other
      have hindex := (h.reqs k).index
      omega

theorem EnvServer.Inv.addCgiEnvs {w : EnvServer} (h : w.Inv) {k : Nat}
    (hseen : (w.reqs k).seen=w.common.length) (hstage : (w.reqs k).stage≠.waiting)
    (vars : List (Text × Bool)) : w.Adds k (w.addCgiEnvs k vars).1 := by
  induction vars generalizing w with
  | nil => exact .refl h
  | cons var vars ih =>
    obtain ⟨text,ok⟩ := var
    have hadd := h.addCgiEnv text (fun _ : ok=true => hseen) hstage
    simp only [EnvServer.addCgiEnvs]
    cases (w.addCgiEnv k text ok).2 with
    | false => exact hadd
    | true =>
      refine hadd.trans (ih hadd.inv ?_ ?_)
      · rw [hadd.seen,hadd.common]
        exact hseen
      · rw [hadd.stage]
        exact hstage

/-- The copy of the common variables overwrites none of the request's. -/
theorem EnvServer.Inv.copyCommon {w : EnvServer} (h : w.Inv) (hexit : w.exited=false) {k : Nat}
    (hstage : (w.reqs k).stage≠.waiting) : (w.copyCommon k).Inv := by
  have hr := h.reqs k
  refine (h.setReq ?_).touch _ ?_
  · refine ⟨hr.index,hr.top,hr.seen,hr.current,?_,hr.mine,hr.nodup,
      fun hw => absurd hw hstage⟩
    change NullArray.Holds _ (w.reqs k).seen (w.reqs k).own
    by_cases hown : (w.reqs k).own=[]
    · rw [hown]
      exact .nil _ _
    · exact hr.holds.copy (Nat.le_of_eq (hr.current hown).symm)
  · intro i hi
    have hlt := List.mem_range.mp hi
    have hroom := h.room hexit
    omega

theorem EnvServer.copyCommon_req (w : EnvServer) (k : Nat) : (w.copyCommon k).reqs k=
    { w.reqs k with cgiEnv := NullArray.copy w.common (w.reqs k).cgiEnv } := if_pos rfl

/-- The environment that is finished is all of its three parts. -/
theorem EnvServer.Inv.terminate {w : EnvServer} (h : w.Inv) {k : Nat} {headers : List EnvString}
    (hseen : (w.reqs k).seen=w.common.length)
    (hcommon : NullArray.Holds (w.reqs k).cgiEnv 0 w.common)
    (hown : headers<+:(w.reqs k).own) (hstage : (w.reqs k).stage≠.waiting) :
    (w.terminate k headers).Inv ∧ ((w.terminate k headers).reqs k).stage≠.waiting := by
  unfold EnvServer.terminate
  dsimp only
  split_ifs with hroom
  · have hr := h.reqs k
    obtain ⟨vars,hvars⟩ := hown
    have hall : NullArray.Holds (w.reqs k).cgiEnv 0 (w.common++(w.reqs k).own) := by
      apply hcommon.append
      rw [Nat.zero_add,← hseen]
      exact hr.holds
    have hlen : (w.common++(w.reqs k).own).length=(w.reqs k).cgiEnvIndex := by
      rw [List.length_append,hr.index,hseen]
    have hput : NullArray.Holds
        (NullArray.put (w.reqs k).cgiEnv (w.reqs k).cgiEnvIndex none) 0
        (w.common++(w.reqs k).own) := hall.put_outside (.inr (by omega))
    have hread : NullArray.entries
        (NullArray.put (w.reqs k).cgiEnv (w.reqs k).cgiEnvIndex none) (cgiEnvMax+4) 0=
        w.common++(w.reqs k).own := by
      apply hput.entries
      · rw [Nat.zero_add,hlen]
        exact NullArray.put_same _ _ _
      · omega
    have hset : (w.setReq k { w.reqs k with
        cgiEnv := NullArray.put (w.reqs k).cgiEnv (w.reqs k).cgiEnvIndex none }).Inv := by
      apply h.setReq
      refine ⟨hr.index,hr.top,hr.seen,hr.current,?_,hr.mine,hr.nodup,
        fun hw => absurd hw hstage⟩
      exact hr.holds.put_outside (.inr (Nat.le_of_eq hr.index.symm))
    have htouch := hset.touch [(w.reqs k).cgiEnvIndex] (by
      intro i hi
      rw [List.mem_singleton.mp hi]
      omega)
    constructor
    · exact { htouch with
        whole := fun b hb => by
          rcases List.mem_append.mp hb with hb|hb
          · exact h.whole b hb
          · rw [List.mem_singleton.mp hb]
            change NullArray.entries _ _ _=w.common++headers++(w.reqs k).own.drop headers.length
            rw [hread,← hvars,List.drop_left,List.append_assoc] }
    · change ((w.setReq k _).reqs k).stage≠.waiting
      rw [EnvServer.setReq_same]
      exact hstage
  · exact ⟨h,hstage⟩

theorem EnvServer.Inv.completeEnv {w : EnvServer} (h : w.Inv) (hexit : w.exited=false) {k : Nat}
    {vars : List (Text × Bool)} (hvars : vars≠[]) (hstage : (w.reqs k).stage≠.waiting)
    (hok : vars.head?.map Prod.snd=some true → (w.reqs k).seen=w.common.length) :
    (w.completeEnv k vars).Inv ∧ ((w.completeEnv k vars).reqs k).stage≠.waiting := by
  have hcopy := h.copyCommon hexit hstage
  have hreq := w.copyCommon_req k
  have hstage' : ((w.copyCommon k).reqs k).stage≠.waiting := by
    rw [hreq]
    exact hstage
  unfold EnvServer.completeEnv
  dsimp only
  by_cases hseen : (w.reqs k).seen=w.common.length
  · have hseen' : ((w.copyCommon k).reqs k).seen=(w.copyCommon k).common.length := by
      rw [hreq]
      exact hseen
    have hadds := hcopy.addCgiEnvs hseen' hstage' vars
    split_ifs
    · apply hadds.inv.terminate
      · rw [hadds.seen,hadds.common]
        exact hseen'
      · intro j hj
        rw [hadds.common] at hj ⊢
        have hlt : j<w.common.length := hj
        rw [Nat.zero_add,hadds.below j (by rw [hseen']; exact hj),hreq]
        exact if_pos hlt
      · have hown := hadds.own
        rw [hreq] at hown
        exact hown
      · rw [hadds.stage]
        exact hstage'
    · exact ⟨hadds.inv,by rw [hadds.stage]; exact hstage'⟩
  · -- With an index of before a reload, only the failure of the first string is admitted.
    obtain ⟨⟨text,ok⟩,rest,rfl⟩ := List.exists_cons_of_ne_nil hvars
    have hfail : ok=false := by
      cases ok with
      | false => rfl
      | true => exact absurd (hok rfl) hseen
    subst hfail
    have hadd : (w.copyCommon k).addCgiEnv k text false=(w.copyCommon k,false) := by
      rcases (w.copyCommon k).addCgiEnv_cases k text false with heq|⟨hf,-,-⟩
      · exact heq
      · exact absurd hf Bool.false_ne_true
    simp only [EnvServer.addCgiEnvs,hadd,Bool.false_eq_true,if_false]
    exact ⟨hcopy,hstage'⟩

/-- `free_request` frees what was made for the request, in order. -/
theorem EnvRequest.Inv.frees {n allocs : Nat} {ended : List EnvString} {k : Nat}
    {r : EnvRequest} (h : r.Inv n allocs ended k) :
    (List.range' n (r.cgiEnvIndex-n)).filterMap r.cgiEnv=r.own := by
  by_cases hown : r.own=[]
  · have hindex : r.cgiEnvIndex-n=0 := by
      have hi := h.index
      have hs := h.seen
      rw [hown,List.length_nil] at hi
      omega
    rw [hindex,hown]
    rfl
  · have hindex : r.cgiEnvIndex-n=r.own.length := by
      have hi := h.index
      have hs := h.current hown
      omega
    have hholds := h.holds
    rw [h.current hown] at hholds
    rw [hindex]
    exact hholds.filterMap

theorem EnvServer.Inv.freeRequest {w : EnvServer} (h : w.Inv) (k : Nat) :
    (w.freeRequest k).Inv := by
  have hr := h.reqs k
  have hfrees := hr.frees
  exact {
    room := h.room
    shared := h.shared
    reqs := fun j => by
      by_cases hj : j=k
      · subst hj
        have hreq : (w.freeRequest j).reqs j={ w.reqs j with
            stage := .waiting, cgiEnvIndex := 0, seen := 0, own := [] } := if_pos rfl
        rw [hreq]
        exact ⟨rfl,Nat.zero_le _,Nat.zero_le _,fun hne => absurd rfl hne,.nil _ _,
          (fun s hs => nomatch hs),List.nodup_nil,fun _ => rfl⟩
      · have hreq : (w.freeRequest k).reqs j=w.reqs j := if_neg hj
        rw [hreq]
        have hrj := h.reqs j
        exact { hrj with
          mine := fun s hs => by
            obtain ⟨howner,hid,hend⟩ := hrj.mine s hs
            refine ⟨howner,hid,fun hmem => ?_⟩
            rcases List.mem_append.mp hmem with hmem|hmem
            · exact hend hmem
            · have hother := (hr.mine s hmem).1
              rw [howner] at hother
              exact hj (Option.some.inj hother) }
    freed := by
      change w.freed++_=w.ended++(w.reqs k).own
      rw [h.freed,EnvServer.freeIndices,hfrees]
    ended := by
      constructor
      · refine List.nodup_append.mpr ⟨h.ended.1,hr.nodup,?_⟩
        intro s hs t ht heq
        exact (hr.mine t ht).2.2 (heq ▸ hs)
      · intro s hs
        rcases List.mem_append.mp hs with hs|hs
        · exact h.ended.2 s hs
        · obtain ⟨howner,hid,-⟩ := hr.mine s hs
          exact ⟨by rw [howner]; exact Option.some_ne_none k,hid⟩
    whole := h.whole
    bounded := fun i hi => by
      rcases List.mem_append.mp hi with hi|hi
      · exact h.bounded i hi
      · obtain ⟨d,hd,rfl⟩ := List.mem_range'.mp hi
        have htop := hr.top
        omega }

/-! Runs. -/

theorem EnvServer.Inv.step {w : EnvServer} (h : w.Inv) {ev : EnvEvent} (hok : EnvOk w ev) :
    (w.step ev).Inv := by
  cases ev with
  | logline k =>
    simp only [EnvServer.step]
    split_ifs with hif
    · obtain ⟨hexit,hstage⟩ := (Bool.and_eq_true _ _).mp hif
      exact h.processLogline (by simpa using hexit) (of_decide_eq_true hstage)
    · exact h
  | header k text ok =>
    simp only [EnvServer.step]
    split_ifs with hif
    · obtain ⟨-,hstage⟩ := (Bool.and_eq_true _ _).mp hif
      have hstage : (w.reqs k).stage=.headers := of_decide_eq_true hstage
      have hne : (w.reqs k).stage≠.waiting := by
        rw [hstage]
        exact fun hc => nomatch hc
      exact (h.addCgiEnv text (hok hstage) hne).inv
    · exact h
  | complete k vars =>
    simp only [EnvServer.step]
    split_ifs with hif
    · obtain ⟨hif,hvars⟩ := (Bool.and_eq_true _ _).mp hif
      obtain ⟨hexit,hstage⟩ := (Bool.and_eq_true _ _).mp hif
      have hstage : (w.reqs k).stage=.headers := of_decide_eq_true hstage
      have hne : (w.reqs k).stage≠.waiting := by
        rw [hstage]
        exact fun hc => nomatch hc
      obtain ⟨hdone,-⟩ := h.completeEnv (by simpa using hexit) (of_decide_eq_true hvars) hne
        (hok hstage)
      have hr := hdone.reqs k
      exact hdone.setReq ⟨hr.index,hr.top,hr.seen,hr.current,hr.holds,hr.mine,hr.nodup,
        fun hc => nomatch hc⟩
    · exact h
  | free k =>
    simp only [EnvServer.step]
    split_ifs
    · exact h.freeRequest k
    · exact h
  | reload texts => exact h.reload hok texts

end Crotalus
