import Crotalus.Server.Mime
import Crotalus.Spec.Works

namespace Crotalus

open Stateful

/-! When `init_cgi` starts something, and what it returns. -/

/-- Room and memory for the `n` further variables of `complete_env`; `mem` are the results
of the allocations. -/
def varsFit (r : Request) (mem : List Bool) (n : Nat) : Bool :=
  r.cgiEnvIndex + n ≤ cgiEnvMax && (mem.take n).all id

/-- What the start of a program depends on. -/
def Conn.launch (c : Conn) : CgiType × Option Text × Option Nat × Bool × Bool × Int :=
  (c.req.cgiType, c.req.pathname, c.sys.cgiPipe, c.sys.nonblock, c.sys.fork, c.sys.shprocPush)

theorem allocOk_spec (c : Conn) :
    value allocOk c = c.sys.mem.headD true ∧
      exec allocOk c = { c with sys := { c.sys with mem := c.sys.mem.tail } } := ⟨rfl, rfl⟩

theorem addCgiEnv_full (key val : Text) (b : Bool) (c : Conn)
    (h : ¬c.req.cgiEnvIndex < cgiEnvMax) :
    value (addCgiEnv key val b) c = false ∧ exec (addCgiEnv key val b) c = c := by
  simp only [addCgiEnv, value_bind, exec_bind, value_getReq, exec_getReq, if_neg h, value_pure,
    exec_pure, and_self]

theorem addCgiEnv_room (key val : Text) (b : Bool) (c : Conn)
    (h : c.req.cgiEnvIndex < cgiEnvMax) :
    value (addCgiEnv key val b) c = c.sys.mem.headD true ∧
      (exec (addCgiEnv key val b) c).launch = c.launch ∧
      (exec (addCgiEnv key val b) c).sys.mem = c.sys.mem.tail ∧
      (c.sys.mem.headD true = true →
        (exec (addCgiEnv key val b) c).req.cgiEnvIndex = c.req.cgiEnvIndex + 1) := by
  obtain ⟨hv, he⟩ := allocOk_spec c
  simp only [addCgiEnv, value_bind, exec_bind, value_getReq, exec_getReq, if_pos h, hv, he]
  cases c.sys.mem.headD true with
  | true => exact ⟨rfl, rfl, rfl, fun _ => rfl⟩
  | false => exact ⟨rfl, rfl, rfl, fun hne => absurd hne Bool.false_ne_true⟩

theorem varsFit_cons (r : Request) (mem : List Bool) (n : Nat) :
    varsFit r mem (n + 1) = (decide (r.cgiEnvIndex + 1 + n ≤ cgiEnvMax) && mem.headD true &&
      (mem.tail.take n).all id) := by
  unfold varsFit
  rw [show r.cgiEnvIndex + (n + 1) = r.cgiEnvIndex + 1 + n by omega, Bool.and_assoc]
  cases mem with
  | nil => simp
  | cons b bs => simp

theorem addCgiEnvs_fits (kvs : List (Text × Text)) (c : Conn)
    (h : c.req.cgiEnvIndex ≤ cgiEnvMax) :
    value (addCgiEnvs kvs) c = varsFit c.req c.sys.mem kvs.length ∧
      (exec (addCgiEnvs kvs) c).launch = c.launch := by
  induction kvs generalizing c with
  | nil => simp [addCgiEnvs, varsFit, h]
  | cons kv kvs ih =>
    obtain ⟨key, val⟩ := kv
    rw [List.length_cons, varsFit_cons]
    by_cases hroom : c.req.cgiEnvIndex < cgiEnvMax
    · obtain ⟨hv, hl, hm, hi⟩ := addCgiEnv_room key val false c hroom
      simp only [addCgiEnvs, value_bind, exec_bind, hv]
      cases hhead : c.sys.mem.headD true with
      | true =>
        obtain ⟨hrest, hlaunch⟩ := ih (exec (addCgiEnv key val false) c) (by rw [hi hhead]; omega)
        simp only [if_true, hrest, varsFit, hi hhead, hm, Bool.and_true, true_and]
        exact hlaunch.trans hl
      | false =>
        simp only [Bool.false_eq_true, if_false, value_pure, exec_pure, Bool.and_false,
          Bool.false_and, true_and]
        exact hl
    · obtain ⟨hv, he⟩ := addCgiEnv_full key val false c hroom
      have hfull : ¬c.req.cgiEnvIndex + 1 + kvs.length ≤ cgiEnvMax := by omega
      simp only [addCgiEnvs, value_bind, exec_bind, hv, he, Bool.false_eq_true, if_false,
        value_pure, exec_pure, hfull, decide_false, Bool.false_and, and_self]

/-- Whether `complete_env` gets all its variables in. -/
def Conn.envFits (e : Config) (c : Conn) : Bool :=
  varsFit c.req c.sys.mem (envEntries e c.req).length

theorem envEntries_ne (e : Config) (r : Request) : envEntries e r ≠ [] := by
  simp [envEntries]

/-- The start of the environment is shared by all requests. -/
def Conn.commonEnv (e : Config) (c : Conn) : Conn :=
  { c with req := { c.req with cgiEnv := fun i =>
    if i < e.commonCgiEnv.length then e.commonCgiEnv[i]? else c.req.cgiEnv i } }

theorem completeEnv_run (e : Config) (c : Conn) :
    value (completeEnv e) c = value (addCgiEnvs (envEntries e c.req)) (c.commonEnv e) ∧
      (exec (completeEnv e) c).launch =
        (exec (addCgiEnvs (envEntries e c.req)) (c.commonEnv e)).launch := by
  have hentries : envEntries e (c.commonEnv e).req = envEntries e c.req := rfl
  have hmod : ∀ {α : Type} (m : Srv α), exec (do
      modReq fun r => { r with cgiEnv := fun i =>
        if i < e.commonCgiEnv.length then e.commonCgiEnv[i]? else r.cgiEnv i }
      m) c = exec m (c.commonEnv e) := fun _ => rfl
  have hmod' : ∀ {α : Type} (m : Srv α), value (do
      modReq fun r => { r with cgiEnv := fun i =>
        if i < e.commonCgiEnv.length then e.commonCgiEnv[i]? else r.cgiEnv i }
      m) c = value m (c.commonEnv e) := fun _ => rfl
  rw [completeEnv, hmod, hmod']
  simp only [value_bind, exec_bind, value_getReq, exec_getReq, hentries]
  generalize exec (addCgiEnvs (envEntries e c.req)) (c.commonEnv e) = c'
  cases value (addCgiEnvs (envEntries e c.req)) (c.commonEnv e) with
  | true => exact ⟨rfl, rfl⟩
  | false => exact ⟨rfl, rfl⟩

theorem completeEnv_fits (e : Config) (c : Conn) :
    value (completeEnv e) c = c.envFits e ∧ (exec (completeEnv e) c).launch = c.launch := by
  obtain ⟨hvalue, hlaunch⟩ := completeEnv_run e c
  have hindex : (c.commonEnv e).req.cgiEnvIndex = c.req.cgiEnvIndex := rfl
  have hcommon : (c.commonEnv e).launch = c.launch := rfl
  rw [hvalue, hlaunch]
  by_cases hroom : c.req.cgiEnvIndex ≤ cgiEnvMax
  · obtain ⟨hv, hl⟩ := addCgiEnvs_fits (envEntries e c.req) (c.commonEnv e) (hindex ▸ hroom)
    exact ⟨hv, hl.trans hcommon⟩
  · obtain ⟨⟨key, val⟩, rest, hcons⟩ := List.exists_cons_of_ne_nil (envEntries_ne e c.req)
    have hfull : ¬(c.commonEnv e).req.cgiEnvIndex < cgiEnvMax := by omega
    obtain ⟨hv, he⟩ := addCgiEnv_full key val false (c.commonEnv e) hfull
    have hnot : ¬c.req.cgiEnvIndex + (envEntries e c.req).length ≤ cgiEnvMax := by omega
    rw [Conn.envFits, varsFit, decide_eq_false hnot, Bool.false_and, hcons]
    simp only [addCgiEnvs, value_bind, exec_bind, hv, he, Bool.false_eq_true, if_false,
      value_pure, exec_pure, true_and]
    exact hcommon

/-! Starting a program. -/

/-- The pipe is there, when one is wanted, and the fork succeeds. -/
def Conn.forks (c : Conn) : Bool :=
  (!c.req.usePipes || (c.sys.cgiPipe.isSome && c.sys.nonblock)) && c.sys.fork

theorem forkCgi_fails (e : Config) {c : Conn} (h : c.forks = false) :
    value (forkCgi e) c = 0 ∧ ∀ S, Passed S c (exec (forkCgi e) c) := by
  by_cases hp : (c.req.usePipes && c.sys.cgiPipe.isNone) = true
  · simp only [forkCgi, value_bind, exec_bind, value_get, exec_get, if_pos hp, value_pure,
      exec_pure, true_and]
    exact fun _ => .refl c
  by_cases hn : (c.req.usePipes && !c.sys.nonblock) = true
  · simp only [forkCgi, value_bind, exec_bind, value_get, exec_get, if_neg hp, if_pos hn,
      value_pure, exec_pure, true_and]
    exact fun _ => .refl c
  · have hf : (!c.sys.fork) = true := by
      rw [Conn.forks] at h
      cases hu : c.req.usePipes <;> cases hi : c.sys.cgiPipe <;> simp_all
    simp only [forkCgi, value_bind, exec_bind, value_get, exec_get, if_neg hp, if_neg hn,
      if_pos hf, value_pure, exec_pure, true_and]
    exact fun _ => (crotalusPerror_works (T := fun _ => True) e trivial c).passed

theorem forkCgi_run (e : Config) {c : Conn} (h : c.forks = true) :
    value (forkCgi e) c = value (cgiParent (c.sys.cgiPipe.getD 0)) (exec (mark .startCgi) c) ∧
      exec (forkCgi e) c =
        exec (cgiParent (c.sys.cgiPipe.getD 0)) (exec (mark .startCgi) c) := by
  rw [Conn.forks, Bool.and_eq_true, Bool.or_eq_true, Bool.and_eq_true] at h
  obtain ⟨hpipe, hf⟩ := h
  have hp : ¬(c.req.usePipes && c.sys.cgiPipe.isNone) = true := by
    cases hu : c.req.usePipes <;> cases hi : c.sys.cgiPipe <;> simp_all
  have hn : ¬(c.req.usePipes && !c.sys.nonblock) = true := by
    cases hu : c.req.usePipes <;> simp_all
  have hfork : ¬(!c.sys.fork) = true := by simp [hf]
  simp only [forkCgi, value_bind, exec_bind, value_get, exec_get, if_neg hp, if_neg hn,
    if_neg hfork, cgiStarted, and_self]

theorem forkCgi_starts (e : Config) {c : Conn} (h : c.forks = true) :
    value (forkCgi e) c = (if c.req.usePipes then 1 else 0) ∧
      ∃ v, (exec (forkCgi e) c).trace = c.trace ++ [v] ∧ v.site = .startCgi := by
  obtain ⟨hv, he⟩ := forkCgi_run e h
  rw [hv, he]
  let c1 := exec (modReq fun r => if r.method = .post then { r with postDataFd := 0 } else r)
    (exec (mark .startCgi) c)
  have hpipes : c1.req.usePipes = c.req.usePipes := by
    change (if c.req.method = .post then { c.req with postDataFd := 0 } else c.req).usePipes = _
    split <;> rfl
  have hstart : value (cgiParent (c.sys.cgiPipe.getD 0)) (exec (mark .startCgi) c) =
      if c.req.usePipes then 1 else 0 := by
    rw [← hpipes]
    simp only [cgiParent, value_bind, value_getReq, exec_getReq]
    cases c1.req.usePipes <;> rfl
  have hrest := (cgiParent_works (T := fun _ => True) (S := fun _ => False) trivial
    (c.sys.cgiPipe.getD 0) (exec (mark .startCgi) c)).passed.eq
  exact ⟨hstart, _, hrest, rfl⟩

theorem forks_congr {c c' : Conn} (h : c'.launch = c.launch) :
    c'.forks = c.forks ∧ c'.req.usePipes = c.req.usePipes := by
  simp only [Conn.launch, Prod.mk.injEq] at h
  obtain ⟨ht, hp, hpipe, hn, hf, -⟩ := h
  have hu : c'.req.usePipes = c.req.usePipes := by rw [Request.usePipes, Request.usePipes, ht, hp]
  exact ⟨by rw [Conn.forks, Conn.forks, hu, hpipe, hn, hf], hu⟩

/-! `init_cgi`: a job for a worker, a program, or nothing. -/

def Conn.worker (e : Config) (c : Conn) : Bool :=
  e.build.haveLibshare && (c.req.cgiType = .work || c.req.cgiType = .php)

def Conn.program (e : Config) (c : Conn) : Bool :=
  (c.req.cgiType = .unset || c.envFits e) && c.forks

theorem initCgi_worker (e : Config) {c : Conn} (h : c.worker e = true) :
    value (initCgi e) c = (if c.sys.shprocPush ≠ 0 then c.sys.shprocPush else 1) ∧
      ∃ v, (exec (initCgi e) c).trace = c.trace ++ [v] ∧ v.site = .pushWork := by
  have hrun : value (initCgi e) c = value (initWorkCgi e) (exec squashKa c) ∧
      exec (initCgi e) c = exec (initWorkCgi e) (exec squashKa c) := by
    have h' : (e.build.haveLibshare && ((exec squashKa c).req.cgiType = .work ||
        (exec squashKa c).req.cgiType = .php)) = true := h
    simp only [initCgi, value_bind, exec_bind, value_getReq, exec_getReq, if_pos h', and_self]
  obtain ⟨-, hl⟩ := completeEnv_fits e (exec squashKa c)
  have htrace := (completeEnv_works (T := fun _ => True) (S := fun _ => False) e
      (exec squashKa c)).passed.eq
  rw [hrun.1, hrun.2]
  simp only [initWorkCgi, value_bind, exec_bind, value_get, exec_get]
  generalize exec (completeEnv e) (exec squashKa c) = c' at hl htrace
  have hpush : (exec (mark .pushWork) c').sys.shprocPush = c.sys.shprocPush := by
    simp only [Conn.launch, Prod.mk.injEq] at hl
    exact hl.2.2.2.2.2
  have htrace' : (exec (mark .pushWork) c').trace = c.trace ++ [⟨.pushWork, c'.req, c'.sys⟩] := by
    change c'.trace ++ _ = _
    rw [htrace]
    rfl
  rw [hpush]
  by_cases hne : c.sys.shprocPush ≠ 0
  · simp only [if_pos hne, value_pure, exec_pure, true_and]
    exact ⟨_, htrace', rfl⟩
  · simp only [if_neg hne, value_bind, exec_bind, value_pure, exec_pure, true_and]
    exact ⟨_, htrace', rfl⟩

/-- Without a worker the request goes to `fork`, when its environment is complete. -/
theorem initCgi_forks (e : Config) {c : Conn} (h : c.worker e = false) :
    (value (initCgi e) c = 0 ∧ (exec (initCgi e) c).trace = c.trace ∧ c.program e = false) ∨
      ∃ c', c'.launch = c.launch ∧ c'.trace = c.trace ∧ c.program e = c.forks ∧
        value (initCgi e) c = value (forkCgi e) c' ∧ exec (initCgi e) c = exec (forkCgi e) c' := by
  have h' : ¬(e.build.haveLibshare && ((exec squashKa c).req.cgiType = .work ||
      (exec squashKa c).req.cgiType = .php)) = true := Bool.eq_false_iff.mp h
  by_cases ht : c.req.cgiType = .unset
  · have ht' : ¬(exec squashKa c).req.cgiType ≠ .unset := not_not.mpr ht
    right
    refine ⟨exec squashKa c, rfl, rfl, by simp [Conn.program, ht], ?_⟩
    simp only [initCgi, value_bind, exec_bind, value_getReq, exec_getReq, if_neg h', if_neg ht',
      and_self]
  · have ht' : (exec squashKa c).req.cgiType ≠ .unset := ht
    obtain ⟨hv, hl⟩ := completeEnv_fits e (exec squashKa c)
    have hv' : value (completeEnv e) (exec squashKa c) = c.envFits e := hv
    have htrace := (completeEnv_works (T := fun _ => True) (S := fun _ => False) e
      (exec squashKa c)).passed.eq
    simp only [initCgi, value_bind, exec_bind, value_getReq, exec_getReq, if_neg h', if_pos ht',
      hv', Conn.program, decide_eq_false ht, Bool.false_or]
    cases c.envFits e with
    | false => exact .inl ⟨rfl, htrace, rfl⟩
    | true => exact .inr ⟨_, hl, htrace, rfl, rfl, rfl⟩

theorem initCgi_fails (e : Config) {c : Conn} (h : c.worker e = false)
    (h' : c.program e = false) :
    value (initCgi e) c = 0 ∧ (exec (initCgi e) c).trace = c.trace := by
  rcases initCgi_forks e h with ⟨hv, ht, -⟩ | ⟨c', hl, ht, hp, hv, he⟩
  · exact ⟨hv, ht⟩
  · have hf : c'.forks = false := by rw [(forks_congr hl).1, ← hp, h']
    obtain ⟨hv', hpass⟩ := forkCgi_fails e hf
    exact ⟨hv.trans hv', he ▸ (hpass _).eq.trans ht⟩

theorem initCgi_starts (e : Config) {c : Conn} (h : c.worker e = false)
    (h' : c.program e = true) :
    value (initCgi e) c = (if c.req.usePipes then 1 else 0) ∧
      ∃ v, (exec (initCgi e) c).trace = c.trace ++ [v] ∧ v.site = .startCgi := by
  rcases initCgi_forks e h with ⟨-, -, hp⟩ | ⟨c', hl, ht, hp, hv, he⟩
  · rw [h'] at hp
    cases hp
  · obtain ⟨hforks, hu⟩ := forks_congr hl
    obtain ⟨hv', v, ht', hs⟩ := forkCgi_starts e (hforks.trans (hp.symm.trans h'))
    exact ⟨by rw [hv, hv', hu], v, by rw [he, ht', ht], hs⟩

end Crotalus
