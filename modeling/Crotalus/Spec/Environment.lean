import Crotalus.Framework.NullArray
import Crotalus.Spec.Cgi
import Mathlib.Tactic.Common

namespace Crotalus

open Stateful

/-! The environment of a program. -/

/-- The environment as `execve` reads it: up to the first NULL. -/
def Request.envp (r : Request) : List Text := NullArray.entries r.cgiEnv (cgiEnvMax+4) 0

/-- Behind `n` common variables the request has put `own`. -/
def EnvVars (n : Nat) (r : Request) (own : List Text) : Prop :=
  r.cgiEnvIndex=n+own.length ∧ NullArray.Holds r.cgiEnv n own

/-- `process_logline` sets the index to the number of common variables. -/
theorem envVars_start {n : Nat} {r : Request} (h : r.cgiEnvIndex=n) : EnvVars n r [] :=
  ⟨h,.nil _ _⟩

def envString (httpPrefix : Bool) (key value : Text) : Text :=
  (if httpPrefix then str "HTTP_" else [])++key++[61]++value

theorem addCgiEnv_true {key val : Text} {b : Bool} {c : Conn}
    (h : value (addCgiEnv key val b) c=true) :
    c.req.cgiEnvIndex < cgiEnvMax ∧ (exec (addCgiEnv key val b) c).req={ c.req with
      cgiEnv := NullArray.put c.req.cgiEnv c.req.cgiEnvIndex (some (envString b key val))
      cgiEnvIndex := c.req.cgiEnvIndex+1 } := by
  by_cases hroom : c.req.cgiEnvIndex < cgiEnvMax
  · have hmem : c.sys.mem.headD true=true := (addCgiEnv_room key val b c hroom).1.symm.trans h
    obtain ⟨hv,he⟩ := allocOk_spec c
    refine ⟨hroom,?_⟩
    simp only [addCgiEnv,exec_bind,value_getReq,exec_getReq,if_pos hroom,hv,he,hmem,if_true]
    rfl
  · exact absurd h (by rw [(addCgiEnv_full key val b c hroom).1]; exact Bool.false_ne_true)

theorem addCgiEnv_false {key val : Text} {b : Bool} {c : Conn}
    (h : value (addCgiEnv key val b) c=false) : (exec (addCgiEnv key val b) c).req=c.req := by
  by_cases hroom : c.req.cgiEnvIndex < cgiEnvMax
  · have hmem : c.sys.mem.headD true=false := (addCgiEnv_room key val b c hroom).1.symm.trans h
    obtain ⟨hv,he⟩ := allocOk_spec c
    simp only [addCgiEnv,exec_bind,value_getReq,exec_getReq,if_pos hroom,hv,he,hmem,
      Bool.false_eq_true,if_false]
    rfl
  · rw [(addCgiEnv_full key val b c hroom).2]

theorem EnvVars.addCgiEnv {n : Nat} {key val : Text} {b : Bool} {c : Conn} {own : List Text}
    (hvars : EnvVars n c.req own) (h : value (addCgiEnv key val b) c=true) :
    EnvVars n (exec (addCgiEnv key val b) c).req (own++[envString b key val]) := by
  obtain ⟨-,hreq⟩ := addCgiEnv_true h
  rw [hreq]
  constructor
  · rw [List.length_append,List.length_singleton,← Nat.add_assoc,← hvars.1]
  · have hput := hvars.2.put (envString b key val)
    rw [← hvars.1] at hput
    exact hput

/-- The text of each variable of `complete_env`. -/
def entryText (kv : Text × Text) : Text := envString false kv.1 kv.2

/-- However far they get, the variables stand behind one another in their order. -/
theorem addCgiEnvs_part (kvs : List (Text × Text)) {n : Nat} {c : Conn} {own : List Text}
    (hvars : EnvVars n c.req own) :
    ∃ k,(value (addCgiEnvs kvs) c=true → k=kvs.length) ∧
      EnvVars n (exec (addCgiEnvs kvs) c).req (own++(kvs.take k).map entryText) ∧
      (c.req.cgiEnvIndex ≤ cgiEnvMax → (exec (addCgiEnvs kvs) c).req.cgiEnvIndex ≤ cgiEnvMax) ∧
      ∀ i,i < n → (exec (addCgiEnvs kvs) c).req.cgiEnv i=c.req.cgiEnv i := by
  induction kvs generalizing c own with
  | nil => exact ⟨0,fun _ => rfl,by simpa [addCgiEnvs] using hvars,id,fun _ _ => rfl⟩
  | cons kv kvs ih =>
    obtain ⟨key,val⟩ := kv
    cases hfirst : value (addCgiEnv key val false) c with
    | false =>
      have hstop : value (addCgiEnvs ((key,val)::kvs)) c=false ∧
          (exec (addCgiEnvs ((key,val)::kvs)) c).req=c.req := by
        simp only [addCgiEnvs,value_bind,exec_bind,hfirst,Bool.false_eq_true,if_false,value_pure,
          exec_pure,addCgiEnv_false hfirst,and_self]
      rw [hstop.1,hstop.2]
      refine ⟨0,fun h => (by cases h),?_,id,fun _ _ => rfl⟩
      rwa [List.take_zero,List.map_nil,List.append_nil]
    | true =>
      simp only [addCgiEnvs,value_bind,exec_bind,hfirst,if_true]
      obtain ⟨hlt,hreq⟩ := addCgiEnv_true hfirst
      have hindex : (exec (addCgiEnv key val false) c).req.cgiEnvIndex ≤ cgiEnvMax := by
        rw [hreq]
        exact hlt
      obtain ⟨k,hall,hown,hle,hkept⟩ := ih (hvars.addCgiEnv hfirst)
      refine ⟨k+1,fun h => congrArg (·+1) (hall h),?_,fun _ => hle hindex,?_⟩
      · rw [List.take_succ_cons,List.map_cons,entryText]
        rw [List.append_assoc] at hown
        exact hown
      · intro i hi
        have hne : i≠c.req.cgiEnvIndex := by have := hvars.1; omega
        rw [hkept i hi,hreq]
        exact NullArray.put_other hne

/-- How `complete_env` ends when all its variables are in. -/
theorem completeEnv_exec {e : Config} {c : Conn} (h : value (completeEnv e) c=true) :
    (exec (completeEnv e) c).req=
      { (exec (addCgiEnvs (envEntries e c.req)) (c.commonEnv e)).req with
        cgiEnv := NullArray.put
          (exec (addCgiEnvs (envEntries e c.req)) (c.commonEnv e)).req.cgiEnv
          (exec (addCgiEnvs (envEntries e c.req)) (c.commonEnv e)).req.cgiEnvIndex none } := by
  obtain ⟨hvalue,-⟩ := completeEnv_run e c
  rw [h] at hvalue
  have hentries : envEntries e (c.commonEnv e).req=envEntries e c.req := rfl
  have hmod : ∀ {α : Type} (m : Srv α), exec (do
      modReq fun r => { r with cgiEnv := fun i =>
        if i<e.commonCgiEnv.length then e.commonCgiEnv[i]? else r.cgiEnv i }
      m) c=exec m (c.commonEnv e) := fun _ => rfl
  rw [completeEnv,hmod]
  simp only [exec_bind,value_getReq,exec_getReq,hentries,← hvalue,if_true]
  rfl

/-- Where `complete_env` gives up it leaves what it had added. -/
theorem completeEnv_failed {e : Config} {c : Conn} (h : value (completeEnv e) c=false) :
    (exec (completeEnv e) c).req=
      (exec (addCgiEnvs (envEntries e c.req)) (c.commonEnv e)).req := by
  obtain ⟨hvalue,-⟩ := completeEnv_run e c
  rw [h] at hvalue
  have hentries : envEntries e (c.commonEnv e).req=envEntries e c.req := rfl
  have hmod : ∀ {α : Type} (m : Srv α), exec (do
      modReq fun r => { r with cgiEnv := fun i =>
        if i<e.commonCgiEnv.length then e.commonCgiEnv[i]? else r.cgiEnv i }
      m) c=exec m (c.commonEnv e) := fun _ => rfl
  rw [completeEnv,hmod]
  simp only [exec_bind,value_getReq,exec_getReq,hentries,← hvalue,Bool.false_eq_true,if_false]
  rfl

/-- The array that `complete_env` fills for a request whose line was read with the same common
variables: those, what the header added, and the further ones as far as it gets. -/
theorem completeEnv_array {e : Config} {c : Conn} {own : List Text}
    (hvars : EnvVars e.commonCgiEnv.length c.req own) :
    ∃ k,(value (completeEnv e) c=true → k=(envEntries e c.req).length) ∧
      EnvVars 0 (exec (completeEnv e) c).req
        (e.commonCgiEnv++own++((envEntries e c.req).take k).map entryText) := by
  have hstart : EnvVars e.commonCgiEnv.length (c.commonEnv e).req own :=
    ⟨hvars.1,hvars.2.copy (Nat.le_refl _)⟩
  have hcommon : NullArray.Holds (c.commonEnv e).req.cgiEnv 0 e.commonCgiEnv :=
    NullArray.holds_copy _ _
  obtain ⟨k,hall,hown,-,hkept⟩ := addCgiEnvs_part (envEntries e c.req) hstart
  have hvalue := (completeEnv_run e c).1
  have harray : EnvVars 0 (exec (addCgiEnvs (envEntries e c.req)) (c.commonEnv e)).req
      (e.commonCgiEnv++(own++((envEntries e c.req).take k).map entryText)) := by
    refine ⟨?_,NullArray.Holds.append ?_ ?_⟩
    · rw [hown.1,Nat.zero_add]
      simp only [List.length_append]
    · intro j hj
      rw [Nat.zero_add,hkept j hj,← hcommon j hj,Nat.zero_add]
    · rw [Nat.zero_add]
      exact hown.2
  refine ⟨k,fun h => hall (hvalue.symm.trans h),?_⟩
  rw [List.append_assoc]
  cases h : value (completeEnv e) c with
  | false =>
    rw [completeEnv_failed h]
    exact harray
  | true =>
    rw [completeEnv_exec h]
    exact ⟨harray.1,harray.2.put_outside (.inr (Nat.le_of_eq harray.1.symm))⟩

/-- When it succeeds, the array has room for its end. -/
theorem completeEnv_ends {e : Config} {c : Conn} {own : List Text}
    (hvars : EnvVars e.commonCgiEnv.length c.req own) (h : value (completeEnv e) c=true) :
    (exec (completeEnv e) c).req.cgiEnvIndex ≤ cgiEnvMax ∧
      (exec (completeEnv e) c).req.cgiEnv (exec (completeEnv e) c).req.cgiEnvIndex=none := by
  have hstart : EnvVars e.commonCgiEnv.length (c.commonEnv e).req own :=
    ⟨hvars.1,hvars.2.copy (Nat.le_refl _)⟩
  have hvalue := (completeEnv_run e c).1
  rw [h] at hvalue
  have hroom : (c.commonEnv e).req.cgiEnvIndex ≤ cgiEnvMax := by
    by_contra hfull
    obtain ⟨⟨key,val⟩,rest,hcons⟩ := List.exists_cons_of_ne_nil (envEntries_ne e c.req)
    obtain ⟨hv,-⟩ := addCgiEnv_full key val false (c.commonEnv e) (by omega)
    rw [hcons] at hvalue
    simp only [addCgiEnvs,value_bind,hv,Bool.false_eq_true,if_false,value_pure] at hvalue
    exact absurd hvalue.symm Bool.false_ne_true
  obtain ⟨k,-,-,hle,-⟩ := addCgiEnvs_part (envEntries e c.req) hstart
  rw [completeEnv_exec h]
  exact ⟨hle hroom,NullArray.put_same _ _ _⟩

/-- The environment that `complete_env` builds. -/
theorem completeEnv_envp {e : Config} {c : Conn} {own : List Text}
    (hvars : EnvVars e.commonCgiEnv.length c.req own) (h : value (completeEnv e) c=true) :
    (exec (completeEnv e) c).req.envp=
      e.commonCgiEnv++own++(envEntries e c.req).map entryText := by
  obtain ⟨k,hall,hindex,hholds⟩ := completeEnv_array hvars
  obtain ⟨hle,hend⟩ := completeEnv_ends hvars h
  rw [hall h,List.take_length] at hindex hholds
  rw [hindex] at hle hend
  rw [Request.envp]
  apply NullArray.Holds.entries hholds hend
  omega

end Crotalus
