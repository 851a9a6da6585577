import Crotalus.Server.CgiEnv
import Crotalus.Spec.Config
import Crotalus.Spec.Environment
import Mathlib.Tactic.Common

namespace Crotalus

open Stateful

/-! The strings show the arrays that the server's own functions work on. -/

/-- The entries of the request are the texts of the strings, up to the same index. -/
def Shows (r : Request) (q : EnvRequest) : Prop :=
  r.cgiEnvIndex=q.cgiEnvIndex ∧ ∀ i,r.cgiEnv i=(q.cgiEnv i).map EnvString.text

theorem shows_put {r : Request} {q : EnvRequest} (h : Shows r q) (i : Nat)
    (s : Option EnvString) (j : Nat) : NullArray.put r.cgiEnv i (s.map EnvString.text) j=
      (NullArray.put q.cgiEnv i s j).map EnvString.text := by
  by_cases hj : j=i
  · rw [hj,NullArray.put_same,NullArray.put_same]
  · rw [NullArray.put_other hj,NullArray.put_other hj,h.2 j]

theorem addCgiEnv_shows {w : EnvServer} {k : Nat} {c : Conn} (h : Shows c.req (w.reqs k))
    (key val : Text) (b : Bool) :
    Shows (exec (addCgiEnv key val b) c).req
        ((w.addCgiEnv k (envString b key val) (c.sys.mem.headD true)).1.reqs k) ∧
      value (addCgiEnv key val b) c=
        (w.addCgiEnv k (envString b key val) (c.sys.mem.headD true)).2 := by
  unfold EnvServer.addCgiEnv
  dsimp only
  by_cases hroom : c.req.cgiEnvIndex < cgiEnvMax
  · obtain ⟨hv,he⟩ := allocOk_spec c
    have hlt : (w.reqs k).cgiEnvIndex < cgiEnvMax := by
      rw [← h.1]
      exact hroom
    rw [decide_eq_true hlt]
    cases hmem : c.sys.mem.headD true with
    | true =>
      have hvalue := (addCgiEnv_room key val b c hroom).1.trans hmem
      obtain ⟨-,hreq⟩ := addCgiEnv_true hvalue
      simp only [Bool.and_self,if_true]
      refine ⟨?_,hvalue⟩
      rw [hreq]
      simp only [EnvServer.touch,EnvServer.setReq,if_true]
      refine ⟨congrArg (·+1) h.1,fun j => ?_⟩
      have hput := shows_put h c.req.cgiEnvIndex
        (some (⟨w.allocs,some k,envString b key val⟩ : EnvString)) j
      rw [← h.1]
      exact hput
    | false =>
      simp only [Bool.and_false,Bool.false_eq_true,if_false]
      refine ⟨?_,(addCgiEnv_room key val b c hroom).1.trans hmem⟩
      simp only [addCgiEnv,exec_bind,value_getReq,exec_getReq,if_pos hroom,hv,he,hmem,
        Bool.false_eq_true,if_false,exec_pure]
      exact h
  · have hfull : ¬(w.reqs k).cgiEnvIndex < cgiEnvMax := by
      rw [← h.1]
      exact hroom
    obtain ⟨hv,he⟩ := addCgiEnv_full key val b c hroom
    rw [decide_eq_false hfull]
    simp only [Bool.false_and,Bool.false_eq_true,if_false]
    rw [he]
    exact ⟨h,hv⟩

/-- The texts with the results of their allocations. -/
def withResults : List Bool → List Text → List (Text × Bool)
  | _,[] => []
  | mem,t::ts => (t,mem.headD true)::withResults mem.tail ts

theorem addCgiEnvs_shows {w : EnvServer} {k : Nat} {c : Conn} (h : Shows c.req (w.reqs k))
    (kvs : List (Text × Text)) :
    Shows (exec (addCgiEnvs kvs) c).req
        ((w.addCgiEnvs k (withResults c.sys.mem (kvs.map entryText))).1.reqs k) ∧
      value (addCgiEnvs kvs) c=
        (w.addCgiEnvs k (withResults c.sys.mem (kvs.map entryText))).2 := by
  induction kvs generalizing w c with
  | nil => exact ⟨h,rfl⟩
  | cons kv kvs ih =>
    obtain ⟨key,val⟩ := kv
    obtain ⟨hshows,hvalue⟩ := addCgiEnv_shows h key val false
    simp only [addCgiEnvs,exec_bind,value_bind,List.map_cons,withResults,EnvServer.addCgiEnvs,
      entryText]
    rw [← hvalue]
    cases hadded : value (addCgiEnv key val false) c with
    | false =>
      simp only [Bool.false_eq_true,if_false,exec_pure,value_pure,and_true]
      exact hshows
    | true =>
      obtain ⟨hroom,-⟩ := addCgiEnv_true hadded
      have hmem : (exec (addCgiEnv key val false) c).sys.mem=c.sys.mem.tail :=
        (addCgiEnv_room key val false c hroom).2.2.1
      simp only [if_true]
      rw [← hmem]
      exact ih hshows

theorem copyCommon_shows {w : EnvServer} {k : Nat} {c : Conn} {e : Config}
    (h : Shows c.req (w.reqs k)) (hcommon : e.commonCgiEnv=w.common.map EnvString.text) :
    Shows (c.commonEnv e).req ((w.copyCommon k).reqs k) := by
  have hreq : (w.copyCommon k).reqs k={ w.reqs k with
    cgiEnv := NullArray.copy w.common (w.reqs k).cgiEnv } := if_pos rfl
  rw [hreq]
  refine ⟨h.1,fun i => ?_⟩
  simp only [Conn.commonEnv,NullArray.copy,hcommon,List.length_map,List.getElem?_map]
  split_ifs
  · rfl
  · exact h.2 i

theorem addCgiEnvs_top {kvs : List (Text × Text)} {c : Conn} (hkvs : kvs≠[])
    (h : value (addCgiEnvs kvs) c=true) :
    (exec (addCgiEnvs kvs) c).req.cgiEnvIndex ≤ cgiEnvMax := by
  induction kvs generalizing c with
  | nil => exact absurd rfl hkvs
  | cons kv kvs ih =>
    obtain ⟨key,val⟩ := kv
    cases hadded : value (addCgiEnv key val false) c with
    | false =>
      simp only [addCgiEnvs,value_bind,hadded,Bool.false_eq_true,if_false,value_pure] at h
    | true =>
      obtain ⟨hroom,hreq⟩ := addCgiEnv_true hadded
      simp only [addCgiEnvs,value_bind,exec_bind,hadded,if_true] at h ⊢
      cases kvs with
      | nil =>
        change (exec (addCgiEnv key val false) c).req.cgiEnvIndex ≤ cgiEnvMax
        rw [hreq]
        exact hroom
      | cons kv' kvs => exact ih (List.cons_ne_nil _ _) h

/-- `complete_env` on the strings and on the texts. -/
theorem completeEnv_shows {w : EnvServer} {k : Nat} {c : Conn} {e : Config}
    (h : Shows c.req (w.reqs k)) (hcommon : e.commonCgiEnv=w.common.map EnvString.text)
    (hdone : value (completeEnv e) c=true) :
    Shows (exec (completeEnv e) c).req
      ((w.completeEnv k (withResults c.sys.mem ((envEntries e c.req).map entryText))).reqs k) := by
  obtain ⟨hshows,hvalue⟩ := addCgiEnvs_shows (copyCommon_shows h hcommon) (envEntries e c.req)
  have hrun := (completeEnv_run e c).1
  have hmem : (c.commonEnv e).sys.mem=c.sys.mem := rfl
  have hexec := completeEnv_exec hdone
  rw [hmem] at hshows hvalue
  rw [hdone] at hrun
  rw [← hrun] at hvalue
  unfold EnvServer.completeEnv
  dsimp only
  rw [← hvalue,if_pos rfl,hexec]
  have htop := addCgiEnvs_top (envEntries_ne e c.req) hrun.symm
  generalize exec (addCgiEnvs (envEntries e c.req)) (c.commonEnv e)=c' at hshows htop
  unfold EnvServer.terminate
  dsimp only
  split_ifs with hroom
  · change Shows _ ((EnvServer.setReq _ k _).reqs k)
    simp only [EnvServer.setReq,if_true]
    refine ⟨hshows.1,fun j => ?_⟩
    rw [← hshows.1]
    exact shows_put hshows _ none j
  · exact absurd (hshows.1 ▸ Nat.lt_succ_of_le htop) hroom

/-! The common variables of the settings. -/

theorem addToCommonEnv_texts {w : EnvServer} (hexit : w.exited=false) (text : Text) :
    (w.addToCommonEnv text).common.map EnvString.text=w.common.map EnvString.text++[text] ∧
      (w.common.length < cgiEnvMax → (w.addToCommonEnv text).exited=false) := by
  unfold EnvServer.addToCommonEnv
  rw [hexit]
  constructor
  · simp
  · intro hroom
    simp only [Bool.false_eq_true,if_false,List.length_append,List.length_singleton]
    exact decide_eq_false (by omega)

theorem foldl_addToCommonEnv {texts : List Text} {w : EnvServer} (hexit : w.exited=false)
    (hroom : w.common.length+texts.length ≤ cgiEnvMax) :
    (texts.foldl EnvServer.addToCommonEnv w).common.map EnvString.text=
      w.common.map EnvString.text++texts := by
  induction texts generalizing w with
  | nil => exact (List.append_nil _).symm
  | cons text texts ih =>
    rw [List.length_cons] at hroom
    obtain ⟨htexts,hnext⟩ := addToCommonEnv_texts hexit text
    have hlen := congrArg List.length htexts
    rw [List.length_map,List.length_append,List.length_map,List.length_singleton] at hlen
    rw [List.foldl_cons,ih (hnext (by omega)) (by omega),htexts,List.append_assoc]
    rfl

/-- A reload of the server is a reload of the strings. -/
theorem reload_shows {w : EnvServer} {h : Host} {file : Text} {s s' : Settings}
    (hexit : w.exited=false) (hcommon : s.commonCgiEnv=w.common.map EnvString.text)
    (hread : sighupRun h file s=some s') : ∃ texts,texts≠[] ∧
      (w.step (.reload texts)).common.map EnvString.text=s'.commonCgiEnv := by
  obtain ⟨path,hpath⟩ := readConfigFiles_env hread
  have hroom := readConfigFiles_room hread
  refine ⟨pathPref path::configuredEnv h file,List.cons_ne_nil _ _,?_⟩
  have hpath : s'.commonCgiEnv=s.commonCgiEnv++pathPref path::configuredEnv h file := hpath
  have hlen := congrArg List.length hpath
  rw [hcommon,List.length_append,List.length_map] at hlen
  rw [hpath,hcommon]
  exact foldl_addToCommonEnv hexit (by omega)

end Crotalus
