import Crotalus.Framework.Run
import Crotalus.Server.Pref
import Crotalus.Spec.Strings

namespace Crotalus

/-! Runs of calls that set preferences and read them. -/

inductive PrefCall where
  | set (now : Int) (token value : Text)
  | resetStamp (now : Int)
  | access (p : CrPref)

/-- The state with what has been asked for so far. -/
structure PrefRun where
  prefs : Prefs := {}
  asked : List (Text × Text) := []

def PrefRun.step (r : PrefRun) : PrefCall → PrefRun
  | .set now token value => ⟨(r.prefs.crPrefSet now token value).2,r.asked++[(token,value)]⟩
  | .resetStamp now => { r with prefs := r.prefs.resetPrefStamp now }
  | .access p => { r with prefs := (r.prefs.access p).2 }

/-- The value of the latest call for the token, or the built-in one. -/
def latest (asked : List (Text × Text)) (token : Text) : Text :=
  (hashFind asked.reverse token).getD (crPrefDefault token)

/-- The preferences are a map, and each accessor returns what the map holds. -/
structure PrefRun.Coherent (r : PrefRun) : Prop where
  gets : ∀ token,r.prefs.crPrefGet token=latest r.asked token
  accesses : ∀ p,(r.prefs.access p).1=some (r.prefs.crPrefGet p.token)

/-- Of the values that accessors keep, those that differ from `values` have another stamp. -/
def Prefs.Tells (s : Prefs) (values : CrPref → Text) (stamp : Int) : Prop :=
  ∀ p kept,(s.statics p).retStr=some kept → kept≠values p → (s.statics p).retStamp≠stamp

def Prefs.values (s : Prefs) (p : CrPref) : Text := s.crPrefGet p.token

/-- The preferences once a token has its value. -/
def Prefs.valuesWith (s : Prefs) (token value : Text) (p : CrPref) : Text :=
  if p.token=token then value else s.values p

/-- The condition: a preference is set once, and the stamp of the settings is not that of an
outdated value. -/
def PrefRun.Admits (r : PrefRun) : PrefCall → Prop
  | .set now token value => token≠[] ∧ value≠[] ∧
      (∀ v,hashFind r.prefs.prefHashtable token=some v → v=value) ∧
      r.prefs.Tells (r.prefs.valuesWith token value) now
  | .resetStamp now => r.prefs.Tells r.prefs.values now
  | .access .docroot => r.prefs.rereads .docroot →
      ∀ p,p≠.docroot → ∀ kept,(r.prefs.statics p).retStr=some kept → kept≠r.prefs.values p →
        (r.prefs.statics p).retStamp≠(r.prefs.statics .docroot).retStamp
  | .access _ => True

/-! The table. -/

/-- An insertion that contradicts no entry sets the value of its key. -/
theorem hashInsert_sets {table : List (Text × Text)} {token value : Text} (ht : token≠[])
    (hv : value≠[]) (hsame : ∀ v,hashFind table token=some v → v=value) :
    ∃ table',hashInsert table token value=some table' ∧
      ∀ k,hashFind table' k=if token=k then some value else hashFind table k := by
  rw [hashInsert,if_neg (by simp [ht,hv])]
  cases hfind : hashFind table token with
  | some v =>
    refine ⟨table,rfl,fun k => ?_⟩
    split
    · rename_i hk
      rw [← hk,hfind,hsame v hfind]
    · rfl
  | none =>
    refine ⟨table++[(token,value)],rfl,fun k => ?_⟩
    rw [hashFind_append,hashFind_cons]
    split
    · rename_i hk
      rw [← hk,hfind]
      rfl
    · exact Option.or_none

theorem latest_append (asked : List (Text × Text)) (token value k : Text) :
    latest (asked++[(token,value)]) k=if token=k then value else latest asked k := by
  rw [latest,List.reverse_append,List.reverse_singleton,List.singleton_append,hashFind_cons]
  split
  · rfl
  · rfl

/-! One accessor. -/

/-- Either the value that is kept is returned, or the preference is read and kept, with a
stamp that the settings have from then on. -/
theorem access_cases (s : Prefs) (p : CrPref) :
    ¬s.rereads p ∧ s.access p=(notEmpty ((s.statics p).retStr.getD []),s) ∨
    s.rereads p ∧ ∃ stamp,stamp=(if p=.docroot then (s.statics p).retStamp else s.prefStamp) ∧
      s.access p=(notEmpty (s.values p),{ s with
        statics := Function.update s.statics p ⟨stamp,some (s.values p)⟩
        prefStamp := stamp }) := by
  by_cases hr : s.rereads p
  · refine .inr ⟨hr,_,rfl,?_⟩
    cases p with
    | docroot =>
      rw [Prefs.access,Prefs.crprefDocroot,if_pos hr]
      rfl
    | userdir =>
      rw [Prefs.access,Prefs.crprefUserdir,Prefs.crpref,if_pos hr]
      rfl
    | dirindex =>
      rw [Prefs.access,Prefs.crprefDirindex,Prefs.crpref,if_pos hr]
      rfl
    | cachedir =>
      rw [Prefs.access,Prefs.crprefCachedir,Prefs.crpref,if_pos hr]
      rfl
  · refine .inl ⟨hr,?_⟩
    cases p with
    | docroot => rw [Prefs.access,Prefs.crprefDocroot,if_neg hr]
    | userdir => rw [Prefs.access,Prefs.crprefUserdir,Prefs.crpref,if_neg hr]
    | dirindex => rw [Prefs.access,Prefs.crprefDirindex,Prefs.crpref,if_neg hr]
    | cachedir => rw [Prefs.access,Prefs.crprefCachedir,Prefs.crpref,if_neg hr]

/-! The run. -/

structure PrefRun.Inv (r : PrefRun) : Prop where
  gets : ∀ token,r.prefs.crPrefGet token=latest r.asked token
  filled : ∀ token v,hashFind r.prefs.prefHashtable token=some v → v≠[]
  tells : r.prefs.Tells r.prefs.values r.prefs.prefStamp

theorem values_ne {s : Prefs} (h : ∀ token v,hashFind s.prefHashtable token=some v → v≠[])
    (p : CrPref) : s.values p≠[] := by
  have htoken : p.token≠[] := by cases p <;> decide
  have hdefault : crPrefDefault p.token≠[] := by cases p <;> decide
  rw [Prefs.values,Prefs.crPrefGet,if_neg htoken]
  cases hfind : hashFind s.prefHashtable p.token with
  | none => exact hdefault
  | some v => exact h _ v hfind

theorem PrefRun.Inv.coherent {r : PrefRun} (h : r.Inv) : r.Coherent where
  gets := h.gets
  accesses p := by
    have hread : notEmpty (r.prefs.values p)=some (r.prefs.values p) :=
      if_neg (values_ne h.filled p)
    rcases access_cases r.prefs p with ⟨hr,heq⟩|⟨-,stamp,-,heq⟩
    · rw [heq]
      rw [Prefs.rereads,not_or,not_not] at hr
      obtain ⟨kept,hkept⟩ := Option.ne_none_iff_exists'.mp hr.2
      have hnow : kept=r.prefs.values p := by
        by_contra hne
        exact h.tells p kept hkept hne hr.1
      rw [hkept,Option.getD_some,hnow]
      exact hread
    · rw [heq]
      exact hread

theorem crPrefSet_inv {r : PrefRun} {now : Int} {token value : Text} (h : r.Inv)
    (hok : r.Admits (.set now token value)) : (r.step (.set now token value)).Inv := by
  obtain ⟨ht,hv,hsame,htells⟩ := hok
  obtain ⟨table,hinsert,hfind⟩ := hashInsert_sets ht hv hsame
  have hset : (r.prefs.crPrefSet now token value).2=
      { r.prefs with prefHashtable := table, prefStamp := now } := by
    rw [Prefs.crPrefSet,if_neg hv,hinsert]
  have hget : ∀ k,(r.prefs.crPrefSet now token value).2.crPrefGet k=
      if token=k then value else r.prefs.crPrefGet k := by
    intro k
    rw [hset,Prefs.crPrefGet,Prefs.crPrefGet]
    by_cases hk : k=[]
    · subst hk
      rw [if_pos rfl,if_pos rfl,if_neg ht]
    · rw [if_neg hk,if_neg hk]
      dsimp only
      rw [hfind]
      split
      · rfl
      · rfl
  refine ⟨fun k => ?_,fun k v hkv => ?_,?_⟩
  · rw [show (r.step (.set now token value)).asked=r.asked++[(token,value)] from rfl,
      latest_append,← h.gets]
    exact hget k
  · change hashFind (r.prefs.crPrefSet now token value).2.prefHashtable k=some v at hkv
    rw [hset] at hkv
    dsimp only at hkv
    rw [hfind] at hkv
    split at hkv
    · rw [← Option.some.inj hkv]
      exact hv
    · exact h.filled k v hkv
  · intro p kept hkept hne
    change (((r.prefs.crPrefSet now token value).2.statics p).retStr)=some kept at hkept
    change kept≠(r.prefs.crPrefSet now token value).2.crPrefGet p.token at hne
    change ((r.prefs.crPrefSet now token value).2.statics p).retStamp≠
      (r.prefs.crPrefSet now token value).2.prefStamp
    rw [hget] at hne
    rw [hset] at hkept ⊢
    refine htells p kept hkept fun heq => hne ?_
    rw [heq,Prefs.valuesWith]
    by_cases htok : p.token=token
    · rw [if_pos htok,if_pos htok.symm]
    · rw [if_neg htok,if_neg (Ne.symm htok)]
      rfl

theorem access_inv {r : PrefRun} {p : CrPref} (h : r.Inv) (hok : r.Admits (.access p)) :
    (r.step (.access p)).Inv := by
  rcases access_cases r.prefs p with ⟨-,heq⟩|⟨hr,stamp,hstamp,heq⟩
  · have hsame : r.step (.access p)=r := by
      rw [PrefRun.step,heq]
    rw [hsame]
    exact h
  · have hstep : r.step (.access p)=⟨{ r.prefs with
        statics := Function.update r.prefs.statics p ⟨stamp,some (r.prefs.values p)⟩
        prefStamp := stamp },r.asked⟩ := by
      rw [PrefRun.step,heq]
    rw [hstep]
    refine ⟨h.gets,h.filled,fun q kept hkept hne => ?_⟩
    by_cases hq : q=p
    · -- what is read now is the preference
      subst hq
      dsimp only at hkept
      rw [Function.update_self] at hkept
      exact absurd (Option.some.inj hkept).symm hne
    · dsimp only at hkept ⊢
      rw [Function.update_of_ne hq] at hkept ⊢
      rw [hstamp]
      split
      · rename_i hp
        subst hp
        exact hok hr q hq kept hkept hne
      · exact h.tells q kept hkept hne

theorem PrefRun.step_inv (r : PrefRun) (call : PrefCall) (h : r.Inv) (hok : r.Admits call) :
    (r.step call).Inv := by
  cases call with
  | set now token value => exact crPrefSet_inv h hok
  | resetStamp now => exact ⟨h.gets,h.filled,hok⟩
  | access p => exact access_inv h hok

theorem PrefRun.start_inv : ({} : PrefRun).Inv where
  gets token := by
    change (if token=[] then [] else crPrefDefault token)=crPrefDefault token
    split
    · rename_i h
      rw [h]
      decide
    · rfl
  filled token v h := by cases h
  tells p kept h := by cases h

/-- Whatever calls come, a run that sets each preference once and never stamps the settings
with the stamp of an outdated value reads back what was set, in each of its states. -/
theorem prefs_coherent (calls : List PrefCall)
    (hok : Run.AllSteps PrefRun.step PrefRun.Admits {} calls) :
    ∀ r∈Run.states PrefRun.step {} calls,r.Coherent :=
  fun r hr => (Run.invariant PrefRun.step_inv PrefRun.start_inv hok r hr).coherent

/-- The two reads of one accessor around a call that sets its preference. -/
def readTwice (now : Int) : List PrefCall :=
  [.set 5 (str "Port") (str "81"),.access .userdir,.set now (str "UserDir") (str "web"),
    .access .userdir]

theorem prefs_coherent_readTwice : (Run.final PrefRun.step {} (readTwice 6)).Coherent := by
  refine prefs_coherent (readTwice 6) ⟨⟨by decide,by decide,fun v h => ?_,fun p kept h => ?_⟩,
    trivial,⟨by decide,by decide,fun v h => ?_,fun p kept _ _ hstamp => ?_⟩,trivial,trivial⟩
    _ (Run.final_mem_states _ _)
  · cases h
  · cases h
  · exact absurd (h.symm.trans (show _=none by decide +kernel)) (Option.some_ne_none v)
  · cases p <;> exact absurd hstamp (by decide +kernel)

/-- A second value is not taken; a value set in the second of the last stamp is not seen; and
the document root stamps the settings with its own old stamp. -/
theorem prefs_stale :
    ((Run.final PrefRun.step {} [.set 5 (str "UserDir") (str "a"),
        .set 6 (str "UserDir") (str "b")]).prefs.crPrefGet (str "UserDir")=str "a" ∧
      latest [(str "UserDir",str "a"),(str "UserDir",str "b")] (str "UserDir")=str "b") ∧
    (((Run.final PrefRun.step {} (readTwice 5)).prefs.access .userdir).1=some (str "public_html") ∧
      (Run.final PrefRun.step {} (readTwice 5)).prefs.crPrefGet (str "UserDir")=str "web") ∧
    (((Run.final PrefRun.step {} [.access .docroot,.access .userdir,
        .set 6 (str "UserDir") (str "web"),.access .docroot]).prefs.access .userdir).1=
        some (str "public_html") ∧
      (Run.final PrefRun.step {} [.access .docroot,.access .userdir,
        .set 6 (str "UserDir") (str "web"),.access .docroot]).prefs.crPrefGet (str "UserDir")=
        str "web") := by
  decide +kernel

/-- An outdated value with the stamp of the settings is what its accessor returns. -/
theorem access_outdated {s : Prefs} {p : CrPref} {kept : Text}
    (hkept : (s.statics p).retStr=some kept) (hne : kept≠s.values p)
    (hstamp : (s.statics p).retStamp=s.prefStamp) : (s.access p).1≠some (s.values p) := by
  rcases access_cases s p with ⟨-,heq⟩|⟨hr,-⟩
  · rw [heq,hkept,Option.getD_some,notEmpty]
    split
    · exact fun h => by cases h
    · exact fun h => hne (Option.some.inj h)
  · rcases hr with hr|hr
    · exact absurd hstamp hr
    · rw [hkept] at hr
      cases hr

end Crotalus
