import Crotalus.Server.Config
import Mathlib.Tactic.Common

namespace Crotalus

/-! The directives of a file, apart from what they do. -/

/-- The calls of actions that the lines of a file lead to. -/
def lineCalls (h : Host) : (Nat → Byte) → List Text → Option (List Call)
  | _,[] => some []
  | m,line::lines => do
    let (m,call) ← scanLine h m line
    let calls ← lineCalls h m lines
    return call.toList++calls

/-- The directives of a configuration file in file order, and `none` for a file that the
server does not get through. -/
def directives (h : Host) (file : Text) : Option (List Call) :=
  lineCalls h h.stack (fgets 1024 file)

def applyCalls (h : Host) (cs : List Call) (s : Settings) : Option Settings :=
  cs.foldlM (fun s c => c.apply h s) s

@[simp] theorem applyCalls_nil (h : Host) (s : Settings) : applyCalls h [] s=some s := rfl

@[simp] theorem applyCalls_cons (h : Host) (c : Call) (cs : List Call) (s : Settings) :
    applyCalls h (c::cs) s=(c.apply h s).bind (applyCalls h cs) := rfl

/-- The scan of a line does not look at the settings. -/
theorem parseLines_eq (h : Host) (m : Nat → Byte) (lines : List Text) (s : Settings)
    (s' : Settings) : parseLines h m lines s=some s' ↔
      ∃ cs,lineCalls h m lines=some cs ∧ applyCalls h cs s=some s' := by
  induction lines generalizing m s with
  | nil =>
    constructor
    · intro heq
      exact ⟨[],rfl,heq⟩
    · rintro ⟨cs,hcs,heq⟩
      cases hcs
      exact heq
  | cons line lines ih =>
    simp only [parseLines,lineCalls,Option.bind_eq_bind,Option.bind_eq_some_iff,Option.pure_def]
    constructor
    · rintro ⟨⟨m',call⟩,hscan,heq⟩
      cases call with
      | none =>
        obtain ⟨cs,hcs,happly⟩ := (ih m' s).mp heq
        exact ⟨cs,⟨(m',none),hscan,cs,hcs,rfl⟩,happly⟩
      | some c =>
        obtain ⟨t,ht,heq⟩ := Option.bind_eq_some_iff.mp heq
        obtain ⟨cs,hcs,happly⟩ := (ih m' t).mp heq
        refine ⟨c::cs,⟨(m',some c),hscan,cs,hcs,rfl⟩,?_⟩
        rw [applyCalls_cons,ht]
        exact happly
    · rintro ⟨cs,⟨⟨m',call⟩,hscan,ds,hds,hcs⟩,happly⟩
      refine ⟨(m',call),hscan,?_⟩
      cases call with
      | none =>
        cases hcs
        exact (ih m' s).mpr ⟨ds,hds,happly⟩
      | some c =>
        cases hcs
        rw [Option.toList_some,List.singleton_append,applyCalls_cons] at happly
        obtain ⟨t,ht,happly⟩ := Option.bind_eq_some_iff.mp happly
        exact Option.bind_eq_some_iff.mpr ⟨t,ht,(ih m' t).mpr ⟨ds,hds,happly⟩⟩

theorem parse_eq (h : Host) (file : Text) (s s' : Settings) : parse h file s=some s' ↔
    ∃ cs,directives h file=some cs ∧ applyCalls h cs s=some s' :=
  parseLines_eq h h.stack (fgets 1024 file) s s'

/-! What the directives add to the common environment. -/

/-- The variable a `CGIEnv` directive asks for. -/
def Call.envEntry (c : Call) : Option Text :=
  if c.action=.addCgiEnv then c.v1.map fun key => envGen key c.v2 else none

def configuredEnv (h : Host) (file : Text) : List Text :=
  ((directives h file).getD []).filterMap Call.envEntry

theorem addToCommonEnv_env {s s' : Settings} {key : Text} {value : Option Text}
    (h : addToCommonEnv s key value=some s') :
    s'.commonCgiEnv=s.commonCgiEnv++[envGen key value] := by
  unfold addToCommonEnv at h
  dsimp only at h
  split_ifs at h
  cases h
  rfl

@[simp] theorem cSetInt_env (v : IntVar) (v1 : Text) (s : Settings) :
    (cSetInt v v1 s).commonCgiEnv=s.commonCgiEnv := by
  unfold cSetInt
  split <;> rfl

@[simp] theorem cSetString_env (v : StrVar) (v1 : Text) (s : Settings) :
    (cSetString v v1 s).commonCgiEnv=s.commonCgiEnv := rfl

@[simp] theorem cSetUnity_env (v : FlagVar) (v1 : Option Text) (s : Settings) :
    (cSetUnity v v1 s).commonCgiEnv=s.commonCgiEnv := rfl

@[simp] theorem crPrefSet_env (s : Settings) (token value : Text) :
    (crPrefSet s token value).commonCgiEnv=s.commonCgiEnv := rfl

@[simp] theorem crAccessSet_env (s : Settings) (token value : Text) :
    (crAccessSet s token value).commonCgiEnv=s.commonCgiEnv := rfl

theorem cSetUser_env {h : Host} {v1 : Text} {s s' : Settings} (heq : cSetUser h v1 s=some s') :
    s'.commonCgiEnv=s.commonCgiEnv := by
  obtain ⟨i,-,rfl⟩ := Option.map_eq_some_iff.mp heq
  rfl

theorem cSetGroup_env {h : Host} {v1 : Text} {s s' : Settings}
    (heq : cSetGroup h v1 s=some s') : s'.commonCgiEnv=s.commonCgiEnv := by
  obtain ⟨i,-,rfl⟩ := Option.map_eq_some_iff.mp heq
  rfl

theorem addMimeType_env {s s' : Settings} {extension type : Option Text}
    (h : s.addMimeType extension type=some s') : s'.commonCgiEnv=s.commonCgiEnv := by
  simp only [Settings.addMimeType,Option.bind_eq_bind,Option.bind_eq_some_iff,
    Option.pure_def,Option.some.injEq] at h
  obtain ⟨e,-,t,-,table,-,rfl⟩ := h
  rfl

theorem addAlias_env {s s' : Settings} {fakename realname : Option Text} {type : AliasType}
    (h : s.addAlias fakename realname type=some s') : s'.commonCgiEnv=s.commonCgiEnv := by
  simp only [Settings.addAlias,Option.bind_eq_bind,Option.bind_eq_some_iff] at h
  obtain ⟨f,-,r,-,h⟩ := h
  split_ifs at h
  · cases h
    rfl
  · cases h
    rfl

/-- The output filters of an `.htaccess` file change one table. -/
theorem foldl_crAccessSet (fs : List (Text × Text)) (s : Settings) :
    ∃ table,fs.foldl (fun s f => crAccessSet s f.1 f.2) s={ s with accessHashtable := table } := by
  induction fs generalizing s with
  | nil => exact ⟨s.accessHashtable,rfl⟩
  | cons f fs ih =>
    obtain ⟨table,htable⟩ := ih (crAccessSet s f.1 f.2)
    exact ⟨table,htable⟩

/-- The list that is made for a name. -/
def Settings.newList (h : Host) (s : Settings) (name : Text) : AccessList :=
  ⟨name.take maxHostNameLen,s.htaccessNodes h (name.take maxHostNameLen),
    s.htaccessNodes h (name.take maxHostNameLen)⟩

/-- A list is found, or made and put in front. -/
theorem accessListGet_cases (h : Host) (s : Settings) (hostname : Text) :
    (∃ i,s.accessHostList.findIdx? (fun l => strcaseEq l.hostname (s.accessName hostname))=some i ∧
      s.accessListGet h hostname=(s,i)) ∨
    (∃ table,s.accessHostList.findIdx?
        (fun l => strcaseEq l.hostname (s.accessName hostname))=none ∧
      s.accessListGet h hostname=({ s with
        accessHashtable := table
        accessHostList := s.newList h (s.accessName hostname)::s.accessHostList },0)) := by
  cases hfind : s.accessHostList.findIdx?
      (fun l => strcaseEq l.hostname (s.accessName hostname)) with
  | some i =>
    left
    refine ⟨i,rfl,?_⟩
    simp only [Settings.accessListGet,hfind]
  | none =>
    right
    obtain ⟨table,htable⟩ := foldl_crAccessSet
      ((s.htaccessLines h ((s.accessName hostname).take maxHostNameLen)).filterMap htaccessFilter) s
    refine ⟨table,rfl,?_⟩
    simp only [Settings.accessListGet,hfind,accessHostInit,htable]
    rfl

theorem accessListGet_env (h : Host) (s : Settings) (hostname : Text) :
    (s.accessListGet h hostname).1.commonCgiEnv=s.commonCgiEnv := by
  rcases accessListGet_cases h s hostname with ⟨i,-,heq⟩|⟨table,-,heq⟩
  · rw [heq]
  · rw [heq]

theorem cAddAccess_env (h : Host) (type : Access) (v1 : Text) (s : Settings) :
    (cAddAccess h type v1 s).commonCgiEnv=s.commonCgiEnv := by
  unfold cAddAccess
  split_ifs
  · exact accessListGet_env h s _
  · rfl

/-- Only `CGIEnv` changes the common environment, by its own variable. -/
theorem Call.apply_env {h : Host} {c : Call} {s s' : Settings} (heq : c.apply h s=some s') :
    s'.commonCgiEnv=s.commonCgiEnv++c.envEntry.toList := by
  obtain ⟨action,v1,v2⟩ := c
  cases action with
  | addCgiEnv =>
    obtain ⟨key,hkey,heq⟩ := Option.bind_eq_some_iff.mp heq
    cases hkey
    exact addToCommonEnv_env heq
  | setInt v =>
    obtain ⟨t,-,rfl⟩ := Option.map_eq_some_iff.mp heq
    simp [Call.envEntry]
  | setString v =>
    obtain ⟨t,-,rfl⟩ := Option.map_eq_some_iff.mp heq
    simp [Call.envEntry]
  | setUnity v =>
    cases heq
    simp [Call.envEntry]
  | setPreference token =>
    cases heq
    simp [Call.envEntry]
  | setUser =>
    obtain ⟨t,-,heq⟩ := Option.bind_eq_some_iff.mp heq
    simp [Call.envEntry,cSetUser_env heq]
  | setGroup =>
    obtain ⟨t,-,heq⟩ := Option.bind_eq_some_iff.mp heq
    simp [Call.envEntry,cSetGroup_env heq]
  | addMimeType => simp [Call.envEntry,addMimeType_env heq]
  | addAlias type => simp [Call.envEntry,addAlias_env heq]
  | addAccess type =>
    obtain ⟨t,-,rfl⟩ := Option.map_eq_some_iff.mp heq
    simp [Call.envEntry,cAddAccess_env]

theorem applyCalls_env {h : Host} {cs : List Call} {s s' : Settings}
    (heq : applyCalls h cs s=some s') :
    s'.commonCgiEnv=s.commonCgiEnv++cs.filterMap Call.envEntry := by
  induction cs generalizing s with
  | nil =>
    cases heq
    simp
  | cons c cs ih =>
    obtain ⟨t,ht,heq⟩ := Option.bind_eq_some_iff.mp heq
    rw [ih heq,Call.apply_env ht,List.append_assoc]
    congr 1
    cases hc : c.envEntry with
    | none => rw [List.filterMap_cons_none hc,Option.toList_none,List.nil_append]
    | some t => rw [List.filterMap_cons_some hc,Option.toList_some,List.singleton_append]

/-- What an added type keeps, the `mime.types` file keeps. -/
theorem addMimeTypesFile_keeps {α : Type} (f : Settings → α)
    (hf : ∀ {s s' : Settings} {extension type : Option Text},
      s.addMimeType extension type=some s' → f s'=f s) {h : Host} {s s' : Settings}
    (heq : addMimeTypesFile h s=some s') : f s'=f s := by
  rw [addMimeTypesFile] at heq
  generalize h.mimeTypes ((s.string .serverRoot).getD [])=ps at heq
  induction ps generalizing s with
  | nil =>
    cases heq
    rfl
  | cons p ps ih =>
    obtain ⟨u,hu,heq⟩ := Option.bind_eq_some_iff.mp heq
    rw [ih heq,hf hu]

theorem addMimeTypesFile_env {h : Host} {s s' : Settings} (heq : addMimeTypesFile h s=some s') :
    s'.commonCgiEnv=s.commonCgiEnv :=
  addMimeTypesFile_keeps Settings.commonCgiEnv (fun hadd => addMimeType_env hadd) heq

@[simp] theorem setFlagUnlessOff_env (v : FlagVar) (token : String) (s : Settings) :
    (setFlagUnlessOff v token s).commonCgiEnv=s.commonCgiEnv := by
  unfold setFlagUnlessOff
  split_ifs <;> rfl

@[simp] theorem setStringPref_env (v : StrVar) (token : String) (s : Settings) :
    (setStringPref v token s).commonCgiEnv=s.commonCgiEnv := rfl

@[simp] theorem setIntPref_env (v : IntVar) (token : String) (s : Settings) :
    (setIntPref v token s).commonCgiEnv=s.commonCgiEnv := rfl

@[simp] theorem raiseToZero_env (v : IntVar) (s : Settings) :
    (raiseToZero v s).commonCgiEnv=s.commonCgiEnv := by
  unfold raiseToZero
  split_ifs <;> rfl

@[simp] theorem limitConnections_env (h : Host) (s : Settings) :
    (limitConnections h s).commonCgiEnv=s.commonCgiEnv := rfl

/-- The search path that a preference gives, under the name of the preference. -/
def pathPref (value : Text) : Text := envGen (str "CGIPath") (some value)

/-- The defaults add one variable. -/
theorem applyInlinePreferences_env {h : Host} {s s' : Settings}
    (heq : applyInlinePreferences h s=some s') :
    ∃ value,s'.commonCgiEnv=s.commonCgiEnv++[pathPref value] := by
  simp only [applyInlinePreferences,Option.bind_eq_bind,Option.bind_eq_some_iff,
    Option.pure_def,Option.some.injEq] at heq
  obtain ⟨s1,h1,s2,h2,s3,h3,s4,h4,rfl⟩ := heq
  have hadd := addToCommonEnv_env h4
  simp only [setIntPref_env,setStringPref_env,addMimeTypesFile_env h3,setFlagUnlessOff_env,
    cSetGroup_env h2,cSetUser_env h1] at hadd
  simp only [cSetString_env,setFlagUnlessOff_env]
  exact ⟨_,hadd⟩

theorem addTypeIf_env {built : Bool} {extension type : String} {s s' : Settings}
    (heq : addTypeIf built extension type s=some s') : s'.commonCgiEnv=s.commonCgiEnv := by
  unfold addTypeIf at heq
  split_ifs at heq
  · exact addMimeType_env heq
  · cases heq
    rfl

theorem addHandledTypes_env {h : Host} {s s' : Settings} (heq : addHandledTypes h s=some s') :
    s'.commonCgiEnv=s.commonCgiEnv := by
  obtain ⟨t,ht,heq⟩ := Option.bind_eq_some_iff.mp heq
  exact (addTypeIf_env heq).trans (addTypeIf_env ht)

theorem finishConfig_env {h : Host} {s s' : Settings} (heq : finishConfig h s=some s') :
    s'.commonCgiEnv=s.commonCgiEnv := by
  obtain ⟨t,ht,heq⟩ := Option.bind_eq_some_iff.mp heq
  have hname : t.commonCgiEnv=s.commonCgiEnv := by
    unfold nameServer at ht
    split_ifs at ht
    · cases ht
      rfl
    · obtain ⟨name,-,rfl⟩ := Option.map_eq_some_iff.mp ht
      rfl
  simp only at heq
  split_ifs at heq <;>
    simp [addHandledTypes_env heq,hname]

/-- What a file adds to the common environment: nothing that is there is touched. -/
theorem readConfigFiles_env {h : Host} {file : Text} {s s' : Settings}
    (heq : readConfigFiles h file s=some s') :
    ∃ value,s'.commonCgiEnv=s.commonCgiEnv++pathPref value::configuredEnv h file := by
  obtain ⟨t,ht,heq⟩ := Option.bind_eq_some_iff.mp heq
  obtain ⟨u,hu,hfinish⟩ := Option.bind_eq_some_iff.mp heq
  obtain ⟨value,hvalue⟩ := applyInlinePreferences_env ht
  obtain ⟨cs,hcs,happly⟩ := (parse_eq h file _ u).mp hu
  refine ⟨value,?_⟩
  have hinit : ∀ b : Bool,(if b=true then accessInit t else t).commonCgiEnv=t.commonCgiEnv := by
    intro b
    split_ifs <;> rfl
  rw [finishConfig_env hfinish,applyCalls_env happly,hinit,hvalue,configuredEnv,hcs,
    List.append_assoc]
  rfl

/-! The size of the common environment. -/

theorem addToCommonEnv_room {s s' : Settings} {key : Text} {value : Option Text}
    (h : addToCommonEnv s key value=some s') : s'.commonCgiEnv.length ≤ cgiEnvMax := by
  unfold addToCommonEnv at h
  dsimp only at h
  split_ifs at h with hfull
  cases h
  exact Nat.not_lt.mp hfull

theorem Call.apply_room {h : Host} {c : Call} {s s' : Settings} (heq : c.apply h s=some s')
    (hs : s.commonCgiEnv.length ≤ cgiEnvMax) : s'.commonCgiEnv.length ≤ cgiEnvMax := by
  by_cases hc : c.action=.addCgiEnv
  · obtain ⟨action,v1,v2⟩ := c
    cases hc
    obtain ⟨key,-,heq⟩ := Option.bind_eq_some_iff.mp heq
    exact addToCommonEnv_room heq
  · rw [Call.apply_env heq,Call.envEntry,if_neg hc,Option.toList_none,List.append_nil]
    exact hs

theorem applyCalls_room {h : Host} {cs : List Call} {s s' : Settings}
    (heq : applyCalls h cs s=some s') (hs : s.commonCgiEnv.length ≤ cgiEnvMax) :
    s'.commonCgiEnv.length ≤ cgiEnvMax := by
  induction cs generalizing s with
  | nil =>
    cases heq
    exact hs
  | cons c cs ih =>
    obtain ⟨t,ht,heq⟩ := Option.bind_eq_some_iff.mp heq
    exact ih heq (Call.apply_room ht hs)

theorem applyInlinePreferences_room {h : Host} {s s' : Settings}
    (heq : applyInlinePreferences h s=some s') : s'.commonCgiEnv.length ≤ cgiEnvMax := by
  simp only [applyInlinePreferences,Option.bind_eq_bind,Option.bind_eq_some_iff,
    Option.pure_def,Option.some.injEq] at heq
  obtain ⟨s1,-,s2,-,s3,-,s4,h4,rfl⟩ := heq
  simp only [cSetString_env,setFlagUnlessOff_env]
  exact addToCommonEnv_room h4

theorem readConfigFiles_room {h : Host} {file : Text} {s s' : Settings}
    (heq : readConfigFiles h file s=some s') : s'.commonCgiEnv.length ≤ cgiEnvMax := by
  obtain ⟨t,ht,heq⟩ := Option.bind_eq_some_iff.mp heq
  obtain ⟨u,hu,hfinish⟩ := Option.bind_eq_some_iff.mp heq
  obtain ⟨cs,-,happly⟩ := (parse_eq h file _ u).mp hu
  rw [finishConfig_env hfinish]
  apply applyCalls_room happly
  have hinit : ∀ b : Bool,(if b=true then accessInit t else t).commonCgiEnv=t.commonCgiEnv := by
    intro b
    split_ifs <;> rfl
  rw [hinit]
  exact applyInlinePreferences_room ht

end Crotalus
