import Crotalus.Server.Settings

namespace Crotalus

/-! The preferences of `cr_pref.c` with the static variables that keep four of them. -/

inductive CrPref where
  | docroot | userdir | dirindex | cachedir
  deriving DecidableEq, Repr

def CrPref.token : CrPref → Text
  | .docroot => str "DocumentRoot"
  | .userdir => str "UserDir"
  | .dirindex => str "DirectoryIndex"
  | .cachedir => str "DirectoryCache"

/-- The static variables of one accessor. -/
structure PrefCache where
  retStamp : Int := 0
  retStr : Option Text := none
  deriving DecidableEq, Repr

structure Prefs where
  prefHashtable : List (Text × Text) := []
  prefStamp : Int := 0
  statics : CrPref → PrefCache := fun _ => {}

def Prefs.resetPrefStamp (s : Prefs) (now : Int) : Prefs := { s with prefStamp := now }

/-- A failed insertion leaves the stamp alone; the result is then `-EINVAL`. -/
def Prefs.crPrefSet (s : Prefs) (now : Int) (token value : Text) : Int × Prefs :=
  if value = [] then (0, { s with prefStamp := now })
  else
    match hashInsert s.prefHashtable token value with
    | none => (-22, s)
    | some table => (0, { s with prefHashtable := table, prefStamp := now })

def Prefs.crPrefGet (s : Prefs) (token : Text) : Text :=
  if token = [] then [] else (hashFind s.prefHashtable token).getD (crPrefDefault token)

/-- Whether an accessor reads its preference again. -/
def Prefs.rereads (s : Prefs) (p : CrPref) : Prop :=
  (s.statics p).retStamp ≠ s.prefStamp ∨ (s.statics p).retStr = none

instance (s : Prefs) (p : CrPref) : Decidable (s.rereads p) := by
  unfold Prefs.rereads
  infer_instance

/-- What an accessor returns: no empty string. -/
def notEmpty (t : Text) : Option Text := if t = [] then none else some t

/-- The accessors but `crpref_docroot`: a value read again gets the stamp of the settings. -/
def Prefs.crpref (s : Prefs) (p : CrPref) : Option Text × Prefs :=
  if s.rereads p then
    let value := s.crPrefGet p.token
    (notEmpty value, { s with statics := Function.update s.statics p ⟨s.prefStamp, some value⟩ })
  else (notEmpty ((s.statics p).retStr.getD []), s)

def Prefs.crprefUserdir (s : Prefs) : Option Text × Prefs := s.crpref .userdir
def Prefs.crprefDirindex (s : Prefs) : Option Text × Prefs := s.crpref .dirindex
def Prefs.crprefCachedir (s : Prefs) : Option Text × Prefs := s.crpref .cachedir

/-- Here the settings get the stamp of the value. -/
def Prefs.crprefDocroot (s : Prefs) : Option Text × Prefs :=
  let old := s.statics .docroot
  if s.rereads .docroot then
    let value := s.crPrefGet CrPref.docroot.token
    (notEmpty value, { s with
      statics := Function.update s.statics .docroot ⟨old.retStamp, some value⟩
      prefStamp := old.retStamp })
  else (notEmpty (old.retStr.getD []), s)

/-- The accessor of a preference. -/
def Prefs.access (s : Prefs) : CrPref → Option Text × Prefs
  | .docroot => s.crprefDocroot
  | .userdir => s.crprefUserdir
  | .dirindex => s.crprefDirindex
  | .cachedir => s.crprefCachedir

end Crotalus
