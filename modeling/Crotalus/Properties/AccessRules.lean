import Crotalus.Spec.Config
import Crotalus.Spec.Strings
import Mathlib.Tactic.Common

namespace Crotalus

/-! The access rules of a configuration file. They are kept by host name, and the name that
counts is the one in force when the directive is read. -/

/-- As much of a name as a list can have. -/
def hostKey (name : Text) : Text := name.take maxHostNameLen

theorem hostKey_length (name : Text) : (hostKey name).length ≤ maxHostNameLen :=
  (List.length_take_le _ _)

/-! What a directive means for the rules. -/

/-- The rule of an `Allow` or `Deny` directive. -/
def Call.rule (c : Call) : Option AccessNode :=
  match c.action with
  | .addAccess type => c.v1.map (⟨·,type⟩)
  | _ => none

def Call.newName (c : Call) : Option Text :=
  if c.action=.setString .serverName then c.v1 else none

def Call.virtualhost (c : Call) : Option Bool :=
  if c.action=.setUnity .virtualhost then some (!(c.v1.map (strcaseEq · (str "off"))).getD false)
  else none

/-- A rule put into the list that is found, or into one that is made. -/
def withRule (lists : List AccessList) (n : Text) (r : AccessNode) (made : AccessList) :
    List AccessList :=
  match lists.findIdx? fun l => strcaseEq l.hostname n with
  | some i => lists.modify i fun l => accessNodeAdd l r.hostPattern r.type
  | none => accessNodeAdd made r.hostPattern r.type::lists

/-- A list as it is made for a name. -/
def Fresh (l : AccessList) (n : Text) : Prop := l.hostname=hostKey n ∧ l.nodes=l.htaccess

/-- What the access rules depend on. -/
def Settings.hosts (s : Settings) : Option Text × Bool × List AccessList :=
  (s.string .serverName,s.flag .virtualhost,s.accessHostList)

/-- The parts that a directive which is neither a rule nor a name nor the switch keeps. -/
theorem Call.keeps {c : Call} {s s' : Settings} {n : Text} (hn : s.string .serverName=some n)
    (hrule : c.rule=none) (hname : c.newName=none) (hvirtual : c.virtualhost=none)
    (h : s'.hosts=s.hosts) : s'.string .serverName=some (c.newName.getD n) ∧
      s'.flag .virtualhost=c.virtualhost.getD (s.flag .virtualhost) ∧
      match c.rule with
      | none => s'.accessHostList=s.accessHostList
      | some r => ∃ made,Fresh made n ∧
        s'.accessHostList=withRule s.accessHostList n r made := by
  rw [hname,hvirtual,hrule]
  exact ⟨(congrArg Prod.fst h).trans hn,congrArg (fun x => x.2.1) h,congrArg (fun x => x.2.2) h⟩

end Crotalus
