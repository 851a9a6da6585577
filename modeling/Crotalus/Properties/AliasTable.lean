import Crotalus.Framework.Chain
import Crotalus.Properties.ScriptAlias
import Crotalus.Server.Settings
import Mathlib.Data.List.TakeWhile

namespace Crotalus

open ByteMem Stateful

/-! The alias table is a chained hash table over the first component of the names. -/

/-- The calls of `add_alias` that set up the table. -/
def Settings.addAliases (s : Settings) (calls : List Alias) : Option Settings :=
  calls.foldlM (fun s a => s.addAlias (some a.fakename) (some a.realname) a.type) s

/-- The table finds in its chains what `calls` entered. -/
def Settings.Entered (s : Settings) (calls : List Alias) : Prop :=
  Chain.Holds Alias.fakename getAliasHashValue s.aliasHashtable calls

theorem addAlias_entered {s s' : Settings} {calls : List Alias} {a : Alias} (h : s.Entered calls)
    (hadd : s.addAlias (some a.fakename) (some a.realname) a.type=some s') :
    s'.Entered (calls++[a]) := by
  simp only [Settings.addAlias,Option.bind_eq_bind,Option.bind_some] at hadd
  by_cases hempty : a.fakename=[] ∨ a.realname=[]
  · rw [if_pos hempty] at hadd
    cases hadd
  rw [if_neg hempty] at hadd
  by_cases hagain : (s.aliasHashtable (getAliasHashValue a.fakename)).dropLast.any
      (fun b => b.fakename=a.fakename)=true
  · rw [if_pos hagain] at hadd
    obtain rfl := Option.some.inj hadd
    obtain ⟨b,hb,hname⟩ := List.any_eq_true.mp hagain
    obtain ⟨c,hc,hkey⟩ := Chain.Holds.mem h (List.dropLast_subset _ hb)
    exact Chain.Holds.again h hc (hkey.trans (of_decide_eq_true hname))
  · rw [if_neg hagain] at hadd
    obtain rfl := Option.some.inj hadd
    exact Chain.Holds.push h a

theorem addAliases_entered {s s' : Settings} {calls done : List Alias} (h : s.Entered done)
    (hadd : s.addAliases calls=some s') : s'.Entered (done++calls) := by
  induction calls generalizing s done with
  | nil =>
    obtain rfl := Option.some.inj hadd
    rwa [List.append_nil]
  | cons a calls ih =>
    rw [Settings.addAliases,List.foldlM_cons,Option.bind_eq_bind,Option.bind_eq_some_iff] at hadd
    obtain ⟨s1,hstep,hrest⟩ := hadd
    have hall := ih (addAlias_entered h hstep) hrest
    rwa [List.append_assoc] at hall

/-! The component that the hash adds up. -/

/-- A name with a first component, and any URI it matches, hash to the same slot. -/
theorem matchesUri_hash {a : Alias} {uri : Text} (hslash : a.fakename.head?=some 47)
    (hlong : a.fakename≠[47]) (hm : a.matchesUri uri=true) :
    getAliasHashValue uri=getAliasHashValue a.fakename := by
  obtain ⟨name,hname⟩ : ∃ name,a.fakename=47::name := by
    cases hf : a.fakename with
    | nil => rw [hf] at hslash; cases hslash
    | cons c name =>
      rw [hf] at hslash
      exact ⟨name,by rw [Option.some.inj hslash]⟩
  have hne : name≠[] := fun h => hlong (by rw [hname,h])
  rw [Alias.matchesUri,Bool.and_eq_true,startsWith,decide_eq_true_eq] at hm
  obtain ⟨hpre,hend⟩ := hm
  obtain ⟨rest,rfl⟩ := List.prefix_iff_eq_take.mpr hpre.symm
  rw [List.drop_left] at hend
  rw [hname] at hend ⊢
  rw [List.cons_append,getAliasHashValue,getAliasHashValue]
  suffices htake : (name++rest).takeWhile (fun b => decide (b≠47))=
      name.takeWhile fun b => decide (b≠47) by rw [htake]
  rw [List.takeWhile_append]
  split
  · -- the name has one component only, and it does not end in a slash
    rename_i hwhole
    have hall : ∀ b∈name,b≠47 := by
      have heq := (List.takeWhile_prefix fun b => decide (b≠47)).eq_of_length hwhole
      intro b hb
      rw [← heq] at hb
      exact of_decide_eq_true (List.mem_takeWhile_imp (p := fun b => decide (b≠47)) hb)
    have hlast : ¬(47::name).getLast?=some 47 := by
      intro h
      rw [List.getLast?_cons,Option.some.injEq,List.getLast?_eq_some_getLast hne,
        Option.getD_some] at h
      exact hall _ (List.getLast_mem hne) h
    have hstop : rest.takeWhile (fun b => decide (b≠47))=[] := by
      simp only [Bool.or_eq_true,decide_eq_true_eq,hlast,false_or] at hend
      cases rest with
      | nil => rfl
      | cons c rest =>
        rcases hend with h|h
        · cases h
        · rw [Option.some.inj h]
          rfl
    rw [hstop,List.append_nil]
    exact ((List.takeWhile_prefix _).eq_of_length hwhole).symm
  · rfl

/-- The table gives the earliest entry that matches exactly when that entry is not the root
alone, or the URI hashes as the root does. -/
theorem findAlias_earliest (e : Config) (s s' : Settings) (calls : List Alias) (uri : Text)
    (hempty : s.aliasHashtable=fun _ => []) (hadd : s.addAliases calls=some s')
    (he : e.aliasHashtable=s'.aliasHashtable)
    (hnames : ∀ a∈calls,a.fakename.head?=some 47) :
    findAlias e uri=calls.find? (fun a => a.matchesUri uri) ↔
      ∀ a,calls.find? (fun a => a.matchesUri uri)=some a → a.fakename=[47] →
        getAliasHashValue uri=getAliasHashValue [47] := by
  have hstart : s.Entered [] := by
    rw [Settings.Entered,hempty]
    exact Chain.holds_empty
  have hheld : s'.Entered calls := addAliases_entered hstart hadd
  have hlookup := Chain.Holds.lookup hheld (i := getAliasHashValue uri)
    (p := fun name => (Alias.mk name [] .alias).matchesUri uri)
  have hmatch : ∀ {a},calls.find? (fun a => a.matchesUri uri)=some a → a.matchesUri uri=true :=
    fun h => List.find?_some (p := fun a : Alias => a.matchesUri uri) h
  have hfind : findAlias e uri=calls.find? (fun a => a.matchesUri uri) ↔
      ∀ a,calls.find? (fun a => a.matchesUri uri)=some a →
        getAliasHashValue a.fakename=getAliasHashValue uri := by
    rw [findAlias,he]
    exact hlookup
  rw [hfind]
  refine forall₂_congr fun a ha => ?_
  constructor
  · intro hhash hroot
    rw [← hhash,hroot]
  · intro hroot
    by_cases hlong : a.fakename=[47]
    · rw [hlong]
      exact (hroot hlong).symm
    · exact (matchesUri_hash (hnames a (List.mem_of_find?_eq_some ha)) hlong
        (hmatch ha)).symm

def bareSettings : Settings where
  int _ := 0
  string _ := none
  flag _ := false

/-- An entry for everything below the root, behind one for a part of it. -/
def rootBehind : List Alias := [⟨str "/x",str "/y",.alias⟩,⟨str "/",str "/srv/",.alias⟩]

theorem findAlias_earliest_rootBehind : ∃ s',bareSettings.addAliases rootBehind=some s' ∧
    (findAlias { aliasHashtable := s'.aliasHashtable } (str "/x/z")=
        rootBehind.find? (fun a => a.matchesUri (str "/x/z")) ↔
      ∀ a,rootBehind.find? (fun a => a.matchesUri (str "/x/z"))=some a → a.fakename=[47] →
        getAliasHashValue (str "/x/z")=getAliasHashValue [47]) := by
  have hadd : (bareSettings.addAliases rootBehind).isSome=true := by decide
  obtain ⟨s',hs⟩ := Option.isSome_iff_exists.mp hadd
  exact ⟨s',hs,findAlias_earliest _ bareSettings s' rootBehind (str "/x/z") rfl hs rfl (by decide)⟩

/-- The entry for the root is found for the root only. -/
theorem root_notFound : cleanPathname (str "/z")=str "/z" ∧
    rootBehind.find? (fun a => a.matchesUri (str "/z"))=some ⟨str "/",str "/srv/",.alias⟩ ∧
    (bareSettings.addAliases rootBehind).map
      (fun s => findAlias { aliasHashtable := s.aliasHashtable } (str "/z"))=some none := by
  decide

/-! The second copy of the search, for the path behind a script. -/

/-- An entry whose name only starts the path comes behind one that matches it. -/
def PrefixCovered (chain : List Alias) (path : Text) : Prop :=
  ∀ l a r,chain=l++a::r → startsWith path a.fakename=true → a.matchesUri path=false →
    ∃ b∈l,b.matchesUri path=true

theorem pathInfoAlias_iff {e : Config} {path : Text} :
    pathInfoAlias e path=findAlias e path ↔
      PrefixCovered (e.aliasHashtable (getAliasHashValue path)) path := by
  refine Chain.find?_weaker_iff fun a ha => ?_
  rw [Alias.matchesUri,Bool.and_eq_true] at ha
  exact ha.1

section PathInfo

variable (e : Config)

/-- The alias of the extra path gives its translation. -/
def Translated (p : Text) (c : Conn) : Prop :=
  ∀ b,pathInfoAlias e p=some b → c.req.pathTranslated=some (b.pathOf p)

theorem setTranslated_some (t : Text) :
    OnSuccess true (fun _ c' => c'.req.pathTranslated=some t) (setTranslated e t) := by
  intro c hv
  simp only [setTranslated,value_bind,exec_bind] at hv ⊢
  cases hmem : value allocOk c with
  | true => rfl
  | false =>
    rw [hmem] at hv
    exact absurd (show false=true from hv) Bool.false_ne_true

theorem translatePathInfo_translated (p : Text) :
    OnSuccess true (fun _ c' => Translated e p c') (translatePathInfo e p) := by
  intro c hv b hb
  simp only [translatePathInfo,hb] at hv ⊢
  split at hv
  · exact absurd (show false=true from hv) Bool.false_ne_true
  · rename_i hroom
    rw [if_neg hroom]
    exact setTranslated_some e _ c hv

theorem takePathname_kept : OnSuccess 1
    (fun c c' => c'.req.pathTranslated=c.req.pathTranslated) (takePathname e) := by
  intro c hv
  simp only [takePathname,value_bind,exec_bind] at hv ⊢
  cases hmem : value allocOk c with
  | true => rfl
  | false =>
    rw [hmem] at hv
    exact absurd (show (0 : Int)=1 from hv) (by decide)

theorem scriptAtSlash_translated (i : Nat) :
    OnSuccess 1 (fun c c' => Translated e (strBuf c.scriptPath i) c') (scriptAtSlash e i) := by
  intro c hv
  simp only [scriptAtSlash,value_bind,exec_bind,value_get,exec_get] at hv ⊢
  cases hmem : value allocOk c with
  | false =>
    rw [hmem] at hv
    exact absurd (show (0 : Int)=1 from hv) (by decide)
  | true =>
    simp only [hmem,if_true,value_bind,exec_bind] at hv ⊢
    set c1 := exec (setScriptPath (store c.scriptPath i [0])) (exec (modReq fun r => { r with
      pathInfo := some (strBuf c.scriptPath i)
      scriptName := some (cutScriptName r.requestUri (strBuf c.scriptPath i)) }) (exec allocOk c))
    cases ht : value (translatePathInfo e (strBuf c.scriptPath i)) c1 with
    | false =>
      rw [ht] at hv
      exact absurd (show (0 : Int)=1 from hv) (by decide)
    | true =>
      rw [ht] at hv
      intro b hb
      have hset := translatePathInfo_translated e _ c1 ht b hb
      exact (takePathname_kept e _ hv).trans hset

/-- Extra path that the program finds has the translation of its alias. -/
def TranslatesInfo (c c' : Conn) : Prop :=
  c.req.pathInfo=none → ∀ p,c'.req.pathInfo=some p → Translated e p c'

theorem scriptFound_translates (found : ScriptScan) :
    OnSuccess 1 (TranslatesInfo e) (scriptFound e found) := by
  have hzero : (0 : Int)≠1 := by decide
  cases found with
  | missing => exact .fails hzero
  | refused => exact .fails hzero
  | slash i =>
    intro c hv _ p hp
    simp only [scriptFound,value_bind,exec_bind] at hv hp ⊢
    cases hmem : value allocOk c with
    | false =>
      rw [hmem] at hv
      exact absurd hv hzero
    | true =>
      rw [hmem] at hv hp
      have hnames := scriptAtSlash_names e i _ hv
      have hinfo := (congrArg (fun n => n.2.2) hnames).symm.trans hp
      rw [← Option.some.inj hinfo]
      exact scriptAtSlash_translated e i _ hv
  | toEnd =>
    intro c hv hnone p hp
    simp only [scriptFound,value_bind,exec_bind] at hv hp ⊢
    cases hmem : value allocOk c with
    | false =>
      rw [hmem] at hv
      exact absurd hv hzero
    | true =>
      rw [hmem] at hv hp
      have hnames := (scriptAtEnd_names e _ hv).2
      have hinfo := (congrArg (fun n => n.2.2) hnames).symm.trans hp
      exact absurd (hnone.symm.trans hinfo) (by simp)

theorem initScriptAlias_translates (a : Alias) :
    OnSuccess 1 (TranslatesInfo e) (initScriptAlias e a) := by
  intro c hv hnone p hp
  rw [initScriptAlias_eq] at hv hp ⊢
  simp only [value_bind,exec_bind,value_get,exec_get] at hv hp ⊢
  split at hv
  · exact absurd (show (0 : Int)=1 from hv) (by decide)
  · rename_i hlen
    rw [if_neg hlen] at hp ⊢
    exact scriptFound_translates e _ _ hv hnone p hp

end PathInfo

/-- Extra path is translated as a URI would be exactly when no name that merely starts it is
met before one that matches it. -/
theorem pathInfo_asUri (e : Config) (a : Alias) (c : Conn) (path : Text)
    (hnone : c.req.pathInfo=none)
    (hinfo : (exec (initScriptAlias e a) c).req.pathInfo=some path) :
    (pathInfoAlias e path=findAlias e path ∧
      (value (initScriptAlias e a) c=1 → ∀ b,findAlias e path=some b →
        (exec (initScriptAlias e a) c).req.pathTranslated=some (b.pathOf path))) ↔
    PrefixCovered (e.aliasHashtable (getAliasHashValue path)) path := by
  rw [← pathInfoAlias_iff,and_iff_left_iff_imp]
  intro heq h1 b hb
  exact initScriptAlias_translates e a c h1 hnone path hinfo b (heq.trans hb)

def scriptsEntry : Alias := ⟨str "/s/",str "/s/",.scriptAlias⟩

/-- An alias for a path of two components, beside the one for the scripts. -/
def deepAlias : Config where
  aliasHashtable h := [scriptsEntry,⟨str "/a/b",str "/r",.alias⟩].filter fun a =>
    getAliasHashValue a.fakename=h

theorem pathInfo_asUri_below :
    (pathInfoAlias deepAlias (str "/a/b/c")=findAlias deepAlias (str "/a/b/c") ∧
      (value (initScriptAlias deepAlias scriptsEntry) (scriptConn (str "/s/run/a/b/c"))=1 →
        ∀ b,findAlias deepAlias (str "/a/b/c")=some b →
        (exec (initScriptAlias deepAlias scriptsEntry)
          (scriptConn (str "/s/run/a/b/c"))).req.pathTranslated=some (b.pathOf (str "/a/b/c")))) ↔
    PrefixCovered (deepAlias.aliasHashtable (getAliasHashValue (str "/a/b/c"))) (str "/a/b/c") :=
  pathInfo_asUri deepAlias scriptsEntry (scriptConn (str "/s/run/a/b/c")) (str "/a/b/c") rfl
    (by decide +kernel)

/-- The path goes on inside the last component of the name. -/
theorem pathInfo_insideName :
    (value (initScriptAlias deepAlias scriptsEntry) (scriptConn (str "/s/run/a/bc"))=1 ∧
      (exec (initScriptAlias deepAlias scriptsEntry) (scriptConn (str "/s/run/a/bc"))).req.pathInfo=
        some (str "/a/bc") ∧
      (exec (initScriptAlias deepAlias scriptsEntry)
        (scriptConn (str "/s/run/a/bc"))).req.pathTranslated=some (str "/rc")) ∧
    findAlias deepAlias (str "/a/bc")=none := by
  decide +kernel

end Crotalus
