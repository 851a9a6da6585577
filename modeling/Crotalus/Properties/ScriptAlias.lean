import Crotalus.Framework.Run
import Crotalus.Server.Alias
import Crotalus.Spec.Sys

namespace Crotalus

open ByteMem Stateful

/-! What the search for a script finds, and what an earlier request can add to it. -/

/-- The static buffer starts with the C string `path`. -/
structure HoldsPath (m : Nat → Byte) (path : Text) : Prop where
  bytes : ∀ j, j<path.length → m j=path.getD j 0
  stop : m path.length=0
  text : (0 : Byte)∉path
  short : path.length ≤ maxHeaderLength

/-- Any window of cells with a NUL behind it is a C string. -/
theorem cstr_window {m : Nat → Byte} {s : Text} {k i : Nat} (hk : s.length < k)
    (hs : ∀ j, j < s.length → m (i+j)=s.getD j 0) (h0 : m (i+s.length)=0) (hn : (0 : Byte)∉s) :
    cstr m k i=s := by
  induction s generalizing k i with
  | nil =>
    obtain ⟨k,rfl⟩ := Nat.exists_eq_succ_of_ne_zero (Nat.ne_of_gt hk)
    exact if_pos h0
  | cons c s ih =>
    obtain ⟨k,rfl⟩ := Nat.exists_eq_succ_of_ne_zero (Nat.ne_zero_of_lt hk)
    have hc : m i=c := hs 0 (Nat.zero_lt_succ _)
    have hne : ¬m i=0 := fun h => hn (by rw [← h,hc]; exact List.mem_cons_self)
    rw [cstr,if_neg hne,hc]
    refine congrArg _ (ih (Nat.lt_of_succ_lt_succ hk) (fun j hj => ?_) ?_
      fun h => hn (List.mem_cons_of_mem _ h))
    · have hstep := hs (j+1) (Nat.succ_lt_succ hj)
      rwa [show i+1+j=i+(j+1) by omega]
    · rwa [show i+1+s.length=i+(c::s).length by rw [List.length_cons]; omega]

section Buffer

variable {m : Nat → Byte} {path : Text}

theorem HoldsPath.strBuf (h : HoldsPath m path) {i : Nat} (hi : i≤path.length) :
    strBuf m i=path.drop i := by
  have hshort := h.short
  refine cstr_window ?_ (fun j hj => ?_) ?_ fun hmem => h.text (List.mem_of_mem_drop hmem)
  · rw [List.length_drop]
    omega
  · rw [List.length_drop] at hj
    rw [h.bytes (i+j) (by omega),List.getD_eq_getElem?_getD,List.getD_eq_getElem?_getD,
      List.getElem?_drop]
  · rw [List.length_drop,Nat.add_sub_cancel' hi]
    exact h.stop

theorem HoldsPath.strBuf_zero (h : HoldsPath m path) : Crotalus.strBuf m 0=path :=
  h.strBuf (Nat.zero_le _)

/-- Writing the path with its NUL needs nothing of what the buffer held before. -/
theorem holdsPath_store (m : Nat → Byte) (hn : (0 : Byte)∉path)
    (hlen : path.length ≤ maxHeaderLength) : HoldsPath (store m 0 (path++[0])) path where
  bytes j hj := by
    rw [store,if_pos (Nat.zero_le j),Nat.sub_zero,List.getElem?_append_left hj,
      List.getElem?_eq_getElem hj,List.getD_eq_getElem?_getD,List.getElem?_eq_getElem hj]
    rfl
  stop := by
    rw [store,if_pos (Nat.zero_le _),Nat.sub_zero,List.getElem?_append_right (Nat.le_refl _),
      Nat.sub_self]
    rfl
  text := hn
  short := hlen

theorem HoldsPath.cut (h : HoldsPath m path) {i : Nat} (hi : i≤path.length) :
    HoldsPath (store m i [0]) (path.take i) where
  bytes j hj := by
    rw [List.length_take,Nat.min_eq_left hi] at hj
    rw [store_below _ _ _ _ hj,h.bytes j (by omega),List.getD_eq_getElem?_getD,
      List.getD_eq_getElem?_getD,List.getElem?_take_of_lt hj]
  stop := by
    rw [List.length_take,Nat.min_eq_left hi,store,if_pos (Nat.le_refl i),Nat.sub_self]
    rfl
  text hmem := h.text (List.mem_of_mem_take hmem)
  short := by
    have hshort := h.short
    rw [List.length_take]
    omega

theorem HoldsPath.at (h : HoldsPath m path) {i : Nat} (hi : i≤path.length) :
    m i=path.getD i 0 := by
  rcases Nat.lt_or_eq_of_le hi with hlt|rfl
  · exact h.bytes i hlt
  · rw [h.stop,List.getD_eq_getElem?_getD,List.getElem?_eq_none (Nat.le_refl _)]
    rfl

end Buffer

section Scan

variable (stat : Text → Option FileKind) (accessRX : Text → Bool)

/-- The search on the path itself: what the loop is for. -/
def scanPath (path : Text) : Nat → Nat → ScriptScan
  | 0,_ => .toEnd
  | k+1,i =>
    if path.getD (i+1) 0=47 then
      match stat (path.take (i+1)) with
      | none => .missing
      | some .dir => scanPath path k (i+1)
      | some kind =>
        if kind≠.reg ∨ !accessRX (path.take (i+1)) then .refused else .slash (i+1)
    else if path.getD (i+1) 0=0 then .toEnd
    else scanPath path k (i+1)

def ScriptScan.Found (s : ScriptScan) : Prop := s≠.missing ∧ s≠.refused

variable {stat accessRX}

/-- The cuts that are left in the buffer are those of a search that failed. -/
theorem scriptLoop_found {m : Nat → Byte} {k i : Nat}
    (h : (scriptLoop stat accessRX k m i).2.Found) :
    (scriptLoop stat accessRX k m i).1=m := by
  induction k generalizing i with
  | zero => rfl
  | succ k ih =>
    rw [scriptLoop] at h ⊢
    dsimp only at h ⊢
    split
    · rw [if_pos ‹_›] at h
      split
      · rename_i hstat
        simp only [hstat] at h
        exact absurd rfl h.1
      · rename_i hstat
        simp only [hstat] at h
        exact ih h
      · rename_i kind hdir hstat
        simp only [hstat] at h
        split
        · rw [if_pos ‹_›] at h
          exact absurd rfl h.2
        · rfl
    · rw [if_neg ‹_›] at h
      split
      · rfl
      · rw [if_neg ‹_›] at h
        exact ih h

/-- From a position inside the path the loop sees nothing behind the path's end. -/
theorem scriptLoop_scanPath {m : Nat → Byte} {path : Text} (h : HoldsPath m path) {k i : Nat}
    (hi : i < path.length) :
    (scriptLoop stat accessRX k m i).2=scanPath stat accessRX path k i := by
  induction k generalizing i with
  | zero => rfl
  | succ k ih =>
    have hat : m (i+1)=path.getD (i+1) 0 := h.at hi
    have hcut : strBuf (store m (i+1) [0]) 0=path.take (i+1) := (h.cut hi).strBuf_zero
    have hnext : path.getD (i+1) 0≠0 → i+1 < path.length := by
      intro hne
      refine Nat.lt_of_le_of_ne hi fun heq => hne ?_
      rw [heq,List.getD_eq_getElem?_getD,List.getElem?_eq_none (Nat.le_refl _)]
      rfl
    simp only [scriptLoop,scanPath,hat,hcut]
    split
    · rename_i hslash
      have hlt : i+1 < path.length := hnext (by rw [hslash]; decide)
      cases stat (path.take (i+1)) with
      | none => rfl
      | some kind =>
        cases kind with
        | dir => exact ih hlt
        | special => rfl
        | reg =>
          dsimp only
          split
          · rfl
          · rfl
    · split
      · rfl
      · exact ih (hnext ‹_›)

theorem scanPath_slash {path : Text} {k i j : Nat}
    (h : scanPath stat accessRX path k i=.slash j) : i < j ∧ j < path.length := by
  induction k generalizing i with
  | zero => cases h
  | succ k ih =>
    rw [scanPath] at h
    split at h
    · rename_i hslash
      split at h
      · cases h
      · have hn := ih h
        omega
      · split at h
        · cases h
        · obtain rfl : i+1=j := ScriptScan.slash.inj h
          refine ⟨Nat.lt_succ_self i,Nat.lt_of_not_le fun hle => ?_⟩
          rw [List.getD_eq_getElem?_getD,List.getElem?_eq_none hle] at hslash
          cases hslash
    · split at h
      · cases h
      · have hn := ih h
        omega

/-- Started on the NUL itself the loop asks for nothing but the real name, and finds a
script only where the real name is one. -/
theorem scriptLoop_behind {m : Nat → Byte} {path : Text} (h : HoldsPath m path) {k i j : Nat}
    (hi : path.length ≤ i) (hs : (scriptLoop stat accessRX k m i).2=.slash j) :
    stat path=some .reg ∧ accessRX path=true := by
  induction k generalizing i with
  | zero => cases hs
  | succ k ih =>
    have hcut : strBuf (store m (i+1) [0]) 0=path := by
      refine HoldsPath.strBuf_zero ⟨fun j hj => ?_,?_,h.text,h.short⟩
      · rw [store_below _ _ _ _ (by omega),h.bytes j hj]
      · rw [store_below _ _ _ _ (by omega),h.stop]
    simp only [scriptLoop,hcut] at hs
    split at hs
    · split at hs
      · cases hs
      · exact ih (by omega) hs
      · rename_i kind hdir hkind
        split at hs
        · cases hs
        · rename_i hok
          simp only [not_or,not_not,Bool.not_eq_true,Bool.not_eq_false'] at hok
          exact ⟨by rw [hkind,hok.1],hok.2⟩
    · split at hs
      · cases hs
      · exact ih (by omega) hs

end Scan

/-! What `init_script_alias` stores in the request. -/

/-- Pathname, script name and extra path. -/
def Request.scriptNames (r : Request) : Option Text × Option Text × Option Text :=
  (r.pathname,r.scriptName,r.pathInfo)

/-- The real path of a URI below an alias. -/
def Alias.pathOf (a : Alias) (uri : Text) : Text := a.realname++uri.drop a.fakename.length

/-- The names that belong to what the search found. -/
def namesFound (uri path : Text) (old : Option Text) :
    ScriptScan → Option Text × Option Text × Option Text
  | .slash i => (some (path.take i),some (cutScriptName uri (path.drop i)),some (path.drop i))
  | _ => (some path,some uri,old)

section Names

variable (e : Config)

/-- The names and the buffer stay. -/
def NamesKept (c c' : Conn) : Prop :=
  c'.req.scriptNames=c.req.scriptNames ∧ c'.scriptPath=c.scriptPath

theorem setTranslated_names (t : Text) : OnSuccess true NamesKept (setTranslated e t) := by
  intro c hv
  simp only [setTranslated,value_bind,exec_bind] at hv ⊢
  cases hmem : value allocOk c with
  | true => exact ⟨rfl,rfl⟩
  | false =>
    rw [hmem] at hv
    exact nomatch (show false=true from hv)

theorem translatePathInfo_names (p : Text) :
    OnSuccess true NamesKept (translatePathInfo e p) := by
  unfold translatePathInfo
  split
  · exact .ite (fun _ => .fails Bool.false_ne_true) fun _ => setTranslated_names e _
  · split
    · split
      · exact setTranslated_names e _
      · exact .fails Bool.false_ne_true
    · exact setTranslated_names e _
    · exact fun c _ => ⟨rfl,rfl⟩

theorem takePathname_names :
    OnSuccess 1 (fun c c' => c'.req.scriptNames=
      (some (strBuf c.scriptPath 0),c.req.scriptNames.2)) (takePathname e) := by
  intro c hv
  simp only [takePathname,value_bind,exec_bind] at hv ⊢
  cases hmem : value allocOk c with
  | true => rfl
  | false =>
    rw [hmem] at hv
    exact absurd (show (0 : Int)=1 from hv) (by decide)

theorem scriptAtEnd_names : OnSuccess 1 (fun c c' =>
    (c.sys.stat (strBuf c.scriptPath 0)=some .reg ∧ c.sys.accessRX (strBuf c.scriptPath 0)=true) ∧
      c'.req.scriptNames=(some (strBuf c.scriptPath 0),c.req.scriptNames.2))
    (scriptAtEnd e) := by
  intro c hv
  simp only [scriptAtEnd,value_bind,exec_bind,value_get,exec_get] at hv ⊢
  cases hs : c.sys.stat (strBuf c.scriptPath 0) with
  | none =>
    rw [hs] at hv
    exact absurd (show (0 : Int)=1 from hv) (by decide)
  | some kind =>
    simp only [hs] at hv ⊢
    by_cases hok : kind=.reg ∧ c.sys.accessRX (strBuf c.scriptPath 0)=true
    · rw [if_pos hok] at hv ⊢
      exact ⟨⟨congrArg some hok.1,hok.2⟩,takePathname_names e c hv⟩
    · rw [if_neg hok] at hv
      exact absurd (show (0 : Int)=1 from hv) (by decide)

theorem scriptAtSlash_names (i : Nat) : OnSuccess 1 (fun c c' =>
    c'.req.scriptNames=(some (strBuf (store c.scriptPath i [0]) 0),
      some (cutScriptName c.req.requestUri (strBuf c.scriptPath i)),
      some (strBuf c.scriptPath i))) (scriptAtSlash e i) := by
  intro c hv
  simp only [scriptAtSlash,value_bind,exec_bind,value_get,exec_get] at hv ⊢
  cases hmem : value allocOk c with
  | false =>
    rw [hmem] at hv
    exact absurd (show (0 : Int)=1 from hv) (by decide)
  | true =>
    simp only [hmem,if_true,value_bind,exec_bind] at hv ⊢
    set c1 := exec (setScriptPath (store c.scriptPath i [0])) (exec (modReq fun r => { r with
      pathInfo := some (strBuf c.scriptPath i)
      scriptName := some (cutScriptName r.requestUri (strBuf c.scriptPath i)) }) (exec allocOk c))
    cases ht : value (translatePathInfo e (strBuf c.scriptPath i)) c1 with
    | false =>
      rw [ht] at hv
      exact absurd (show (0 : Int)=1 from hv) (by decide)
    | true =>
      rw [ht] at hv
      obtain ⟨hnames,hpath⟩ := translatePathInfo_names e _ c1 ht
      have hn : (exec (takePathname e) _).req.scriptNames=(_,_) := takePathname_names e _ hv
      rw [hpath,hnames] at hn
      exact hn

/-- The end of `init_script_alias`, for what the search found. -/
def scriptFound (e : Config) : ScriptScan → Srv Int
  | .missing => do
    sendRNotFound e
    return 0
  | .refused => do
    sendRForbidden e
    return 0
  | .slash i => do
    if ← allocOk then
      modReq fun r => { r with scriptName := some r.requestUri }
      scriptAtSlash e i
    else
      crotalusPerror e
      return 0
  | .toEnd => do
    if ← allocOk then
      modReq fun r => { r with scriptName := some r.requestUri }
      scriptAtEnd e
    else
      crotalusPerror e
      return 0

/-- The names that a search which left `m` in the buffer leads to. -/
inductive Named (stat : Text → Option FileKind) (accessRX : Text → Bool) (uri : Text)
    (old : Option Text) (m : Nat → Byte) (names : Option Text × Option Text × Option Text) :
    ScriptScan → Prop
  | toEnd : stat (strBuf m 0)=some .reg → accessRX (strBuf m 0)=true →
      names=(some (strBuf m 0),some uri,old) → Named stat accessRX uri old m names .toEnd
  | slash (i : Nat) : names=(some (strBuf (store m i [0]) 0),
        some (cutScriptName uri (strBuf m i)),some (strBuf m i)) →
      Named stat accessRX uri old m names (.slash i)

theorem scriptFound_named (found : ScriptScan) :
    OnSuccess 1 (fun c c' => Named c.sys.stat c.sys.accessRX c.req.requestUri c.req.pathInfo
      c.scriptPath c'.req.scriptNames found) (scriptFound e found) := by
  have hzero : (0 : Int)≠1 := by decide
  cases found with
  | missing => exact .fails hzero
  | refused => exact .fails hzero
  | slash i =>
    intro c hv
    simp only [scriptFound,value_bind,exec_bind] at hv ⊢
    cases hmem : value allocOk c with
    | false =>
      rw [hmem] at hv
      exact absurd hv hzero
    | true =>
      rw [hmem] at hv
      exact .slash i (scriptAtSlash_names e i _ hv)
  | toEnd =>
    intro c hv
    simp only [scriptFound,value_bind,exec_bind] at hv ⊢
    cases hmem : value allocOk c with
    | false =>
      rw [hmem] at hv
      exact absurd hv hzero
    | true =>
      rw [hmem] at hv
      obtain ⟨⟨hs,hx⟩,hn⟩ := scriptAtEnd_names e _ hv
      exact .toEnd hs hx hn

/-- The search in the buffer with the path of the request. -/
def searchPath (a : Alias) (c : Conn) : (Nat → Byte) × ScriptScan :=
  scriptLoop c.sys.stat c.sys.accessRX (maxHeaderLength+1)
    (store c.scriptPath 0 (a.pathOf c.req.requestUri++[0])) a.realname.length

/-- The search in the buffer, and what it found. -/
theorem initScriptAlias_eq (a : Alias) : initScriptAlias e a=(do
    let c ← get
    let path := scriptRoot e c.req++a.realname++c.req.requestUri.drop a.fakename.length
    if path.length+1 > maxHeaderLength+1 then
      sendRBadRequest e
      return 0
    else
      let m := store c.scriptPath 0 (path++[0])
      modReq fun r => { r with cgiType := nphOr e r (strBuf m a.realname.length) }
      let left :=
        scriptLoop c.sys.stat c.sys.accessRX (maxHeaderLength+1) m a.realname.length
      setScriptPath left.1
      scriptFound e left.2) := rfl

theorem initScriptAlias_named {a : Alias} {c : Conn} (hv : e.vhostRoot=none)
    (h1 : value (initScriptAlias e a) c=1) :
    (a.pathOf c.req.requestUri).length ≤ maxHeaderLength ∧
      Named c.sys.stat c.sys.accessRX c.req.requestUri c.req.pathInfo (searchPath a c).1
        (exec (initScriptAlias e a) c).req.scriptNames (searchPath a c).2 := by
  have hroot : scriptRoot e c.req=[] := by rw [scriptRoot,hv]
  rw [initScriptAlias_eq] at h1 ⊢
  simp only [value_bind,exec_bind,value_get,exec_get,hroot,List.nil_append] at h1 ⊢
  by_cases hlen : (a.pathOf c.req.requestUri).length+1 > maxHeaderLength+1
  · rw [Alias.pathOf] at hlen
    rw [if_pos hlen] at h1
    exact absurd (show (0 : Int)=1 from h1) (by decide)
  refine ⟨by omega,?_⟩
  rw [Alias.pathOf] at hlen
  rw [if_neg hlen] at h1 ⊢
  exact scriptFound_named e _ _ h1

/-- The condition: the URI goes on behind the alias, or the alias alone names no script. -/
def ScriptAsked (a : Alias) (c : Conn) : Prop :=
  c.req.requestUri≠a.fakename ∨
    ¬(c.sys.stat a.realname=some .reg ∧ c.sys.accessRX a.realname=true)

theorem initScriptAlias_names {a : Alias} {c : Conn} (hv : e.vhostRoot=none)
    (hpre : a.fakename<+:c.req.requestUri) (hn : (0 : Byte)∉c.req.requestUri)
    (hr : (0 : Byte)∉a.realname) (hok : ScriptAsked a c)
    (h1 : value (initScriptAlias e a) c=1) :
    a.realname.length < (a.pathOf c.req.requestUri).length ∧
    (exec (initScriptAlias e a) c).req.scriptNames=
      namesFound c.req.requestUri (a.pathOf c.req.requestUri) c.req.pathInfo
        (scanPath c.sys.stat c.sys.accessRX (a.pathOf c.req.requestUri) (maxHeaderLength+1)
          a.realname.length) := by
  obtain ⟨hlen,hnamed⟩ := initScriptAlias_named e hv h1
  have htext : (0 : Byte)∉a.pathOf c.req.requestUri := fun hmem =>
    (List.mem_append.mp hmem).elim hr fun hdrop => hn (List.mem_of_mem_drop hdrop)
  have hpath := holdsPath_store c.scriptPath htext hlen
  have hsearch : (searchPath a c).2.Found →
      (searchPath a c).1=store c.scriptPath 0 (a.pathOf c.req.requestUri++[0]) :=
    scriptLoop_found
  have hlt : a.realname.length < (a.pathOf c.req.requestUri).length := by
    refine Nat.lt_of_not_le fun hle => ?_
    have hdrop : c.req.requestUri.drop a.fakename.length=[] := by
      rw [Alias.pathOf,List.length_append] at hle
      exact List.length_eq_zero_iff.mp (by omega)
    have hreal : a.pathOf c.req.requestUri=a.realname := by
      rw [Alias.pathOf,hdrop,List.append_nil]
    have huri : c.req.requestUri=a.fakename :=
      (hpre.eq_of_length_le (List.drop_eq_nil_iff.mp hdrop)).symm
    refine hok.elim (fun h => h huri) fun h => h ?_
    cases hfound : (searchPath a c).2 with
    | missing => rw [hfound] at hnamed; cases hnamed
    | refused => rw [hfound] at hnamed; cases hnamed
    | slash i =>
      have hb := scriptLoop_behind hpath hle hfound
      rwa [hreal] at hb
    | toEnd =>
      rw [hsearch (by rw [hfound]; exact ⟨nofun,nofun⟩),hfound] at hnamed
      cases hnamed with
      | toEnd hs hx _ =>
        rw [hpath.strBuf_zero,hreal] at hs hx
        exact ⟨hs,hx⟩
  refine ⟨hlt,?_⟩
  rw [← scriptLoop_scanPath hpath hlt,← searchPath]
  cases hfound : (searchPath a c).2 with
  | missing => rw [hfound] at hnamed; cases hnamed
  | refused => rw [hfound] at hnamed; cases hnamed
  | toEnd =>
    rw [hsearch (by rw [hfound]; exact ⟨nofun,nofun⟩),hfound] at hnamed
    cases hnamed with
    | toEnd _ _ hnames => rw [hnames,hpath.strBuf_zero]; rfl
  | slash i =>
    rw [hsearch (by rw [hfound]; exact ⟨nofun,nofun⟩),hfound] at hnamed
    have hi : i < (a.pathOf c.req.requestUri).length :=
      (scanPath_slash ((scriptLoop_scanPath hpath hlt).symm.trans hfound)).2
    cases hnamed with
    | slash _ hnames =>
      rw [hnames,(hpath.cut (Nat.le_of_lt hi)).strBuf_zero,hpath.strBuf (Nat.le_of_lt hi)]
      rfl

end Names

/-- The names are parts of the URI and of the path: script and extra path make up both. -/
def SplitNames (a : Alias) (uri : Text) : Option Text × Option Text × Option Text → Prop
  | (pathname,scriptName,pathInfo) => ∃ p s, pathname=some p ∧ scriptName=some s ∧
      s++pathInfo.getD []=uri ∧ p++pathInfo.getD []=a.pathOf uri ∧
      0 ≤ scriptCut uri (pathInfo.getD [])

theorem namesFound_split {a : Alias} {uri : Text} (hpre : a.fakename<+:uri) {s : ScriptScan}
    (hs : ∀ i, s=.slash i → a.realname.length ≤ i) :
    SplitNames a uri (namesFound uri (a.pathOf uri) none s) := by
  have hend : SplitNames a uri (some (a.pathOf uri),some uri,none) :=
    ⟨_,_,rfl,rfl,List.append_nil _,List.append_nil _,Int.natCast_nonneg _⟩
  cases s with
  | missing => exact hend
  | refused => exact hend
  | toEnd => exact hend
  | slash i =>
    have hi := hs i rfl
    have hfake := hpre.length_le
    have hdrop : (a.pathOf uri).drop i=uri.drop (a.fakename.length+(i-a.realname.length)) := by
      rw [Alias.pathOf,List.drop_append,List.drop_eq_nil_iff.mpr hi,List.nil_append,
        List.drop_drop]
    have hlen : ((a.pathOf uri).drop i).length≤uri.length := by
      rw [hdrop,List.length_drop]
      exact Nat.sub_le _ _
    have hcut : scriptCut uri ((a.pathOf uri).drop i)=
        ((uri.length-((a.pathOf uri).drop i).length : Nat) : Int) := (Int.ofNat_sub hlen).symm
    have hpos : 0 ≤ scriptCut uri ((a.pathOf uri).drop i) := by
      rw [hcut]
      exact Int.natCast_nonneg _
    refine ⟨_,_,rfl,rfl,?_,List.take_append_drop _ _,hpos⟩
    rw [Option.getD_some,cutScriptName,if_neg (Int.not_lt.mpr hpos),hcut,Int.toNat_natCast,hdrop,
      List.length_drop]
    generalize a.fakename.length+(i-a.realname.length)=k
    rcases Nat.le_total k uri.length with hk|hk
    · rw [Nat.sub_sub_self hk,List.take_append_drop]
    · rw [Nat.sub_eq_zero_of_le hk,Nat.sub_zero,List.take_length,List.drop_eq_nil_iff.mpr hk,
        List.append_nil]

/-! Translations one after the other. -/

/-- The static buffer when the requests `before` have been translated. -/
def scriptPathAfter (before : List (Config × Conn)) : Nat → Byte :=
  Run.final (fun m (ec : Config × Conn) =>
    (exec (translateUri ec.1) { ec.2 with scriptPath := m }).scriptPath) (fun _ => 0) before

/-- The request with the static buffer that earlier ones have left. -/
def Conn.behind (c : Conn) (before : List (Config × Conn)) : Conn :=
  { c with scriptPath := scriptPathAfter before }

theorem findAlias_startsWith {e : Config} {uri : Text} {a : Alias} (h : findAlias e uri=some a) :
    a.fakename<+:uri := by
  have hm := List.find?_some h
  rw [Alias.matchesUri,Bool.and_eq_true,startsWith,decide_eq_true_eq] at hm
  exact List.prefix_iff_eq_take.mpr hm.1.symm

theorem translateUri_script (e : Config) {a : Alias} {c : Conn}
    (ha : findAlias e c.req.requestUri=some a) (ht : a.type=.scriptAlias)
    (h1 : value (translateUri e) c=1) :
    value (initScriptAlias e a) c=1 ∧
      exec (translateUri e) c=exec (initScriptAlias e a) c := by
  simp only [translateUri,value_bind,exec_bind,value_getReq,exec_getReq,ha,if_pos ht] at h1 ⊢
  by_cases hs : c.req.requestUri.head?≠some 47
  · rw [if_pos hs] at h1
    exact absurd (show (0 : Int)=1 from h1) (by decide)
  · rw [if_neg hs] at h1 ⊢
    exact ⟨h1,rfl⟩

/-- The names of a script depend on the URI, the alias and the file system, whatever has been
translated before, and they split the URI and the path in the same place. -/
theorem scriptAlias_names (e e' : Config) (a : Alias) (c c' : Conn)
    (before before' : List (Config × Conn)) (hv : e.vhostRoot=none) (hv' : e'.vhostRoot=none)
    (halias : e'.aliasHashtable=e.aliasHashtable) (huri : c'.req.requestUri=c.req.requestUri)
    (hstat : c'.sys.stat=c.sys.stat) (hx : c'.sys.accessRX=c.sys.accessRX)
    (ha : findAlias e c.req.requestUri=some a) (ht : a.type=.scriptAlias)
    (hn : (0 : Byte)∉c.req.requestUri) (hr : (0 : Byte)∉a.realname)
    (hnew : c.req.pathInfo=none) (hnew' : c'.req.pathInfo=none) (hok : ScriptAsked a c)
    (h1 : value (translateUri e) (c.behind before)=1)
    (h1' : value (translateUri e') (c'.behind before')=1) :
    (exec (translateUri e') (c'.behind before')).req.scriptNames=
        (exec (translateUri e) (c.behind before)).req.scriptNames ∧
      SplitNames a c.req.requestUri
        (exec (translateUri e) (c.behind before)).req.scriptNames := by
  have ha' : findAlias e' c'.req.requestUri=some a := by rw [← ha,findAlias,findAlias,halias,huri]
  have hpre := findAlias_startsWith ha
  obtain ⟨hi,he⟩ := translateUri_script e (c := c.behind before) ha ht h1
  obtain ⟨hi',he'⟩ := translateUri_script e' (c := c'.behind before') ha' ht h1'
  obtain ⟨hlt,hnames⟩ := initScriptAlias_names e hv (c := c.behind before) hpre hn hr hok hi
  have hok' : ScriptAsked a (c'.behind before') := by
    rw [ScriptAsked,Conn.behind,huri,hstat,hx]
    exact hok
  obtain ⟨-,hnames'⟩ := initScriptAlias_names e' hv' (c := c'.behind before')
    (findAlias_startsWith ha') (by rw [Conn.behind,huri]; exact hn) hr hok' hi'
  rw [he,he',hnames,hnames']
  simp only [Conn.behind,huri,hstat,hx,hnew,hnew']
  exact ⟨trivial,namesFound_split hpre fun i hs => Nat.le_of_lt (scanPath_slash hs).1⟩

/-- Two script aliases, of one program and of a directory. -/
def scriptAliases : Config :=
  { docroot := some (str "/d")
    aliasHashtable := fun h => [⟨str "/run",str "/b/run",.scriptAlias⟩,
      ⟨str "/s/",str "/s/",.scriptAlias⟩].filter fun a => getAliasHashValue a.fakename=h }

/-- The programs are `/b/run` and `/s/run`. -/
def scriptConn (uri : Text) : Conn :=
  { req := { requestUri := uri }
    sys := { stat := fun p => if p=str "/b/run" ∨ p=str "/s/run" then some .reg else none
             accessRX := fun _ => true } }

theorem scriptAlias_names_below :
    (exec (translateUri scriptAliases) ((scriptConn (str "/s/run/x")).behind [])).req.scriptNames=
        (exec (translateUri scriptAliases) ((scriptConn (str "/s/run/x")).behind
          [(scriptAliases,scriptConn (str "/s/q/ww/x"))])).req.scriptNames ∧
      SplitNames ⟨str "/s/",str "/s/",.scriptAlias⟩ (str "/s/run/x")
        (exec (translateUri scriptAliases) ((scriptConn (str "/s/run/x")).behind
          [(scriptAliases,scriptConn (str "/s/q/ww/x"))])).req.scriptNames :=
  scriptAlias_names scriptAliases scriptAliases _ (scriptConn (str "/s/run/x"))
    (scriptConn (str "/s/run/x")) [(scriptAliases,scriptConn (str "/s/q/ww/x"))] [] rfl rfl rfl
    rfl rfl rfl (by decide +kernel) rfl (by decide) (by decide) rfl rfl
    (.inl (by decide)) (by decide +kernel) (by decide +kernel)

/-- The URI is the alias: behind the path comes what an earlier request has left. -/
theorem scriptAlias_names_stale :
    value (translateUri scriptAliases) ((scriptConn (str "/run")).behind [])=1 ∧
      (exec (translateUri scriptAliases) ((scriptConn (str "/run")).behind [])).req.scriptNames=
        (some (str "/b/run"),some (str "/run"),none) ∧
      value (translateUri scriptAliases) ((scriptConn (str "/run")).behind
        [(scriptAliases,scriptConn (str "/s/q/ww/x"))])=1 ∧
      (exec (translateUri scriptAliases) ((scriptConn (str "/run")).behind
        [(scriptAliases,scriptConn (str "/s/q/ww/x"))])).req.scriptNames=
        (some (str "/b/run"),some (str "/r"),some (str "/x")) := by
  decide +kernel

end Crotalus
