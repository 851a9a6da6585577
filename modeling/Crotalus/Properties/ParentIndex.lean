import Crotalus.Server.Alias
import Crotalus.Server.Get
import Crotalus.Spec.Strings
import Crotalus.Spec.Sys
import Crotalus.Spec.Uri
import Mathlib.Data.List.DropRight

namespace Crotalus

open Stateful

/-! What `get_parent_index` opens in place of a path that cannot be opened. -/

/-- A root without the slashes that end it. -/
def bareRoot (root : Text) : Text := root.rdropWhile fun b => b=47

/-- `path` is `root` or lies under it. -/
def Below (root path : Text) : Prop :=
  ∃ rest,path=bareRoot root++rest ∧ (rest=[] ∨ rest.head?=some 47) ∧
    [dot,dot]∉segments rest

/-- `dir` is what is left of `path` when it is cut at one of its slashes. -/
def Ancestor (path dir : Text) : Prop := ∃ tail,path=dir++47::tail

def Opens (w : World) (path : Text) : Prop := ∃ v,w.openFile path=.ok v

/-- The shortest length at which the search still tries a path. -/
def shortest (e : Config) : Nat := u64 ((e.docroot.getD []).length+2^64-1)

/-- What the search tries: the ancestors of the path, as far as its array holds it, that are
long enough. -/
def Tried (e : Config) (path dir : Text) : Prop :=
  Ancestor (path.take maxPathLength) dir ∧ shortest e ≤ dir.length

/-- The ancestors of a path are its longest one and those of that one. -/
theorem ancestor_cut {path dir tail : Text} (hnot : 47∉tail) {d : Text}
    (hpath : path=dir++47::tail) : Ancestor path d ↔ d=dir ∨ Ancestor dir d := by
  subst hpath
  constructor
  · rintro ⟨rest,h⟩
    obtain ⟨mid,hd,hrest⟩|⟨mid,hd,hrest⟩ := List.append_eq_append_iff.mp h
    · cases mid with
      | nil => exact .inl (by rw [hd,List.append_nil])
      | cons c mid =>
        rw [List.cons_append,List.cons.injEq] at hrest
        exact absurd (by rw [hrest.2]; simp) hnot
    · cases mid with
      | nil => exact .inl (by rw [hd,List.append_nil])
      | cons c mid =>
        rw [List.cons_append,List.cons.injEq] at hrest
        exact .inr ⟨mid,by rw [hd,hrest.1]⟩
  · rintro (rfl|⟨rest,rfl⟩)
    · exact ⟨tail,rfl⟩
    · exact ⟨rest++47::tail,by simp⟩

theorem Ancestor.length_lt {path dir : Text} (h : Ancestor path dir) :
    dir.length < path.length := by
  obtain ⟨tail,rfl⟩ := h
  rw [List.length_append,List.length_cons]
  omega

/-- What the search opens is the longest ancestor that can be opened. -/
theorem parentLoop_some {e : Config} {w : World} {k : Nat} {path q : Text} {v : Nat × File}
    (h : parentLoop e w k path=some (q,v)) :
    ∃ dir,q=dir++[47] ∧ Ancestor path dir ∧ shortest e ≤ dir.length ∧ w.openFile dir=.ok v ∧
      ∀ d,Ancestor path d → Opens w d → d.length ≤ dir.length := by
  induction k generalizing path with
  | zero => cases h
  | succ k ih =>
    rw [parentLoop] at h
    cases hcut : strrchr 47 path with
    | none =>
      rw [hcut] at h
      cases h
    | some i =>
      obtain ⟨tail,hpath,hnot⟩ := strrchr_some hcut
      have hcases := fun d => ancestor_cut (d := d) hnot hpath
      rw [hcut] at h
      dsimp only at h
      split at h
      · cases h
      · rename_i hlong
        cases hopen : w.openFile (path.take i) with
        | ok r =>
          rw [hopen] at h
          cases h
          refine ⟨path.take i,rfl,⟨tail,hpath⟩,Nat.le_of_not_lt hlong,hopen,?_⟩
          intro d hd _
          rcases (hcases d).mp hd with rfl|hd
          · exact Nat.le_refl _
          · exact Nat.le_of_lt hd.length_lt
        | error err =>
          rw [hopen] at h
          obtain ⟨dir,hq,hanc,hle,hv,hmax⟩ := ih h
          refine ⟨dir,hq,(hcases dir).mpr (.inr hanc),hle,hv,?_⟩
          intro d hd hopens
          rcases (hcases d).mp hd with rfl|hd
          · obtain ⟨u,hu⟩ := hopens
            rw [hopen] at hu
            cases hu
          · exact hmax d hd hopens

/-- When it finds nothing there is no ancestor to open. -/
theorem parentLoop_none {e : Config} {w : World} {k : Nat} {path : Text} (hk : path.length < k)
    (h : parentLoop e w k path=none) :
    ∀ d,Ancestor path d → shortest e ≤ d.length → ¬Opens w d := by
  induction k generalizing path with
  | zero => exact absurd hk (Nat.not_lt_zero _)
  | succ k ih =>
    rw [parentLoop] at h
    intro d hd hlong hopens
    cases hcut : strrchr 47 path with
    | none =>
      obtain ⟨tail,rfl⟩ := hd
      exact strrchr_none hcut (by simp)
    | some i =>
      obtain ⟨tail,hpath,hnot⟩ := strrchr_some hcut
      have hshort : (path.take i).length < k :=
        Nat.lt_of_lt_of_le (Ancestor.length_lt ⟨tail,hpath⟩) (Nat.le_of_lt_succ hk)
      have hcases := (ancestor_cut hnot hpath).mp hd
      have hle : d.length ≤ (path.take i).length := by
        rcases hcases with rfl|hd
        · exact Nat.le_refl _
        · exact Nat.le_of_lt hd.length_lt
      rw [hcut] at h
      dsimp only at h
      have hlong' : ¬(path.take i).length < u64 ((e.docroot.getD []).length+2^64-1) :=
        Nat.not_lt.mpr (Nat.le_trans hlong hle)
      rw [if_neg hlong'] at h
      cases hopen : w.openFile (path.take i) with
      | ok r =>
        rw [hopen] at h
        cases h
      | error err =>
        rw [hopen] at h
        rcases hcases with rfl|hd
        · obtain ⟨u,hu⟩ := hopens
          rw [hopen] at hu
          cases hu
        · exact ih hshort h d hd hlong hopens

/-- Of the ancestors of a path under the root, those that are long enough are in its tree. -/
theorem below_ancestor {root path d : Text} (h : Below root path) (hd : Ancestor path d) :
    Below root d ↔ (bareRoot root).length ≤ d.length := by
  obtain ⟨rest,hpath,hhead,hup⟩ := h
  obtain ⟨tail,htail⟩ := hd
  constructor
  · rintro ⟨rest',hd,-⟩
    rw [hd,List.length_append]
    exact Nat.le_add_right _ _
  · intro hle
    rw [hpath] at htail
    obtain ⟨mid,hd,hrest⟩|⟨mid,hroot,hrest⟩ := List.append_eq_append_iff.mp htail
    · rw [hrest,show (47 : Byte)=slash from rfl,segments,Path.segments_append_sep,
        List.mem_append,not_or] at hup
      refine ⟨mid,hd,?_,hup.1⟩
      cases mid with
      | nil => exact .inl rfl
      | cons c mid =>
        rw [hrest] at hhead
        exact .inr (hhead.resolve_left (List.cons_ne_nil _ _))
    · have hmid : mid=[] := by
        rw [hroot,List.length_append] at hle
        exact List.length_eq_zero_iff.mp (by omega)
      refine ⟨[],?_,.inl rfl,by decide⟩
      rw [hroot,hmid,List.append_nil,List.append_nil]

theorem Ancestor.of_take {n : Nat} {path d : Text} (h : Ancestor (path.take n) d) :
    Ancestor path d := by
  obtain ⟨tail,h⟩ := h
  refine ⟨tail++path.drop n,?_⟩
  rw [← List.cons_append,← List.append_assoc,← h,List.take_append_drop]

/-- One of the paths that are tried in the tree of the root can be opened, or none outside. -/
def RootFirst (e : Config) (w : World) (root path : Text) : Prop :=
  (∃ d,Tried e path d ∧ Below root d ∧ Opens w d) ∨
    ∀ d,Tried e path d → ¬Below root d → ¬Opens w d

theorem parentLoop_below_iff {e : Config} {w : World} {root path : Text}
    (hbelow : Below root path) :
    (∀ dir v,parentLoop e w (path.length+1) (path.take maxPathLength)=some (dir++[47],v) →
      Below root dir) ↔ RootFirst e w root path := by
  have hshort : (path.take maxPathLength).length < path.length+1 :=
    Nat.lt_succ_of_le (List.length_take_le' _ _)
  constructor
  · intro h
    cases hloop : parentLoop e w (path.length+1) (path.take maxPathLength) with
    | none => exact .inr fun d hd _ => parentLoop_none hshort hloop d hd.1 hd.2
    | some r =>
      obtain ⟨q,v⟩ := r
      obtain ⟨dir,rfl,hanc,hlong,hv,-⟩ := parentLoop_some hloop
      exact .inl ⟨dir,⟨hanc,hlong⟩,h dir v hloop,v,hv⟩
  · intro h dir v hloop
    obtain ⟨dir',hq,hanc,hlong,hv,hmax⟩ := parentLoop_some hloop
    obtain rfl : dir=dir' := List.append_cancel_right hq
    rcases h with ⟨d,hd,hroot,hopens⟩|h
    · have hle := (below_ancestor hbelow hd.1.of_take).mp hroot
      exact (below_ancestor hbelow hanc.of_take).mpr (Nat.le_trans hle (hmax d hd.1 hopens))
    · by_contra hout
      exact h dir ⟨hanc,hlong⟩ hout ⟨v,hv⟩

/-- The length of the document root keeps the search in its tree. -/
theorem rootFirst_docroot {e : Config} {w : World} {root path : Text}
    (hroot : e.docroot=some root) (hlen : root.length < 2^64) (hbelow : Below root path) :
    RootFirst e w root path := by
  refine .inr fun d hd hout => absurd ((below_ancestor hbelow hd.1.of_take).mpr ?_) hout
  have hlong : root.length ≤ d.length+1 := by
    have hs := hd.2
    rw [shortest,hroot,Option.getD_some,u64] at hs
    omega
  obtain ⟨tail,htail⟩ := hd.1.of_take
  obtain ⟨rest,hpath,-⟩ := hbelow
  by_contra hshort
  have hbare : bareRoot root<+:root := List.rdropWhile_prefix _ _
  have hall : bareRoot root=root := hbare.eq_of_length (by have := hbare.length_le; omega)
  -- the root would end in the slash at which the path was cut
  have hne : bareRoot root≠[] := by
    intro h
    rw [h] at hshort
    exact hshort (Nat.zero_le _)
  have hlast := List.rdropWhile_last_not (fun b : Byte => decide (b=47)) root hne
  have hcut : d++[47]=bareRoot root := by
    have hboth : (d++[47])++tail=bareRoot root++rest := by
      rw [List.append_assoc,List.singleton_append,← htail,hpath]
    refine (List.append_inj hboth ?_).1
    have := congrArg List.length hall
    rw [List.length_append,List.length_singleton]
    omega
  apply hlast
  have hend : ∀ s (hs : s≠[]),s=d++[47] → s.getLast hs=47 := by
    rintro s hs rfl
    exact List.getLast_concat
  exact decide_eq_true (hend _ hne hcut.symm)

/-- `open` fails; the parents are searched where the server is set so. -/
theorem openPath_parent {e : Config} {c : Conn} {path : Text} {err : Errno}
    (hpath : c.req.pathname.getD []=path) (hopen : c.sys.openFile path=.error err) :
    (∀ q v,e.useParentindex=true →
      parentLoop e c.sys (path.length+1) (path.take maxPathLength)=some (q,v) →
        value (openPath e) c=.ok v ∧ (exec (openPath e) c).req.pathname=some q) ∧
    ((e.useParentindex=true →
      parentLoop e c.sys (path.length+1) (path.take maxPathLength)=none) →
        value (openPath e) c=.error err) := by
  constructor
  · rintro q ⟨fd,f⟩ hparent hloop
    constructor <;>
      simp only [openPath,value_bind,exec_bind,value_get,exec_get,hpath,hopen,
        hparent,if_true,hloop,exec_modReq,value_pure,exec_pure]
  · intro hnone
    cases hparent : e.useParentindex with
    | false =>
      simp only [openPath,value_bind,value_get,exec_get,hpath,hopen,hparent,
        Bool.false_eq_true,if_false,value_pure]
    | true =>
      simp only [openPath,value_bind,value_get,exec_get,hpath,hopen,hparent,
        if_true,hnone hparent,value_pure]

/-- The directory that is opened in place of a file under the root is in its tree just when
the condition holds; the path never gets longer. -/
theorem openPath_below (e : Config) (c : Conn) (root path : Text)
    (hpath : c.req.pathname=some path) (hbelow : Below root path)
    (hclosed : ¬Opens c.sys path) :
    ((∀ v dir,value (openPath e) c=.ok v →
        (exec (openPath e) c).req.pathname=some (dir++[47]) → Below root dir) ↔
      (e.useParentindex=true → RootFirst e c.sys root path)) ∧
    ∀ v,value (openPath e) c=.ok v → ∃ dir,
      (exec (openPath e) c).req.pathname=some (dir++[47]) ∧ c.sys.openFile dir=.ok v ∧
        (dir++[47]).length ≤ path.length := by
  cases hopen : c.sys.openFile path with
  | ok v => exact absurd ⟨v,hopen⟩ hclosed
  | error err =>
    obtain ⟨hfound,hnothing⟩ := openPath_parent (e := e) (congrArg (·.getD []) hpath) hopen
    rw [← forall_congr' fun _ => parentLoop_below_iff hbelow]
    -- a file is opened only where the search finds one
    have hloop : ∀ v,value (openPath e) c=.ok v → ∃ q,e.useParentindex=true ∧
        parentLoop e c.sys (path.length+1) (path.take maxPathLength)=some (q,v) ∧
        (exec (openPath e) c).req.pathname=some q := by
      intro v hv
      by_cases hnone : e.useParentindex=true →
          parentLoop e c.sys (path.length+1) (path.take maxPathLength)=none
      · rw [hnothing hnone] at hv
        cases hv
      · obtain ⟨hparent,hsome⟩ := Classical.not_imp.mp hnone
        obtain ⟨r,hr⟩ := Option.ne_none_iff_exists'.mp hsome
        obtain ⟨q,u⟩ := r
        obtain ⟨hu,hq⟩ := hfound q u hparent hr
        rw [hu] at hv
        cases hv
        exact ⟨q,hparent,hr,hq⟩
    refine ⟨⟨fun h hparent dir v hr => ?_,fun h v dir hv hdir => ?_⟩,fun v hv => ?_⟩
    · obtain ⟨hv,hq⟩ := hfound _ v hparent hr
      exact h v dir hv hq
    · obtain ⟨q,hparent,hr,hq⟩ := hloop v hv
      rw [hq] at hdir
      cases hdir
      exact h hparent dir v hr
    · obtain ⟨q,-,hr,hq⟩ := hloop v hv
      obtain ⟨dir,rfl,hanc,-,hopens,-⟩ := parentLoop_some hr
      refine ⟨dir,hq,hopens,?_⟩
      have := hanc.of_take.length_lt
      rw [List.length_append,List.length_singleton]
      omega

/-! A directory that an alias names is gone, the document root has a shorter name. -/

def goneTarget : Text := str "/srv/files/a/"

def goneConfig : Config where
  docroot := some (str "/w")
  useParentindex := true
  aliasHashtable h := [⟨str "/a/",goneTarget,.alias⟩].filter fun a =>
    getAliasHashValue a.fakename=h

def goneConn : Conn where
  req := { requestUri := str "/a/x" }
  sys := { openFile := fun path =>
    if path=str "/srv/files" then .ok (5,⟨.dir,0,0,0,0,[]⟩) else .error .noEnt }

def goneMapped : Conn := exec (translateUri goneConfig) goneConn

theorem goneMapped_runs : value (translateUri goneConfig) goneConn=1 ∧
    goneMapped.req.pathname=some (str "/srv/files/a/x") ∧
    (exec (openPath goneConfig) goneMapped).req.pathname=some (str "/srv/files"++[47]) := by
  decide +kernel

theorem gone_below : Below goneTarget (str "/srv/files/a/x") := by
  have hroot : str "/srv/files/a/x"=bareRoot goneTarget++str "/x" ∧
      [dot,dot]∉segments (str "/x") := by decide +kernel
  exact ⟨str "/x",hroot.1,.inr rfl,hroot.2⟩

theorem gone_closed : ¬Opens goneMapped.sys (str "/srv/files/a/x") := by
  rintro ⟨v,hv⟩
  cases hv

theorem openPath_below_alias :
    ((∀ v dir,value (openPath goneConfig) goneMapped=.ok v →
        (exec (openPath goneConfig) goneMapped).req.pathname=some (dir++[47]) →
        Below goneTarget dir) ↔
      (goneConfig.useParentindex=true →
        RootFirst goneConfig goneMapped.sys goneTarget (str "/srv/files/a/x"))) ∧
    ∀ v,value (openPath goneConfig) goneMapped=.ok v → ∃ dir,
      (exec (openPath goneConfig) goneMapped).req.pathname=some (dir++[47]) ∧
        goneMapped.sys.openFile dir=.ok v ∧
        (dir++[47]).length ≤ (str "/srv/files/a/x").length :=
  openPath_below goneConfig goneMapped goneTarget (str "/srv/files/a/x") goneMapped_runs.2.1
    gone_below gone_closed

/-- The page for the alias is a listing of the directory above. -/
theorem openPath_aboveAlias : value (translateUri goneConfig) goneConn=1 ∧
    goneMapped.req.pathname=some (str "/srv/files/a/x") ∧
    Below goneTarget (str "/srv/files/a/x") ∧ ¬Opens goneMapped.sys (str "/srv/files/a/x") ∧
    (exec (openPath goneConfig) goneMapped).req.pathname=some (str "/srv/files"++[47]) ∧
    (∃ v,value (openPath goneConfig) goneMapped=.ok v) ∧ ¬Below goneTarget (str "/srv/files") := by
  refine ⟨goneMapped_runs.1,goneMapped_runs.2.1,gone_below,gone_closed,goneMapped_runs.2.2,?_,?_⟩
  · exact ⟨_,rfl⟩
  · rintro ⟨rest,hrest,-⟩
    have hlen := congrArg List.length hrest
    rw [List.length_append] at hlen
    have hshort : (str "/srv/files").length < (bareRoot goneTarget).length := by decide +kernel
    omega

end Crotalus
