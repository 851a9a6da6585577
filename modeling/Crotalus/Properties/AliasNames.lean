import Crotalus.Properties.AliasTable

namespace Crotalus

/-! The names in the alias table. -/

/-- The slot an entry belongs to. -/
def Alias.slot (a : Alias) : Nat := getAliasHashValue a.fakename

/-- The entry at the end of the chain that a name belongs to. -/
def Settings.lastOfSlot (s : Settings) (a : Alias) : Option Alias :=
  (s.aliasHashtable a.slot).getLast?

/-- No two entries have the same name. -/
def NamesUnique (s : Settings) : Prop :=
  ∀ (i m j n : Nat) (a b : Alias),(s.aliasHashtable i)[m]?=some a →
    (s.aliasHashtable j)[n]?=some b → a.fakename=b.fakename → i=j ∧ m=n

/-- The chains of `s` are there in `t`, in their order, with later entries behind them. -/
def ChainsKept (s t : Settings) : Prop :=
  ∀ i,s.aliasHashtable i<+:t.aliasHashtable i

/-- Whatever is entered after `done`, the names stay unique, the entries stay in place, and
each name asked for is there. -/
def AliasesKept (s : Settings) (calls : List Alias) : Prop :=
  ∀ done more rest,calls=done++more++rest → ∃ t u,s.addAliases done=some t ∧
    s.addAliases (done++more)=some u ∧ NamesUnique u ∧ ChainsKept t u ∧
    ∀ a∈done++more,∃ b∈u.aliasHashtable a.slot,b.fakename=a.fakename

/-- The entries in their own slots, and no name twice in a slot. -/
structure NamesOnce (s : Settings) : Prop where
  slots : ∀ i,∀ a∈s.aliasHashtable i,a.slot=i
  once : ∀ i,((s.aliasHashtable i).map Alias.fakename).Nodup

theorem NamesOnce.unique {s : Settings} (h : NamesOnce s) : NamesUnique s := by
  intro i m j n a b ha hb hname
  have hslot : i=j := by
    rw [← h.slots i a (List.mem_of_getElem? ha),← h.slots j b (List.mem_of_getElem? hb),
      Alias.slot,Alias.slot,hname]
  subst hslot
  refine ⟨rfl,?_⟩
  have hm : ((s.aliasHashtable i).map Alias.fakename)[m]?=some a.fakename := by
    rw [List.getElem?_map,ha,Option.map_some]
  have hn : ((s.aliasHashtable i).map Alias.fakename)[n]?=some a.fakename := by
    rw [List.getElem?_map,hb,Option.map_some,hname]
  obtain ⟨hlt,-⟩ := List.getElem?_eq_some_iff.mp hm
  exact (List.getElem?_inj hlt (h.once i)).mp (hm.trans hn.symm)

/-! One call. -/

/-- The chain with one more entry. -/
def Settings.pushAlias (s : Settings) (a : Alias) : Settings :=
  { s with aliasHashtable :=
      Function.update s.aliasHashtable a.slot (s.aliasHashtable a.slot++[a]) }

/-- A call finds its name in front of the last entry, or enters it. -/
theorem addAlias_cases (s : Settings) {a : Alias} (h : a.fakename≠[] ∧ a.realname≠[]) :
    ((∃ b∈(s.aliasHashtable a.slot).dropLast,b.fakename=a.fakename) ∧
      s.addAlias (some a.fakename) (some a.realname) a.type=some s) ∨
    ((∀ b∈(s.aliasHashtable a.slot).dropLast,b.fakename≠a.fakename) ∧
      s.addAlias (some a.fakename) (some a.realname) a.type=some (s.pushAlias a)) := by
  simp only [Settings.addAlias,Option.bind_eq_bind,Option.bind_some]
  rw [if_neg (not_or.mpr h)]
  by_cases hagain : (s.aliasHashtable (getAliasHashValue a.fakename)).dropLast.any
      (fun b => b.fakename=a.fakename)=true
  · left
    rw [if_pos hagain]
    obtain ⟨b,hb,hname⟩ := List.any_eq_true.mp hagain
    exact ⟨⟨b,hb,of_decide_eq_true hname⟩,rfl⟩
  · right
    rw [if_neg hagain]
    refine ⟨fun b hb hname => hagain ?_,rfl⟩
    exact List.any_eq_true.mpr ⟨b,hb,decide_eq_true hname⟩

theorem mem_chain {s : Settings} {a b : Alias} (hb : b∈s.aliasHashtable a.slot) :
    b∈(s.aliasHashtable a.slot).dropLast ∨ s.lastOfSlot a=some b := by
  rcases List.eq_nil_or_concat' (s.aliasHashtable a.slot) with hnil|⟨front,c,heq⟩
  · rw [hnil] at hb
    exact absurd hb List.not_mem_nil
  · rw [Settings.lastOfSlot,heq,List.dropLast_concat,List.getLast?_concat]
    rw [heq,List.mem_append,List.mem_singleton] at hb
    exact hb.imp id fun h => congrArg some h.symm

@[simp] theorem pushAlias_same (s : Settings) (a : Alias) :
    (s.pushAlias a).aliasHashtable a.slot=s.aliasHashtable a.slot++[a] := Function.update_self ..

theorem pushAlias_other {s : Settings} {a : Alias} {i : Nat} (h : i≠a.slot) :
    (s.pushAlias a).aliasHashtable i=s.aliasHashtable i := Function.update_of_ne h ..

theorem chainsKept_push (s : Settings) (a : Alias) : ChainsKept s (s.pushAlias a) := by
  intro i
  by_cases hi : i=a.slot
  · subst hi
    rw [pushAlias_same]
    exact List.prefix_append _ _
  · exact ⟨[],(List.append_nil _).trans (pushAlias_other hi).symm⟩

/-- A name that is nowhere in its chain stays unique when it is entered. -/
theorem namesOnce_push {s : Settings} (h : NamesOnce s) {a : Alias}
    (hnew : ∀ b∈s.aliasHashtable a.slot,b.fakename≠a.fakename) : NamesOnce (s.pushAlias a) where
  slots i b hb := by
    by_cases hi : i=a.slot
    · subst hi
      rw [pushAlias_same,List.mem_append,List.mem_singleton] at hb
      rcases hb with hb|rfl
      · exact h.slots _ b hb
      · rfl
    · rw [pushAlias_other hi] at hb
      exact h.slots i b hb
  once i := by
    by_cases hi : i=a.slot
    · subst hi
      rw [pushAlias_same,List.map_append,List.map_singleton,List.nodup_append]
      refine ⟨h.once _,List.pairwise_singleton ..,fun name hname c hc heq => ?_⟩
      obtain ⟨b,hb,rfl⟩ := List.mem_map.mp hname
      rw [List.mem_singleton.mp hc] at heq
      exact hnew b hb heq
    · rw [pushAlias_other hi]
      exact h.once i

/-! A run. -/

/-- No call names the entry at the end of its chain. -/
def LastNotNamed (s : Settings) (calls : List Alias) : Prop :=
  ∀ done a rest t,calls=done++a::rest → s.addAliases done=some t →
    ∀ b∈t.lastOfSlot a,b.fakename≠a.fakename

theorem addAliases_append (s : Settings) (calls later : List Alias) :
    s.addAliases (calls++later)=(s.addAliases calls).bind (·.addAliases later) :=
  List.foldlM_append

theorem addAliases_cons (s : Settings) (a : Alias) (calls : List Alias) :
    s.addAliases (a::calls)=
      (s.addAlias (some a.fakename) (some a.realname) a.type).bind (·.addAliases calls) := rfl

/-- Every run goes through, keeps the chains, and leaves the names it was asked for. -/
theorem addAliases_keeps (s : Settings) {calls : List Alias}
    (h : ∀ a∈calls,a.fakename≠[] ∧ a.realname≠[]) :
    ∃ t,s.addAliases calls=some t ∧ ChainsKept s t ∧
      ∀ a∈calls,∃ b∈t.aliasHashtable a.slot,b.fakename=a.fakename := by
  induction calls generalizing s with
  | nil => exact ⟨s,rfl,fun _ => List.prefix_rfl,fun a ha => absurd ha List.not_mem_nil⟩
  | cons a calls ih =>
    have hlater : ∀ b∈calls,b.fakename≠[] ∧ b.realname≠[] :=
      fun b hb => h b (List.mem_cons_of_mem a hb)
    rcases addAlias_cases s (h a List.mem_cons_self) with ⟨⟨b,hb,hname⟩,hadd⟩|⟨-,hadd⟩
    · obtain ⟨t,ht,hkept,hall⟩ := ih s hlater
      refine ⟨t,by rw [addAliases_cons,hadd]; exact ht,hkept,?_⟩
      rw [List.forall_mem_cons]
      exact ⟨⟨b,(hkept _).subset (List.dropLast_subset _ hb),hname⟩,hall⟩
    · obtain ⟨t,ht,hkept,hall⟩ := ih (s.pushAlias a) hlater
      refine ⟨t,by rw [addAliases_cons,hadd]; exact ht,
        fun i => (chainsKept_push s a i).trans (hkept i),?_⟩
      rw [List.forall_mem_cons]
      refine ⟨⟨a,(hkept _).subset ?_,rfl⟩,hall⟩
      rw [pushAlias_same]
      exact List.mem_append_right _ (List.mem_singleton_self a)

theorem addAlias_once {s t : Settings} {a : Alias} (h : a.fakename≠[] ∧ a.realname≠[])
    (hs : NamesOnce s) (hlast : ∀ b∈s.lastOfSlot a,b.fakename≠a.fakename)
    (hadd : s.addAlias (some a.fakename) (some a.realname) a.type=some t) : NamesOnce t := by
  rcases addAlias_cases s h with ⟨-,heq⟩|⟨hfront,heq⟩
  · rw [heq] at hadd
    exact Option.some.inj hadd ▸ hs
  · rw [heq] at hadd
    obtain rfl := Option.some.inj hadd
    exact namesOnce_push hs fun b hb => (mem_chain hb).elim (hfront b) (hlast b)

theorem addAliases_once {s t : Settings} {calls : List Alias}
    (h : ∀ a∈calls,a.fakename≠[] ∧ a.realname≠[]) (hs : NamesOnce s)
    (hlast : LastNotNamed s calls) (hadd : s.addAliases calls=some t) : NamesOnce t := by
  induction calls generalizing s with
  | nil => exact Option.some.inj hadd ▸ hs
  | cons a calls ih =>
    rw [addAliases_cons,Option.bind_eq_some_iff] at hadd
    obtain ⟨u,hu,hadd⟩ := hadd
    have hu' := addAlias_once (h a List.mem_cons_self) hs (hlast [] a calls s rfl rfl) hu
    refine ih (fun b hb => h b (List.mem_cons_of_mem a hb)) hu' ?_ hadd
    intro done b rest t' hcalls hdone
    refine hlast (a::done) b rest t' (by rw [hcalls]; rfl) ?_
    rw [addAliases_cons,hu]
    exact hdone

/-- A call that names the last entry of its chain enters the name again. -/
theorem addAlias_again {s t : Settings} {a b : Alias} (h : a.fakename≠[] ∧ a.realname≠[])
    (hs : NamesUnique s) (hb : s.lastOfSlot a=some b) (hname : b.fakename=a.fakename)
    (hadd : s.addAlias (some a.fakename) (some a.realname) a.type=some t) : ¬NamesUnique t := by
  obtain ⟨front,hchain⟩ := List.getLast?_eq_some_iff.mp hb
  rcases addAlias_cases s h with ⟨⟨c,hc,hcname⟩,-⟩|⟨-,heq⟩
  · -- the name is in front of the last entry, too
    rw [hchain,List.dropLast_concat] at hc
    obtain ⟨m,hm⟩ := List.getElem?_of_mem hc
    obtain ⟨hlt,-⟩ := List.getElem?_eq_some_iff.mp hm
    have hfirst : (s.aliasHashtable a.slot)[m]?=some c := by
      rw [hchain,List.getElem?_append_left hlt,hm]
    have hlast : (s.aliasHashtable a.slot)[front.length]?=some b := by
      rw [hchain,List.getElem?_concat_length]
    have hsame := (hs _ _ _ _ c b hfirst hlast (hcname.trans hname.symm)).2
    omega
  · rw [heq] at hadd
    obtain rfl := Option.some.inj hadd
    intro ht
    have hlast : ((s.pushAlias a).aliasHashtable a.slot)[front.length]?=some b := by
      rw [pushAlias_same,hchain,List.append_assoc,List.getElem?_append_right (Nat.le_refl _),
        Nat.sub_self]
      rfl
    have hpushed : ((s.pushAlias a).aliasHashtable a.slot)[front.length+1]?=some a := by
      rw [pushAlias_same,hchain,List.append_assoc,List.getElem?_append_right (by omega),
        Nat.add_sub_cancel_left]
      rfl
    have hsame := (ht _ _ _ _ b a hlast hpushed hname).2
    omega

/-- The names of a table that starts out empty stay unique, and no entry is lost or moved,
exactly when no call names the entry at the end of its chain. -/
theorem aliases_unique_iff (s : Settings) (calls : List Alias)
    (hempty : s.aliasHashtable=fun _ => [])
    (hnames : ∀ a∈calls,a.fakename≠[] ∧ a.realname≠[]) :
    AliasesKept s calls ↔ LastNotNamed s calls := by
  constructor
  · intro hkept done a rest t hcalls ht b hb hname
    obtain ⟨t',u,ht',hu,huniq,-,-⟩ := hkept done [a] rest (by rw [hcalls]; simp)
    obtain ⟨t₂,u₂,ht₂,hu₂,huniq',-,-⟩ := hkept done [] (a::rest) (by rw [hcalls]; simp)
    rw [List.append_nil,ht] at hu₂
    obtain rfl := Option.some.inj hu₂
    rw [addAliases_append,ht,Option.bind_some,addAliases_cons,Option.bind_eq_some_iff] at hu
    obtain ⟨v,hv,hu⟩ := hu
    obtain rfl := Option.some.inj hu
    exact addAlias_again (hnames a (by rw [hcalls]; simp)) huniq' hb hname hv huniq
  · intro hlast done more rest hcalls
    have hmem : ∀ a∈done++more,a.fakename≠[] ∧ a.realname≠[] :=
      fun a ha => hnames a (by rw [hcalls]; exact List.mem_append_left _ ha)
    obtain ⟨t,ht,-,-⟩ := addAliases_keeps s fun a ha => hmem a (List.mem_append_left _ ha)
    obtain ⟨u,hu,hgrown,-⟩ := addAliases_keeps t fun a ha => hmem a (List.mem_append_right _ ha)
    have hall : s.addAliases (done++more)=some u := by
      rw [addAliases_append,ht]
      exact hu
    obtain ⟨u',hu',-,hthere⟩ := addAliases_keeps s hmem
    rw [hall] at hu'
    obtain rfl := Option.some.inj hu'
    refine ⟨t,u,ht,hall,?_,hgrown,hthere⟩
    have hstart : NamesOnce s := by
      constructor <;> intro i <;> rw [hempty]
      · exact fun a ha => absurd ha List.not_mem_nil
      · exact List.nodup_nil
    refine (addAliases_once hmem hstart ?_ hall).unique
    intro pre a post t' hsplit
    exact hlast pre a (post++rest) t' (by rw [hcalls,hsplit]; simp)

theorem aliases_unique_three : let calls := [Alias.mk (str "/a") (str "/x") .alias,
      ⟨str "/b",str "/y",.alias⟩,⟨str "/a/b",str "/z",.alias⟩]
    AliasesKept bareSettings calls ↔ LastNotNamed bareSettings calls :=
  aliases_unique_iff bareSettings _ rfl (by decide)

/-- One name for two places. -/
def aliasTwice : List Alias := [⟨str "/a",str "/x",.alias⟩,⟨str "/a",str "/y",.alias⟩]

/-- The last entry of a chain is not compared with the name. -/
theorem aliases_twice :
    (bareSettings.addAliases aliasTwice).map
      (fun s => s.aliasHashtable (getAliasHashValue (str "/a")))=some aliasTwice ∧
    ¬AliasesKept bareSettings aliasTwice := by
  have htable : (bareSettings.addAliases aliasTwice).map
      (fun s => s.aliasHashtable (getAliasHashValue (str "/a")))=some aliasTwice := by decide
  refine ⟨htable,fun hkept => ?_⟩
  obtain ⟨t,u,-,hu,huniq,-,-⟩ := hkept [] aliasTwice [] (List.append_nil _).symm
  rw [List.nil_append] at hu
  rw [hu,Option.map_some,Option.some.injEq] at htable
  have hsame := huniq (getAliasHashValue (str "/a")) 0 (getAliasHashValue (str "/a")) 1
    ⟨str "/a",str "/x",.alias⟩ ⟨str "/a",str "/y",.alias⟩ (by rw [htable]; rfl)
    (by rw [htable]; rfl) rfl
  exact absurd hsame.2 (by decide)

end Crotalus
