import Mathlib.Data.List.Basic

namespace Path

universe u
variable {β : Type u} [DecidableEq β]

/-- The pieces of a path between its separators. -/
def segments (sep : β) : List β → List (List β)
  | [] => [[]]
  | c::s =>
    if c = sep then []::segments sep s
    else (c::(segments sep s).headD [])::(segments sep s).tail

section Segments

variable (sep : β)

theorem segments_ne (s : List β) : segments sep s≠[] := by
  cases s with
  | nil => exact List.cons_ne_nil _ _
  | cons c s =>
    unfold segments
    split <;> exact List.cons_ne_nil _ _

theorem segments_sep (s : List β) : segments sep (sep::s) = []::segments sep s := by
  simp [segments]

theorem segments_cons {c : β} (h : c≠sep) (s : List β) :
    segments sep (c::s) = (c::(segments sep s).headD [])::(segments sep s).tail := by
  simp [segments,h]

theorem segments_eta (s : List β) :
    (segments sep s).headD []::(segments sep s).tail = segments sep s := by
  obtain ⟨x,xs,h⟩ := List.exists_cons_of_ne_nil (segments_ne sep s)
  rw [h]
  rfl

/-- Joining two strings joins the last piece of one and the first of the other. -/
theorem segments_append (a b : List β) :
    segments sep (a++b) = (segments sep a).dropLast++
      ((segments sep a).getLastD []++(segments sep b).headD [])::(segments sep b).tail := by
  induction a with
  | nil => exact (segments_eta sep b).symm
  | cons c a ih =>
    obtain ⟨x,xs,h⟩ := List.exists_cons_of_ne_nil (segments_ne sep a)
    by_cases hc : c = sep
    · rw [hc,List.cons_append,segments_sep,segments_sep,ih,h]
      simp
    · rw [List.cons_append,segments_cons sep hc,segments_cons sep hc,ih,h]
      cases xs with
      | nil => simp
      | cons y ys => simp

theorem segments_append_sep (a b : List β) :
    segments sep (a++sep::b) = segments sep a++segments sep b := by
  obtain ⟨xs,x,h⟩ : ∃ xs x, segments sep a = xs++[x] :=
    ⟨_,_,(List.dropLast_append_getLast (segments_ne sep a)).symm⟩
  rw [segments_append,segments_sep,h]
  simp

/-- Behind a piece that is not the last one there is a separator. -/
theorem take_segments {s h : List β} {t : List (List β)} (hs : segments sep s = h::t)
    (ht : t≠[]) : s.take (h.length+1) = h++[sep] := by
  induction s generalizing h with
  | nil =>
    rw [segments,List.cons.injEq] at hs
    exact absurd hs.2.symm ht
  | cons c s ih =>
    by_cases hc : c = sep
    · rw [hc,segments_sep,List.cons.injEq] at hs
      rw [hc,← hs.1]
      rfl
    · rw [segments_cons sep hc,List.cons.injEq] at hs
      have hrest : segments sep s = (segments sep s).headD []::t := by
        rw [← hs.2,segments_eta]
      rw [← hs.1,List.length_cons,List.take_succ_cons,ih hrest,List.cons_append]

theorem sep_notMem_segments {s seg : List β} (h : seg∈segments sep s) : sep∉seg := by
  induction s generalizing seg with
  | nil =>
    rw [segments,List.mem_singleton] at h
    rw [h]
    exact List.not_mem_nil
  | cons c s ih =>
    by_cases hc : c = sep
    · rw [hc,segments_sep] at h
      rcases List.mem_cons.mp h with rfl|h
      · exact List.not_mem_nil
      · exact ih h
    · rw [segments_cons sep hc] at h
      rw [← segments_eta] at ih
      rcases List.mem_cons.mp h with rfl|h
      · intro hmem
        rcases List.mem_cons.mp hmem with rfl|hmem
        · exact hc rfl
        · exact ih (List.mem_cons_self ..) hmem
      · exact ih (List.mem_cons_of_mem _ h)

/-- The pieces with a separator between each two. -/
def join : List (List β) → List β
  | [] => []
  | [seg] => seg
  | seg::segs => seg++sep::join segs

theorem join_cons {seg : List β} {segs : List (List β)} (h : segs≠[]) :
    join sep (seg::segs) = seg++sep::join sep segs := by
  cases segs with
  | nil => exact absurd rfl h
  | cons t ts => rfl

theorem join_segments (s : List β) : join sep (segments sep s) = s := by
  induction s with
  | nil => rfl
  | cons c s ih =>
    by_cases hc : c = sep
    · rw [hc,segments_sep,join_cons sep (segments_ne sep s),ih]
      rfl
    · rw [segments_cons sep hc]
      rw [← segments_eta] at ih
      by_cases ht : (segments sep s).tail = []
      · rw [ht] at ih ⊢
        exact congrArg (List.cons c) ih
      · rw [join_cons sep ht] at ih ⊢
        exact congrArg (List.cons c) ih

/-- A path is determined by its pieces. -/
theorem segments_injective {s t : List β} (h : segments sep s = segments sep t) : s = t := by
  rw [← join_segments sep s,h,join_segments]

theorem segments_plain {s : List β} (h : sep∉s) : segments sep s = [s] := by
  induction s with
  | nil => rfl
  | cons c s ih =>
    have hc : c≠sep := fun heq => h (heq ▸ List.mem_cons_self)
    rw [segments_cons sep hc,ih fun hs => h (List.mem_cons_of_mem c hs)]
    rfl

/-- A piece between two separators is neither the first nor the last. -/
theorem segments_between {s seg : List β} (hseg : sep∉seg) (h : sep::seg++[sep]<:+:s) :
    seg∈(segments sep s).tail.dropLast := by
  obtain ⟨a,b,rfl⟩ := h
  have hsplit : a++(sep::seg++[sep])++b = a++sep::(seg++sep::b) := by simp
  rw [hsplit,segments_append_sep,segments_append_sep,segments_plain sep hseg]
  obtain ⟨x,xs,ha⟩ := List.exists_cons_of_ne_nil (segments_ne sep a)
  rw [ha,List.cons_append,List.tail_cons,
    List.dropLast_append_of_ne_nil (List.append_ne_nil_of_left_ne_nil (List.cons_ne_nil _ _) _),
    List.dropLast_append_of_ne_nil (segments_ne sep b)]
  exact List.mem_append_right _ (List.mem_append_left _ List.mem_cons_self)

end Segments

/-! Lexical normalisation: empty segments and `.` name nothing, `..` leaves a directory. -/

section Normal

variable (sep dot : β)

def descend (d : List (List β)) (seg : List β) : List (List β) :=
  if seg = [] ∨ seg = [dot] then d
  else if seg = [dot,dot] then d.dropLast
  else d++[seg]

def walk (d : List (List β)) (segs : List (List β)) : List (List β) :=
  segs.foldl (descend dot) d

def normal (path : List β) : List (List β) := walk dot [] (segments sep path)

/-- The normal form of `path` goes on from that of `root`. -/
def Inside (root path : List β) : Prop := normal sep dot root<+:normal sep dot path

instance (root path : List β) : Decidable (Inside sep dot root path) := by
  unfold Inside
  infer_instance

variable {sep dot} {d : List (List β)} {segs segs' : List (List β)}

theorem walk_append : walk dot d (segs++segs') = walk dot (walk dot d segs) segs' :=
  List.foldl_append

theorem descend_down {seg : List β} (h : seg≠[dot,dot]) : d<+:descend dot d seg := by
  unfold descend
  split_ifs
  · exact List.prefix_rfl
  · exact List.prefix_append _ _

/-- Without `..` the walk only goes down. -/
theorem walk_down (h : ∀ seg∈segs,seg≠[dot,dot]) : d<+:walk dot d segs := by
  induction segs generalizing d with
  | nil => exact List.prefix_rfl
  | cons seg segs ih =>
    have hseg := descend_down (d := d) (h seg (List.mem_cons_self ..))
    exact hseg.trans (ih fun s hs => h s (List.mem_cons_of_mem _ hs))

theorem inside_refl (root : List β) : Inside sep dot root root := List.prefix_rfl

/-- Behind a separator a path without `..` stays inside. -/
theorem inside_sep {root rest : List β} (h : ∀ seg∈segments sep rest,seg≠[dot,dot]) :
    Inside sep dot root (root++sep::rest) := by
  unfold Inside normal
  rw [segments_append_sep,walk_append]
  exact walk_down h

/-- Does what is written directly behind `root`, as the rest of its last segment, stay
inside? -/
def Joins (sep dot : β) (root rest : List β) : Prop :=
  (segments sep root).getLastD [] = [] ∨ (segments sep root).getLastD [] = [dot,dot] ∨
    ((segments sep root).getLastD [] = [dot] ∧
      ((segments sep rest).headD []≠[dot] ∨ walk dot [] (segments sep root).dropLast = []))

instance (root rest : List β) : Decidable (Joins sep dot root rest) := by
  unfold Joins
  infer_instance

theorem descend_push {seg : List β} (h1 : seg≠[]) (h2 : seg≠[dot]) (h3 : seg≠[dot,dot]) :
    descend dot d seg = d++[seg] := by
  unfold descend
  rw [if_neg (not_or.mpr ⟨h1,h2⟩),if_neg h3]

theorem inside_join_iff {root rest h : List β} {t : List (List β)}
    (hrest : segments sep rest = h::t) (hne : h≠[]) (hup : ∀ seg∈h::t,seg≠[dot,dot])
    (hdot : h = [dot] → t = []) :
    Inside sep dot root (root++rest) ↔ Joins sep dot root rest := by
  obtain ⟨init,last,hroot⟩ : ∃ init last, segments sep root = init++[last] :=
    ⟨_,_,(List.dropLast_append_getLast (segments_ne sep root)).symm⟩
  have htail : ∀ seg∈t,seg≠[dot,dot] := fun seg hs => hup seg (List.mem_cons_of_mem _ hs)
  have hlast : (segments sep root).getLastD [] = last := by rw [hroot]; simp
  have hinit : (segments sep root).dropLast = init := by rw [hroot]; simp
  have hnormal : normal sep dot root = descend dot (walk dot [] init) last := by
    rw [normal,hroot,walk_append]
    rfl
  have hpath : normal sep dot (root++rest) =
      walk dot (descend dot (walk dot [] init) (last++h)) t := by
    rw [normal,segments_append,hinit,hlast,hrest,walk_append]
    rfl
  unfold Inside Joins
  rw [hnormal,hpath,hlast,hinit]
  generalize walk dot [] init = d
  by_cases hempty : last = []
  · rw [hempty,List.nil_append]
    have hd : descend dot d [] = d := if_pos (.inl rfl)
    rw [hd]
    exact ⟨fun _ => .inl rfl,fun _ =>
      (descend_down (hup h (List.mem_cons_self ..))).trans (walk_down htail)⟩
  by_cases hdd : last = [dot,dot]
  · have hlong : (last++h).length = h.length+2 := by
      rw [hdd,List.length_append]
      exact Nat.add_comm _ _
    have hpos : 0<h.length := List.length_pos_iff.mpr hne
    have hpush : descend dot d (last++h) = d++[last++h] := by
      refine descend_push ?_ ?_ ?_ <;> intro hc <;> rw [hc] at hlong <;>
        simp only [List.length_nil,List.length_cons] at hlong <;> omega
    have hd : descend dot d last = d.dropLast := by
      unfold descend
      rw [if_neg (by rw [hdd]; simp),if_pos hdd]
    rw [hpush,hd]
    refine ⟨fun _ => .inr (.inl hdd),fun _ => ?_⟩
    exact ((List.dropLast_prefix d).trans (List.prefix_append _ _)).trans (walk_down htail)
  by_cases hone : last = [dot]
  · have hd : descend dot d last = d := if_pos (.inr hone)
    rw [hd]
    have hhead : (h::t).headD [] = h := rfl
    rw [hrest,hhead]
    by_cases hh : h = [dot]
    · have hup' : descend dot d (last++h) = d.dropLast := by
        unfold descend
        have htwo : [dot]++[dot] = [dot,dot] := rfl
        rw [hone,hh,if_neg (by simp),if_pos htwo]
      rw [hup',hdot hh]
      have hwalk : walk dot d.dropLast [] = d.dropLast := rfl
      rw [hwalk]
      constructor
      · intro hp
        have hlen := hp.length_le
        rw [List.length_dropLast] at hlen
        exact .inr (.inr ⟨hone,.inr (List.eq_nil_of_length_eq_zero (by omega))⟩)
      · rintro (hc|hc|⟨-,hc|hc⟩)
        · exact absurd hc hempty
        · exact absurd hc hdd
        · exact absurd hh hc
        · rw [hc]
          exact List.nil_prefix
    · refine ⟨fun _ => .inr (.inr ⟨hone,.inl hh⟩),fun _ => ?_⟩
      refine (descend_down ?_).trans (walk_down htail)
      rw [hone]
      exact fun hc => hh (List.cons.inj hc).2
  · have hpush : descend dot d last = d++[last] := descend_push hempty hone hdd
    have hfirst : ∀ seg : List β,last++h = seg → seg.length≤2 → (∀ b∈seg,b = dot) → False := by
      intro seg hseg hlen hall
      obtain ⟨b,bs,hb⟩ := List.exists_cons_of_ne_nil hempty
      obtain ⟨b',bs',hb'⟩ := List.exists_cons_of_ne_nil hne
      rw [← hseg,hb,hb'] at hlen hall
      have hbs : bs = [] := by
        rw [List.length_append,List.length_cons,List.length_cons] at hlen
        exact List.eq_nil_of_length_eq_zero (by omega)
      have hbdot : b = dot := hall b (List.mem_cons_self ..)
      exact hone (by rw [hb,hbs,hbdot])
    have hpush' : descend dot d (last++h) = d++[last++h] := by
      refine descend_push (fun hc => hfirst _ hc ?_ ?_) (fun hc => hfirst _ hc ?_ ?_)
        (fun hc => hfirst _ hc ?_ ?_) <;> simp
    rw [hpush,hpush']
    constructor
    · intro hp
      have hq : d++[last++h]<+:walk dot (d++[last++h]) t := walk_down htail
      have heq : d++[last] = d++[last++h] := by
        refine List.IsPrefix.eq_of_length (List.prefix_of_prefix_length_le hp hq ?_) ?_ <;> simp
      have hlen := congrArg List.length (List.cons.inj (List.append_cancel_left heq)).1
      rw [List.length_append] at hlen
      have hpos : 0<h.length := List.length_pos_iff.mpr hne
      omega
    · rintro (hc|hc|⟨hc,-⟩)
      · exact absurd hc hempty
      · exact absurd hc hdd
      · exact absurd hc hone

end Normal

end Path
