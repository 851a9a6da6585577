import Mathlib.Data.List.Basic

namespace Lines

/-! Texts as lines and as words. -/

universe u
variable {α : Type u}

/-- A text up to its first character of a kind. -/
theorem first_split (p : α → Bool) (s : List α) : (∀ x∈s,p x=false) ∨
    ∃ a c b,s=a++c::b ∧ (∀ x∈a,p x=false) ∧ p c=true := by
  induction s with
  | nil => exact .inl fun x hx => absurd hx List.not_mem_nil
  | cons c s ih =>
    cases hc : p c with
    | true => exact .inr ⟨[],c,s,rfl,fun x hx => absurd hx List.not_mem_nil,hc⟩
    | false =>
      rcases ih with hall|⟨a,d,b,rfl,ha,hd⟩
      · exact .inl (List.forall_mem_cons.mpr ⟨hc,hall⟩)
      · exact .inr ⟨c::a,d,b,rfl,List.forall_mem_cons.mpr ⟨hc,ha⟩,hd⟩

/-- There is one such place. -/
theorem first_unique {p : α → Bool} {a b a' b' : List α} {c c' : α} (h : a++c::b=a'++c'::b')
    (ha : ∀ x∈a,p x=false) (ha' : ∀ x∈a',p x=false) (hc : p c=true) (hc' : p c'=true) :
    a=a' ∧ c=c' ∧ b=b' := by
  induction a generalizing a' with
  | nil =>
    cases a' with
    | nil =>
      rw [List.nil_append,List.nil_append,List.cons.injEq] at h
      exact ⟨rfl,h⟩
    | cons x a' =>
      rw [List.nil_append,List.cons_append,List.cons.injEq] at h
      rw [h.1,ha' x List.mem_cons_self] at hc
      cases hc
  | cons x a ih =>
    cases a' with
    | nil =>
      rw [List.nil_append,List.cons_append,List.cons.injEq] at h
      rw [← h.1,ha x List.mem_cons_self] at hc'
      cases hc'
    | cons y a' =>
      rw [List.cons_append,List.cons_append,List.cons.injEq] at h
      rw [List.forall_mem_cons] at ha ha'
      obtain ⟨rfl,hrest⟩ := ih h.2 ha.2 ha'.2
      exact ⟨by rw [h.1],hrest⟩

/-- What a character stops is read up to it. -/
theorem takeWhile_stop {p : α → Bool} {c : α} (hc : p c=false) (a b : List α) :
    (a++c::b).takeWhile p=a.takeWhile p := by
  induction a with
  | nil => rw [List.nil_append,List.takeWhile_cons_of_neg (by rw [hc]; decide),List.takeWhile_nil]
  | cons x a ih => rw [List.cons_append,List.takeWhile_cons,List.takeWhile_cons,ih]

section Split

variable [DecidableEq α] (nl : α)

/-- The lines of a text, each with the character that ends it. -/
def split : List α → List (List α)
  | [] => []
  | b::bs =>
    if b=nl then [b]::split bs
    else
      match split bs with
      | [] => [[b]]
      | l::ls => (b::l)::ls

variable {nl} {l t : List α}

/-- A line with its end, and the rest of the text. -/
theorem split_line (h : nl∉l) (t : List α) : split nl (l++nl::t)=(l++[nl])::split nl t := by
  induction l with
  | nil => rw [List.nil_append,split,if_pos rfl]; rfl
  | cons b l ih =>
    rw [List.mem_cons,not_or] at h
    rw [List.cons_append,split,if_neg (Ne.symm h.1),ih h.2]
    rfl

/-- The last line may lack its end. -/
theorem split_last (h : nl∉l) (hne : l≠[]) : split nl l=[l] := by
  induction l with
  | nil => exact absurd rfl hne
  | cons b l ih =>
    rw [List.mem_cons,not_or] at h
    rw [split,if_neg (Ne.symm h.1)]
    by_cases hl : l=[]
    · subst hl
      rfl
    · rw [ih h.2 hl]

/-- A text is empty, one line without an end, or a line and a text. -/
theorem cases_line (nl : α) (t : List α) :
    t=[] ∨ (nl∉t ∧ t≠[]) ∨ ∃ l u,nl∉l ∧ t=l++nl::u := by
  by_cases hmem : nl∈t
  · obtain ⟨l,u,rfl,hl⟩ := List.eq_append_cons_of_mem hmem
    exact .inr (.inr ⟨l,u,hl,rfl⟩)
  · by_cases hnil : t=[]
    · exact .inl hnil
    · exact .inr (.inl ⟨hmem,hnil⟩)

end Split

section Words

variable (sep : α → Bool)

/-- The words of a text: what is between separators and not empty. -/
def words (t : List α) : List (List α) := (t.splitOnP sep).filter fun w => !w.isEmpty

variable {sep} {c : α} {w : List α}

theorem words_nil : words sep []=[] := rfl

theorem words_sep (hc : sep c=true) (t : List α) : words sep (c::t)=words sep t := by
  have hsplit := List.splitOnP_append_cons [] t hc
  rw [List.nil_append] at hsplit
  rw [words,hsplit]
  rfl

theorem words_last (hw : ∀ b∈w,sep b=false) (hne : w≠[]) : words sep w=[w] := by
  rw [words,List.splitOnP_eq_singleton hw,List.filter_cons_of_pos (by simpa using hne),
    List.filter_nil]

/-- A word, what ends it, and the rest of the text. -/
theorem words_word (hw : ∀ b∈w,sep b=false) (hne : w≠[]) (hc : sep c=true) (t : List α) :
    words sep (w++c::t)=w::words sep t := by
  rw [words,List.splitOnP_append_cons w t hc,List.filter_append]
  exact congrArg (·++words sep t) (words_last hw hne)

/-- The first word of a text that starts with one. -/
theorem first_word {x : α} (hx : sep x=false) (t : List α) :
    ∃ w,(∀ b∈x::w,sep b=false) ∧ (t=w ∧ words sep (x::t)=[x::w] ∨
      ∃ c u,sep c=true ∧ t=w++c::u ∧ words sep (x::t)=(x::w)::words sep u) := by
  rcases first_split sep t with hall|⟨w,c,u,rfl,hw,hc⟩
  · have hword : ∀ b∈x::t,sep b=false := List.forall_mem_cons.mpr ⟨hx,hall⟩
    exact ⟨t,hword,.inl ⟨rfl,words_last hword (List.cons_ne_nil x t)⟩⟩
  · have hword : ∀ b∈x::w,sep b=false := List.forall_mem_cons.mpr ⟨hx,hw⟩
    exact ⟨w,hword,.inr ⟨c,u,hc,rfl,words_word hword (List.cons_ne_nil x w) hc u⟩⟩

/-- A text without words holds separators only. -/
theorem sep_of_words_nil {t : List α} (h : words sep t=[]) : ∀ b∈t,sep b=true := by
  induction t with
  | nil => exact fun b hb => absurd hb List.not_mem_nil
  | cons x t ih =>
    cases hx : sep x with
    | true =>
      rw [words_sep hx] at h
      exact List.forall_mem_cons.mpr ⟨hx,ih h⟩
    | false =>
      obtain ⟨w,-,⟨-,hwords⟩|⟨c,u,-,-,hwords⟩⟩ := first_word hx t
      · rw [hwords] at h
        cases h
      · rw [hwords] at h
        cases h

end Words

end Lines
