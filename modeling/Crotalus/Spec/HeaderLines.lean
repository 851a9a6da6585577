import Crotalus.Server.Read

namespace Crotalus

/-! The lines of a header, and the automaton that finds them. -/

/-- The lines of `s` that are complete, without the LF that ends each. -/
def completeLines : List Byte → List (List Byte)
  | [] => []
  | b :: s =>
    if b = 10 then [] :: completeLines s
    else
      match completeLines s with
      | [] => []
      | l :: ls => (b :: l) :: ls

/-- A line without the CRs directly before its LF. -/
def strip (l : List Byte) : Text := l.rdropWhile (· = 13)

/-- The line that ends a header has nothing but CRs. -/
def isBlank (l : List Byte) : Bool := l.all (· = 13)

def untilBlank (ls : List (List Byte)) : List Text :=
  (ls.takeWhile fun l => !isBlank l).map strip

/-- The lines of a header. Its first one is the request line, blank or not. -/
def headerLines (first : Bool) : List (List Byte) → List Text
  | [] => []
  | l :: ls => if first then strip l :: untilBlank ls else untilBlank (l :: ls)

/-- Is the blank line there? -/
def headerComplete (first : Bool) : List (List Byte) → Bool
  | [] => false
  | l :: ls => if first then ls.any isBlank else (l :: ls).any isBlank

theorem completeLines_line {l : List Byte} (h : 10 ∉ l) (s : List Byte) :
    completeLines (l ++ 10 :: s) = l :: completeLines s := by
  induction l with
  | nil => rfl
  | cons b l ih =>
    rw [List.mem_cons, not_or] at h
    rw [List.cons_append, completeLines, if_neg (Ne.symm h.1), ih h.2]

theorem completeLines_none {l : List Byte} (h : 10 ∉ l) : completeLines l = [] := by
  induction l with
  | nil => rfl
  | cons b l ih =>
    rw [List.mem_cons, not_or] at h
    rw [completeLines, if_neg (Ne.symm h.1), ih h.2]

theorem headerLines_false (ls : List (List Byte)) : headerLines false ls = untilBlank ls := by
  cases ls with
  | nil => rfl
  | cons l ls => rfl

theorem headerComplete_false (ls : List (List Byte)) :
    headerComplete false ls = ls.any isBlank := by
  cases ls with
  | nil => rfl
  | cons l ls => rfl

/-- A line that does not end the header is one of its lines. -/
theorem headerLines_line {first : Bool} {l : List Byte} (h : first = true ∨ isBlank l = false)
    (ls : List (List Byte)) :
    headerLines first (l :: ls) = strip l :: headerLines false ls ∧
      headerComplete first (l :: ls) = headerComplete false ls := by
  rw [headerLines_false, headerComplete_false]
  cases first with
  | true => exact ⟨rfl, rfl⟩
  | false =>
    have hl := h.resolve_left Bool.false_ne_true
    constructor
    · rw [headerLines_false, untilBlank, List.takeWhile_cons, hl]
      rfl
    · rw [headerComplete_false, List.any_cons, hl, Bool.false_or]

theorem headerLines_blank {l : List Byte} (h : isBlank l = true) (ls : List (List Byte)) :
    headerLines false (l :: ls) = [] ∧ headerComplete false (l :: ls) = true := by
  constructor
  · rw [headerLines_false, untilBlank, List.takeWhile_cons, h]
    rfl
  · rw [headerComplete_false, List.any_cons, h, Bool.true_or]

theorem strip_start (l : List Byte) : strip l <+: l := List.rdropWhile_prefix _ l

theorem strip_cr (l : List Byte) : strip (l ++ [13]) = strip l :=
  List.rdropWhile_concat_pos _ l 13 (by decide)

theorem strip_self {l : List Byte} (h : l.getLast? ≠ some 13) : strip l = l := by
  rw [strip, List.rdropWhile_eq_self_iff]
  intro hne hcr
  rw [List.getLast?_eq_some_getLast hne] at h
  exact h (congrArg some (of_decide_eq_true hcr))

theorem firstLine_strip {l : List Byte} (h : 10 ∉ l) : firstLine (strip l) = strip l := by
  have hself : (strip l).takeWhile (· ≠ 10) = strip l := by
    rw [List.takeWhile_eq_self_iff]
    intro b hb
    have hmem : b ∈ l := (strip_start l).subset hb
    exact decide_eq_true fun h10 => h (h10 ▸ hmem)
  rw [firstLine, hself, strip, List.rdropWhile_idempotent]

/-- The status of the reading behind the bytes `cur` of an incomplete line. -/
def lineStatus (first : Bool) (cur : List Byte) : Status :=
  if first = false ∧ isBlank cur then (if cur = [] then .oneLf else .twoCr)
  else if cur.getLast? = some 13 then .oneCr
  else .readHeader

theorem isBlank_concat (l : List Byte) (b : Byte) :
    isBlank (l ++ [b]) = (isBlank l && decide (b = 13)) := by
  rw [isBlank, List.all_append, List.all_cons, List.all_nil, Bool.and_true]
  rfl

theorem lineStatus_concat (first : Bool) (cur : List Byte) (uc : Byte) :
    lineStatus first (cur ++ [uc]) =
      if (first = false ∧ isBlank cur) ∧ uc = 13 then .twoCr
      else if uc = 13 then .oneCr
      else .readHeader := by
  have hne : cur ++ [uc] ≠ [] := List.append_ne_nil_of_right_ne_nil cur (List.cons_ne_nil uc [])
  simp only [lineStatus, isBlank_concat, List.getLast?_concat, if_neg hne, Bool.and_eq_true,
    decide_eq_true_eq, Option.some.injEq, and_assoc]

theorem headerStatus_byte {uc : Byte} (h : uc ≠ 10) (first : Bool) (cur : List Byte) :
    headerStatus (lineStatus first cur) uc = lineStatus first (cur ++ [uc]) := by
  rw [lineStatus_concat, lineStatus]
  by_cases hblank : first = false ∧ isBlank cur = true
  · by_cases hnil : cur = []
    · subst hnil
      by_cases hcr : uc = 13 <;> simp [headerStatus, hblank.1, isBlank, hcr, h]
    · by_cases hcr : uc = 13 <;> simp [headerStatus, hblank, hnil, hcr, h]
  · by_cases hlast : cur.getLast? = some 13
    · by_cases hcr : uc = 13 <;> simp [headerStatus, hblank, hlast, hcr, h]
    · by_cases hcr : uc = 13 <;> simp [headerStatus, hblank, hlast, hcr, h]

theorem headerStatus_lf (first : Bool) (cur : List Byte) :
    headerStatus (lineStatus first cur) 10 =
      if first = false ∧ isBlank cur then .bodyRead else .oneLf := by
  unfold lineStatus
  split
  · split <;> rfl
  · split <;> rfl

end Crotalus
