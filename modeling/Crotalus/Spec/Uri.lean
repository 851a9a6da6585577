import Crotalus.Server.Uri
import Crotalus.Framework.Path

namespace Crotalus

/-! `clean_pathname`, segment by segment. -/

def slash : Byte := 47
def dot : Byte := 46

def segments (s : Text) : List Text := Path.segments slash s

/-- Segments that are dropped when a `/` follows. -/
def dropped (seg : Text) : Bool := seg = [] || seg = [dot] || seg = [dot, dot]

/-- All segments but the last lose the dropped ones. -/
def cleanSegments : List Text → List Text
  | [] => []
  | [seg] => [seg]
  | seg :: segs => if dropped seg then cleanSegments segs else seg :: cleanSegments segs

theorem cleanSegments_cons {seg : Text} {segs : List Text} (h : segs ≠ []) :
    cleanSegments (seg :: segs) =
      if dropped seg then cleanSegments segs else seg :: cleanSegments segs := by
  cases segs with
  | nil => exact absurd rfl h
  | cons s ss => rfl

theorem segments_ne (s : Text) : segments s ≠ [] := Path.segments_ne slash s

theorem segments_slash (s : Text) : segments (slash :: s) = [] :: segments s :=
  Path.segments_sep slash s

theorem segments_cons {c : Byte} (h : c ≠ slash) (s : Text) :
    segments (c :: s) = (c :: (segments s).headD []) :: (segments s).tail :=
  Path.segments_cons slash h s

theorem dropped_iff (seg : Text) :
    dropped seg = true ↔ seg = [] ∨ seg = [dot] ∨ seg = [dot, dot] := by
  simp [dropped, or_assoc]

theorem segments_eta (s : Text) : (segments s).headD [] :: (segments s).tail = segments s :=
  Path.segments_eta slash s

/-- A piece the loop does not drop, and the pieces behind it. -/
theorem cleanSegments_kept {c : Byte} {s : Text} (hc : c ≠ slash)
    (h1 : ¬(c = dot ∧ s.take 1 = [slash])) (h2 : ¬(c = dot ∧ s.take 2 = [dot, slash])) :
    cleanSegments (segments (c :: s)) =
      (c :: (segments s).headD []) :: cleanSegments (segments s).tail := by
  rw [segments_cons hc]
  by_cases ht : (segments s).tail = []
  · rw [ht]
    rfl
  · have htake := Path.take_segments slash (segments_eta s).symm ht
    rw [cleanSegments_cons ht]
    have hkeep : ¬dropped (c :: (segments s).headD []) = true := by
      rw [dropped_iff]
      rintro (h | h | h)
      · exact List.cons_ne_nil _ _ h
      · obtain ⟨hdot, hnil⟩ := List.cons.inj h
        rw [hnil] at htake
        exact h1 ⟨hdot, htake⟩
      · obtain ⟨hdot, hnil⟩ := List.cons.inj h
        rw [hnil] at htake
        exact h2 ⟨hdot, htake⟩
    rw [if_neg hkeep]

/-- The loop behind a `/`, and the loop inside a segment. -/
theorem cleanLoop_segments (n : Nat) (s : Text) (hn : s.length ≤ n) :
    segments (cleanLoop 0 true s) = cleanSegments (segments s) ∧
      segments (cleanLoop 0 false s) =
        (segments s).headD [] :: cleanSegments (segments s).tail := by
  induction n generalizing s with
  | zero =>
    rw [List.eq_nil_of_length_eq_zero (Nat.le_zero.mp hn)]
    exact ⟨rfl, rfl⟩
  | succ n ih =>
    match s with
    | [] => exact ⟨rfl, rfl⟩
    | c :: s =>
      obtain ⟨htrue, hfalse⟩ := ih s (Nat.le_of_succ_le_succ hn)
      have hdrop : ∀ k, k ≤ s.length →
          segments (cleanLoop 0 true (s.drop k)) = cleanSegments (segments (s.drop k)) := by
        intro k hk
        refine (ih (s.drop k) ?_).1
        rw [List.length_drop]
        have := Nat.le_of_succ_le_succ hn
        omega
      by_cases hc : c = slash
      · rw [hc, segments_slash, cleanSegments_cons (segments_ne s)]
        exact ⟨htrue, by
          have hrun : cleanLoop 0 false (slash :: s) = slash :: cleanLoop 0 true s := rfl
          rw [hrun, segments_slash, htrue]
          rfl⟩
      · have hc' : ¬c = 47 := hc
        constructor
        · by_cases h1 : c = dot ∧ s.take 1 = [slash]
          · obtain ⟨rfl, h1⟩ := h1
            obtain ⟨s', rfl⟩ : ∃ s', s = slash :: s' := by
              match s, h1 with
              | b :: s', h1 => exact ⟨s', by rw [(List.cons.inj h1).1]⟩
            have hclean : cleanSegments (segments (dot :: slash :: s')) =
                cleanSegments (segments s') := by
              rw [segments_cons hc, segments_slash]
              exact cleanSegments_cons (segments_ne s')
            have hrun : cleanLoop 0 true (dot :: slash :: s') = cleanLoop 0 true s' := rfl
            rw [hclean, hrun]
            exact hdrop 1 (Nat.le_add_left 1 _)
          · by_cases h2 : c = dot ∧ s.take 2 = [dot, slash]
            · obtain ⟨rfl, h2⟩ := h2
              obtain ⟨s', rfl⟩ : ∃ s', s = dot :: slash :: s' := by
                match s, h2 with
                | b :: b' :: s', h2 =>
                  obtain ⟨hb, hb'⟩ := List.cons.inj h2
                  exact ⟨s', by rw [hb, (List.cons.inj hb').1]⟩
              have hclean : cleanSegments (segments (dot :: dot :: slash :: s')) =
                  cleanSegments (segments s') := by
                rw [segments_cons hc, segments_cons hc, segments_slash]
                exact cleanSegments_cons (segments_ne s')
              have hrun : cleanLoop 0 true (dot :: dot :: slash :: s') = cleanLoop 0 true s' :=
                rfl
              rw [hclean, hrun]
              exact hdrop 2 (Nat.le_add_left 2 _)
            · have h1' : ¬(c = 46 ∧ s.take 1 = [47]) := h1
              have h2' : ¬(c = 46 ∧ s.take 2 = [46, 47]) := h2
              have hrun : cleanLoop 0 true (c :: s) = c :: cleanLoop 0 false s := by
                simp only [cleanLoop, if_neg hc', if_neg h1', if_neg h2']
              rw [hrun, segments_cons hc, hfalse, cleanSegments_kept hc h1 h2]
              rfl
        · have hrun : cleanLoop 0 false (c :: s) = c :: cleanLoop 0 false s := by
            simp only [cleanLoop, if_neg hc']
          rw [hrun, segments_cons hc, segments_cons hc, hfalse]
          rfl

theorem cleanPathname_segments (s : Text) :
    segments (cleanPathname s) = (segments s).headD [] :: cleanSegments (segments s).tail :=
  (cleanLoop_segments s.length s (Nat.le_refl _)).2

/-- The last segment is never dropped. -/
theorem getLast_cleanSegments (segs : List Text) :
    (cleanSegments segs).getLast? = segs.getLast? := by
  induction segs with
  | nil => rfl
  | cons seg segs ih =>
    by_cases h : segs = []
    · rw [h]
      rfl
    · rw [cleanSegments_cons h]
      obtain ⟨s, ss, hs⟩ := List.exists_cons_of_ne_nil h
      have hne : cleanSegments segs ≠ [] := by
        intro hnil
        rw [hnil, hs, List.getLast?_cons] at ih
        cases ih
      obtain ⟨t, ts, ht⟩ := List.exists_cons_of_ne_nil hne
      split
      · rw [ih, hs]
        simp
      · rw [ht] at ih ⊢
        rw [hs] at ih ⊢
        simpa using ih

/-- Only the last segment can be one that is dropped elsewhere. -/
theorem mem_cleanSegments {segs : List Text} {seg : Text} (h : seg ∈ cleanSegments segs) :
    dropped seg = false ∨ segs.getLast? = some seg := by
  induction segs with
  | nil => cases h
  | cons s segs ih =>
    by_cases hs : segs = []
    · rw [hs] at h ⊢
      exact .inr (by rw [List.mem_singleton.mp h]; rfl)
    · rw [cleanSegments_cons hs] at h
      obtain ⟨t, ts, ht⟩ := List.exists_cons_of_ne_nil hs
      have hlast : (s :: segs).getLast? = segs.getLast? := by
        rw [ht]
        simp
      rw [hlast]
      split at h
      · exact ih h
      · rename_i hkeep
        rcases List.mem_cons.mp h with rfl | h
        · exact .inl (Bool.eq_false_iff.mpr hkeep)
        · exact ih h

theorem dropLast_cleanSegments {segs : List Text} {seg : Text}
    (h : seg ∈ (cleanSegments segs).dropLast) : dropped seg = false := by
  induction segs with
  | nil => cases h
  | cons s segs ih =>
    by_cases hs : segs = []
    · rw [hs] at h
      cases h
    · rw [cleanSegments_cons hs] at h
      split at h
      · exact ih h
      · rename_i hkeep
        cases hc : cleanSegments segs with
        | nil =>
          rw [hc] at h
          cases h
        | cons t ts =>
          rw [hc, List.dropLast_cons_of_ne_nil (List.cons_ne_nil t ts)] at h
          rcases List.mem_cons.mp h with rfl | h
          · exact Bool.eq_false_iff.mpr hkeep
          · exact ih (hc ▸ h)

end Crotalus
