import Crotalus.Spec.Uri

namespace Crotalus

/-! `clean_pathname` as a normal form. -/

def joined (segs : List Text) : Text := Path.join slash segs

/-- What `clean_pathname` drops: every segment behind the first `/` that is empty, `.` or
`..`, but for the last one. -/
def normalForm (s : Text) : Text :=
  joined ((segments s).headD []::cleanSegments (segments s).tail)

theorem joined_segments (s : Text) : joined (segments s)=s := Path.join_segments slash s

theorem cleanPathname_eq (s : Text) : cleanPathname s=normalForm s := by
  rw [normalForm,← cleanPathname_segments,joined_segments]

theorem cleanSegments_kept_all {segs : List Text}
    (h : ∀ seg∈segs.dropLast,dropped seg=false) : cleanSegments segs=segs := by
  induction segs with
  | nil => rfl
  | cons seg segs ih =>
    by_cases hs : segs=[]
    · rw [hs]
      rfl
    · rw [List.dropLast_cons_of_ne_nil hs] at h
      rw [cleanSegments_cons hs,h seg List.mem_cons_self,if_neg Bool.false_ne_true,
        ih fun t ht => h t (List.mem_cons_of_mem seg ht)]

/-- The loop writes at most what it reads. -/
theorem cleanLoop_length (k : Nat) (b : Bool) (s : Text) : (cleanLoop k b s).length ≤ s.length := by
  induction s generalizing k b with
  | nil => simp [cleanLoop]
  | cons c s ih =>
    cases k with
    | succ k => exact Nat.le_succ_of_le (ih k b)
    | zero =>
      cases b with
      | true =>
        rw [cleanLoop]
        split_ifs
        · exact Nat.le_succ_of_le (ih 0 true)
        · exact Nat.le_succ_of_le (ih 1 true)
        · exact Nat.le_succ_of_le (ih 2 true)
        · exact Nat.succ_le_succ (ih 0 false)
      | false =>
        rw [cleanLoop]
        split_ifs
        · exact Nat.succ_le_succ (ih 0 true)
        · exact Nat.succ_le_succ (ih 0 false)

theorem cleanPathname_head (s : Text) : (cleanPathname s).head?=s.head? := by
  cases s with
  | nil => rfl
  | cons c s =>
    rw [cleanPathname,cleanLoop]
    split_ifs with hc
    · rw [hc]
      rfl
    · rfl

/-- A segment that is dropped does not stand between two `/` of the result. -/
theorem not_between {t : Text} (ht : slash∉t) (hd : dropped t=true) (s : Text) :
    ¬slash::t++[slash]<:+:cleanPathname s := by
  intro h
  have hmem := Path.segments_between slash ht h
  change t∈(segments (cleanPathname s)).tail.dropLast at hmem
  rw [cleanPathname_segments,List.tail_cons] at hmem
  rw [dropLast_cleanSegments hmem] at hd
  exact Bool.false_ne_true hd

theorem cleanPathname_again (s : Text) : cleanPathname (cleanPathname s)=cleanPathname s := by
  apply Path.segments_injective slash
  have htwice := cleanPathname_segments (cleanPathname s)
  rw [cleanPathname_segments s] at htwice
  change segments (cleanPathname (cleanPathname s))=segments (cleanPathname s)
  rw [htwice,cleanPathname_segments s,List.headD_cons,List.tail_cons,
    cleanSegments_kept_all fun seg hseg => dropLast_cleanSegments hseg]

/-- `clean_pathname` computes the normal form, which has no dropped segment left, is no longer
than its argument, starts with a `/` when that does, and is its own normal form. -/
theorem cleanPathname_normal (s : Text) :
    cleanPathname s=normalForm s ∧
      (¬str "//"<:+:cleanPathname s ∧ ¬str "/./"<:+:cleanPathname s ∧
        ¬str "/../"<:+:cleanPathname s) ∧
      (cleanPathname s).length ≤ s.length ∧
      ((cleanPathname s).head?=some slash ↔ s.head?=some slash) ∧
      cleanPathname (cleanPathname s)=cleanPathname s :=
  ⟨cleanPathname_eq s,
    ⟨not_between (t := []) (by decide) (by decide) s,
      not_between (t := [dot]) (by decide) (by decide) s,
      not_between (t := [dot,dot]) (by decide) (by decide) s⟩,
    cleanLoop_length 0 false s,by rw [cleanPathname_head],cleanPathname_again s⟩

end Crotalus
