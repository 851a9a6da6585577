import Mathlib.Data.List.Basic

namespace Fields

universe u
variable {α : Type u} (cr lf : α)

/-- Lines that each end in `cr`,`lf`, an empty one, and what follows. -/
def frame (ls : List (List α)) (body : List α) : List α :=
  ls.flatMap (· ++ [cr,lf])++cr::lf::body

variable [DecidableEq α]

/-- The lines up to the first empty one, and what follows it; `cur` has been read of a line. -/
def unframeFrom : List α → List α → Option (List (List α) × List α)
  | _,[] => none
  | _,[_] => none
  | cur,a::b::s =>
    if a=cr ∧ b=lf then
      if cur=[] then some ([],s) else (unframeFrom [] s).map fun p => (cur::p.1,p.2)
    else unframeFrom (cur++[a]) (b::s)

def unframe (s : List α) : Option (List (List α) × List α) := unframeFrom cr lf [] s

variable {cr lf} {l : List α}

theorem unframeFrom_line (hl : cr∉l) (cur s : List α) : unframeFrom cr lf cur (l++cr::lf::s)=
    if cur++l=[] then some ([],s) else (unframe cr lf s).map fun p => ((cur++l)::p.1,p.2) := by
  induction l generalizing cur with
  | nil =>
    rw [List.nil_append,unframeFrom,if_pos ⟨rfl,rfl⟩,List.append_nil]
    rfl
  | cons a l ih =>
    rw [List.mem_cons,not_or] at hl
    have hstep : unframeFrom cr lf cur (a::(l++cr::lf::s))=
        unframeFrom cr lf (cur++[a]) (l++cr::lf::s) := by
      cases l with
      | nil => rw [List.nil_append,unframeFrom,if_neg fun h => hl.1 h.1.symm]
      | cons b l => rw [List.cons_append,unframeFrom,if_neg fun h => hl.1 h.1.symm]
    rw [List.cons_append,hstep,ih hl.2,List.append_assoc,List.singleton_append]

/-- What has been framed is read back, the lines and what follows them, when no line is empty or
has a `cr` in it. -/
theorem unframe_frame {ls : List (List α)} (hls : ∀ l∈ls,l≠[] ∧ cr∉l) (body : List α) :
    unframe cr lf (frame cr lf ls body)=some (ls,body) := by
  induction ls with
  | nil => exact (unframeFrom_line (l := []) List.not_mem_nil [] body).trans (if_pos rfl)
  | cons l ls ih =>
    obtain ⟨hne,hcr⟩ := hls l List.mem_cons_self
    have hsplit : frame cr lf (l::ls) body=l++cr::lf::frame cr lf ls body := by
      simp [frame,List.flatMap_cons]
    rw [hsplit,unframe,unframeFrom_line hcr,List.nil_append,if_neg hne,
      ih fun l' hl' => hls l' (List.mem_cons_of_mem l hl')]
    rfl

end Fields
