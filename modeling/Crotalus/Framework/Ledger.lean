import Mathlib.Data.List.Basic

namespace Ledger

universe u
variable {α : Type u}

/-! A history of things that are opened and closed, and what is still held after it. -/

inductive Event (α : Type u) where
  | opened (x : α)
  | closed (x : α)
  deriving DecidableEq, Repr

section Held

variable [DecidableEq α]

/-- What is held after the events; only what is held can be closed. -/
def held : List α → List (Event α) → Option (List α)
  | xs,[] => some xs
  | xs,.opened x::es => held (x::xs) es
  | xs,.closed x::es => if x∈xs then held (xs.erase x) es else none

theorem held_append (xs : List α) (es es' : List (Event α)) :
    held xs (es++es')=(held xs es).bind fun ys => held ys es' := by
  induction es generalizing xs with
  | nil => rfl
  | cons ev es ih =>
    cases ev with
    | opened x => exact ih (x::xs)
    | closed x =>
      rw [List.cons_append,held,held]
      split
      · exact ih (xs.erase x)
      · rfl

theorem held_opened {xs ys : List α} {es : List (Event α)} (h : held xs es=some ys) (x : α) :
    held xs (es++[.opened x])=some (x::ys) := by
  rw [held_append,h]
  rfl

theorem held_closed {xs ys : List α} {es : List (Event α)} {x : α}
    (h : held xs es=some (x::ys)) : held xs (es++[.closed x])=some ys := by
  rw [held_append,h,Option.bind_some,held,if_pos List.mem_cons_self,List.erase_cons_head]
  rfl

end Held

end Ledger
