import Crotalus.Spec.ReadWalk

namespace Crotalus

open Stateful

/-! The way to the choice of a handler when it does not end in an error page: then no part of
it writes. -/

/-- Whenever the program returns a good value, it has gone from a state to one that `R`
relates. -/
def Succeeds {α : Type} (good : α → Prop) (R : Conn → Conn → Prop) (m : Srv α) : Prop :=
  ∀ c, good (value m c) → R c (exec m c)

/-- `R` does not look at what the way to a handler fills in. -/
structure Locates (R : Conn → Conn → Prop) : Prop extends Fills R where
  script (m : Nat → Byte) : Rel R (setScriptPath m)
  line {f : Request → Request} (h : ∀ r, (f r).unread = r.unread) : Rel R (modReq f)

section Rules

variable {R : Conn → Conn → Prop} {α β : Type} {good : α → Prop}

theorem Succeeds.of_rel {m : Srv α} (h : Rel R m) : Succeeds good R m := fun c _ => h c

theorem Succeeds.fails {m : Srv β} {a : α} (h : ¬good a) :
    Succeeds good R (m >>= fun _ => Pure.pure a) := fun _ hv => absurd hv h

theorem Succeeds.refuses {a : α} (h : ¬good a) : Succeeds good R (Pure.pure a : Srv α) :=
  fun _ hv => absurd hv h

theorem Fills.granted (h : Fills R) (a : α) : Succeeds good R (Pure.pure a : Srv α) :=
  .of_rel (h.pure a)

theorem Fills.after (h : Fills R) {m : Srv β} {f : β → Srv α} (hm : Rel R m)
    (hf : ∀ b, Succeeds good R (f b)) : Succeeds good R (m >>= f) :=
  fun c hv => h.trans (hm c) (hf _ _ hv)

theorem readReq_succeeds {f : Request → Srv α} (hf : ∀ r, Succeeds good R (f r)) :
    Succeeds good R (getReq >>= f) := fun c => hf c.req c

theorem Succeeds.read {f : Conn → Srv α} (hf : ∀ c, Succeeds good R (f c)) :
    Succeeds good R (get >>= f) := fun c => hf c c

/-- A call that may fail, and what follows its success. -/
theorem Fills.asking (h : Fills R) {good' : β → Prop} {m : Srv β} {f : β → Srv α}
    (hm : Succeeds good' R m) (hbad : ∀ b, ¬good' b → Succeeds good (fun _ _ => False) (f b))
    (hf : ∀ b, good' b → Succeeds good R (f b)) : Succeeds good R (m >>= f) := by
  intro c hv
  by_cases hb : good' (value m c)
  · exact h.trans (hm c hb) (hf _ hb _ hv)
  · exact (hbad _ hb _ hv).elim

end Rules

section Prepare

variable {e : Config} {R : Conn → Conn → Prop}

theorem badRequest_fails : Succeeds (· = true) R (badRequest e) := .fails (by decide)

theorem decodeUri_succeeds (h : Fills R) : Succeeds (· = true) R (decodeUri e) := by
  refine readReq_succeeds fun r => ?_
  split
  · exact badRequest_fails
  · refine h.after (h.set fun _ => rfl) fun _ => ?_
    split
    · exact badRequest_fails
    · exact h.granted _

theorem chooseHost_succeeds (h : Locates R) : Succeeds (· = true) R (chooseHost e) := by
  unfold chooseHost
  split
  · exact h.granted _
  · refine readReq_succeeds fun r => h.after h.alloc fun _ => ?_
    split
    · refine h.after (h.line fun _ => rfl) fun _ => ?_
      split
      · exact badRequest_fails
      · exact h.granted _
    · exact .fails (by decide)

theorem setTranslated_succeeds (h : Fills R) (t : Text) :
    Succeeds (· = true) R (setTranslated e t) := by
  refine h.after h.alloc fun _ => ?_
  split
  · exact h.after (h.set fun _ => rfl) fun _ => h.granted _
  · exact .fails (by decide)

theorem translatePathInfo_succeeds (h : Fills R) (p : Text) :
    Succeeds (· = true) R (translatePathInfo e p) := by
  unfold translatePathInfo
  split
  · split
    · exact .fails (by decide)
    · exact setTranslated_succeeds h _
  · split
    · split
      · exact setTranslated_succeeds h _
      · exact .fails (by decide)
    · exact setTranslated_succeeds h _
    · exact h.granted _

theorem takePathname_succeeds (h : Fills R) : Succeeds (· ≠ 0) R (takePathname e) := by
  refine h.after h.alloc fun _ => ?_
  split
  · exact .read fun c => h.after (h.set fun _ => rfl) fun _ => h.granted _
  · exact .fails (by decide)

theorem scriptAtEnd_succeeds (h : Fills R) : Succeeds (· ≠ 0) R (scriptAtEnd e) := by
  refine .read fun c => ?_
  dsimp only
  split
  · exact .fails (by decide)
  · split
    · exact takePathname_succeeds h
    · exact .fails (by decide)

theorem scriptAtSlash_succeeds (h : Locates R) (i : Nat) :
    Succeeds (· ≠ 0) R (scriptAtSlash e i) := by
  have hf := h.toFills
  refine .read fun c => h.after h.alloc fun _ => ?_
  split
  · refine h.after (h.set fun _ => rfl) fun _ => h.after (h.script _) fun _ => ?_
    refine h.asking (translatePathInfo_succeeds hf _) (fun b hb => ?_) fun b hb => ?_
    · rw [if_neg hb]
      exact .refuses (by decide)
    · rw [if_pos hb]
      exact takePathname_succeeds hf
  · exact .fails (by decide)

theorem initScriptAlias_succeeds (h : Locates R) (a : Alias) :
    Succeeds (· ≠ 0) R (initScriptAlias e a) := by
  refine .read fun c => ?_
  dsimp only
  split
  · exact .fails (by decide)
  · refine h.after (h.set fun _ => rfl) fun _ => h.after (h.script _) fun _ => ?_
    split
    · exact .fails (by decide)
    · exact .fails (by decide)
    · refine h.after h.alloc fun _ => ?_
      split
      · exact h.after (h.set fun _ => rfl) fun _ => scriptAtSlash_succeeds h _
      · exact .fails (by decide)
    · refine h.after h.alloc fun _ => ?_
      split
      · exact h.after (h.set fun _ => rfl) fun _ => scriptAtEnd_succeeds h.toFills
      · exact .fails (by decide)

theorem refusePost_succeeds {good : Srv Int} (hok : Succeeds (· ≠ 0) R good) :
    Succeeds (· ≠ 0) R (refusePost e good) := by
  refine readReq_succeeds fun r => ?_
  split
  · exact .fails (by decide)
  · exact hok

theorem usePath_succeeds (h : Fills R) (path : Text) {good : Srv Int}
    (hok : Succeeds (· ≠ 0) R good) : Succeeds (· ≠ 0) R (usePath e path good) := by
  refine h.after h.alloc fun _ => ?_
  split
  · exact h.after (h.set fun _ => rfl) fun _ => hok
  · exact .fails (by decide)

theorem translateAlias_succeeds (h : Fills R) (a : Alias) :
    Succeeds (· ≠ 0) R (translateAlias e a) := by
  refine readReq_succeeds fun r => ?_
  dsimp only
  split
  · exact .fails (by decide)
  · split
    · exact refusePost_succeeds (.fails (by decide))
    · exact usePath_succeeds h _ (h.granted _)

theorem translateUri_succeeds (h : Locates R) : Succeeds (· ≠ 0) R (translateUri e) := by
  refine readReq_succeeds fun r => ?_
  split
  · exact .fails (by decide)
  · split
    · split
      · exact initScriptAlias_succeeds h _
      · exact translateAlias_succeeds h.toFills _
    · split
      · exact .fails (by decide)
      · exact .fails (by decide)
      · split
        · exact .fails (by decide)
        · exact usePath_succeeds h.toFills _ (refusePost_succeeds (h.granted _))

/-- A request that gets a handler has had no answer yet. -/
theorem prepareRequest_succeeds (h : Locates R) : Succeeds (· = true) R (prepareRequest e) := by
  refine readReq_succeeds fun r => ?_
  split
  · exact .fails (by decide)
  refine h.asking (decodeUri_succeeds h.toFills) (fun b hb => ?_) fun b hb => ?_
  · rw [if_neg hb]
    exact .refuses (by decide)
  rw [if_pos hb]
  refine h.asking (chooseHost_succeeds h) (fun b hb => ?_) fun b hb => ?_
  · rw [if_neg hb]
    exact .refuses (by decide)
  rw [if_pos hb]
  refine h.asking (translateUri_succeeds h) (fun b hb => ?_) fun b hb => ?_
  · rw [if_pos (not_not.mp hb)]
    exact .fails (by decide)
  · rw [if_neg hb]
    exact h.granted _

end Prepare

end Crotalus
