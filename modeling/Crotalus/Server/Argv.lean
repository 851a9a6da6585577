import Crotalus.Framework.NullArray
import Crotalus.Server.Uri

namespace Crotalus

/-! The arguments of a CGI program: `create_argv`. -/

/-- `CGI_ARGC_MAX`. -/
def cgiArgcMax : Nat := 128

/-- The word in front of the first `+`, and what is behind it. -/
def cutWord : Text → Text × Option Text
  | [] => ([], none)
  | c :: q => if c = 43 then ([], some q) else (c :: (cutWord q).1, (cutWord q).2)

theorem cutWord_length (q : Text) : ∀ rest ∈ (cutWord q).2, rest.length < q.length := by
  induction q with
  | nil => exact fun rest h => (by cases h)
  | cons c q ih =>
    intro rest h
    rw [cutWord] at h
    by_cases hc : c = 43
    · rw [if_pos hc] at h
      cases h
      exact Nat.lt_succ_self _
    · rw [if_neg hc] at h
      exact Nat.lt_succ_of_lt (ih rest h)

/-- One turn of the loop, which passes over a word that `unescape_uri` refuses. -/
def putWord (aargv : Nat → Option Text) (aargc : Nat) (r : Text) : (Nat → Option Text) × Nat :=
  match unescapeUri r with
  | none => (aargv, aargc)
  | some (arg, _) => (NullArray.put aargv aargc (some arg), aargc + 1)

/-- The loop, and the null pointer behind it. -/
def argvLoop (aargv : Nat → Option Text) (aargc : Nat) (q : Option Text) : Nat → Option Text :=
  match q with
  | none => NullArray.put aargv aargc none
  | some w =>
    if aargc < cgiArgcMax then
      argvLoop (putWord aargv aargc (cutWord w).1).1 (putWord aargv aargc (cutWord w).1).2
        (cutWord w).2
    else NullArray.put aargv aargc none
termination_by q.elim 0 fun w => w.length + 1
decreasing_by
  cases hrest : (cutWord w).2 with
  | none => simp
  | some rest => simpa using cutWord_length w rest hrest

/-- `aargv` is the array before the call. -/
def createArgv (pathname : Text) (queryString : Option Text) (aargv : Nat → Option Text) :
    Nat → Option Text :=
  match queryString with
  | none => NullArray.put (NullArray.put aargv 0 (some pathname)) 1 none
  | some q =>
    if 61 ∈ q then NullArray.put (NullArray.put aargv 0 (some pathname)) 1 none
    else argvLoop (NullArray.put aargv 0 (some pathname)) 1 (some q)

end Crotalus
