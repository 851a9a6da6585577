import Mathlib.Data.List.TakeWhile
import Crotalus.Spec.CgiHeader

namespace Crotalus

open Stateful ByteMem

/-! The header block of a text: its lines up to the first blank one. -/

/-- The length of the header block: up to the first blank line, that included. -/
def headLength : Text → Option Nat
  | [] => none
  | b :: s =>
    if startsWith (b :: s) [10, 10] then some 2
    else if startsWith (b :: s) [10, 13, 10] then some 3
    else (headLength s).map (· + 1)

/-- A blank line starts at `i`, and the bytes behind it at `b`. -/
inductive BlankAt (s : Text) (i b : Nat) : Prop where
  | lf (h : startsWith (s.drop i) [10, 10] = true) (hb : b = i + 2) : BlankAt s i b
  | crlf (h : startsWith (s.drop i) [10, 13, 10] = true) (hb : b = i + 3) : BlankAt s i b

section Blank

variable {s out : Text} {i b : Nat}

theorem headLength_blank (h : headLength s = some b) : ∃ i, BlankAt s i b := by
  induction s generalizing b with
  | nil => exact nomatch h
  | cons a s ih =>
    rw [headLength] at h
    split at h
    · rename_i hlf
      cases h
      exact ⟨0, .lf hlf rfl⟩
    · split at h
      · rename_i hcrlf
        cases h
        exact ⟨0, .crlf hcrlf rfl⟩
      · obtain ⟨b', hb', rfl⟩ := Option.map_eq_some_iff.mp h
        obtain ⟨i, hi⟩ := ih hb'
        cases hi with
        | lf h hb => exact ⟨i + 1, .lf h (by omega)⟩
        | crlf h hb => exact ⟨i + 1, .crlf h (by omega)⟩

/-- No blank line ends before. -/
theorem headLength_first (h : BlankAt s i b) : ∃ b' ≤ b, headLength s = some b' := by
  induction s generalizing i b with
  | nil => cases h <;> simp [startsWith] at *
  | cons a s ih =>
    rw [headLength]
    split
    · refine ⟨2, ?_, rfl⟩
      cases h <;> omega
    · rename_i hlf
      split
      · rename_i hcrlf
        refine ⟨3, ?_, rfl⟩
        cases h with
        | crlf h hb => omega
        | lf h hb =>
          cases i with
          | zero => exact absurd h hlf
          | succ i => omega
      · rename_i hcrlf
        cases i with
        | zero =>
          cases h with
          | lf h hb => exact absurd h hlf
          | crlf h hb => exact absurd h hcrlf
        | succ i =>
          have hrest : BlankAt s i (b - 1) := by
            cases h with
            | lf h hb => exact .lf h (by omega)
            | crlf h hb => exact .crlf h (by omega)
          have hpos : 0 < b := by cases h <;> omega
          obtain ⟨b', hle, hb'⟩ := ih hrest
          exact ⟨b' + 1, by omega, by rw [hb']; rfl⟩

theorem startsWith_within {pat : Text} (hp : out <+: s) (hi : i + pat.length ≤ out.length) :
    startsWith (s.drop i) pat = startsWith (out.drop i) pat := by
  obtain ⟨t, rfl⟩ := hp
  have htake : ((out ++ t).drop i).take pat.length = (out.drop i).take pat.length := by
    rw [List.drop_append_of_le_length (by omega), List.take_append_of_le_length]
    rw [List.length_drop]
    omega
  unfold startsWith
  rw [htake]

theorem BlankAt.le (h : BlankAt s i b) : b ≤ s.length := by
  cases h with
  | lf h hb =>
    have hlen := length_le_of_startsWith h
    rw [List.length_drop] at hlen
    simp only [List.length_cons, List.length_nil] at hlen
    omega
  | crlf h hb =>
    have hlen := length_le_of_startsWith h
    rw [List.length_drop] at hlen
    simp only [List.length_cons, List.length_nil] at hlen
    omega

theorem BlankAt.extend (hp : out <+: s) (h : BlankAt out i b) : BlankAt s i b := by
  have hle := h.le
  cases h with
  | lf h hb => exact .lf (by rw [startsWith_within hp (by simpa [← hb] using hle), h]) hb
  | crlf h hb => exact .crlf (by rw [startsWith_within hp (by simpa [← hb] using hle), h]) hb

/-- What the two searches of `process_cgi_header` find is a blank line. -/
theorem blankLine_blank (h : blankLine out = some i) :
    BlankAt out i (i + 3) ∧ out[i + 1]? = some 13 ∨
      BlankAt out i (i + 2) ∧ out[i + 1]? = some 10 ∧ strstr [10, 13, 10] out = none := by
  unfold blankLine at h
  cases hcr : strstr [10, 13, 10] out with
  | some j =>
    rw [hcr] at h
    cases h
    have hstr := strstr_some hcr
    exact .inl ⟨.crlf hstr rfl, getElem?_of_startsWith (j := 1) hstr (by decide)⟩
  | none =>
    rw [hcr, Option.none_or] at h
    have hstr := strstr_some h
    exact .inr ⟨.lf hstr rfl, getElem?_of_startsWith (j := 1) hstr (by decide), rfl⟩

theorem blankLine_of_blank (h : BlankAt s i b) : ∃ j, blankLine s = some j := by
  unfold blankLine
  cases hcr : strstr [10, 13, 10] s with
  | some j => exact ⟨j, rfl⟩
  | none =>
    rw [Option.none_or]
    cases hlf : strstr [10, 10] s with
    | some j => exact ⟨j, rfl⟩
    | none =>
      cases h with
      | lf h =>
        rw [strstr_none hlf] at h
        cases h
      | crlf h =>
        rw [strstr_none hcr] at h
        cases h

/-- The cut is one byte before the end of the blank line that was found, and never behind the
first one: its last LF would have been found as the start of another. -/
theorem cut_ne (hp : out <+: s) (h : blankLine out = some i) (hb : headLength s = some b) :
    (if out[i + 1]? = some 13 then i + 2 else i + 1) ≠ b := by
  have hat : ∀ j, j < out.length → s[j]? = out[j]? := by
    intro j hj
    obtain ⟨t, rfl⟩ := hp
    exact List.getElem?_append_left hj
  have hlf := blankLine_lf h
  have hle := blankLine_le h
  obtain ⟨k, hk⟩ := headLength_blank hb
  intro heq
  rcases blankLine_blank h with ⟨-, h13⟩ | ⟨-, h10, hno⟩
  · rw [if_pos h13] at heq
    cases hk with
    | lf hk hkb =>
      have h1 := getElem?_of_startsWith hk (j := 1) (by decide)
      rw [hat _ (by omega), show k + 1 = i + 1 by omega, h13] at h1
      exact absurd h1 (by decide)
    | crlf hk hkb =>
      have h1 := getElem?_of_startsWith hk (j := 1) (by decide)
      rw [hat _ (by omega), show k + 1 = i by omega, hlf] at h1
      exact absurd h1 (by decide)
  · rw [h10, if_neg (by decide)] at heq
    cases hk with
    | lf hk hkb =>
      have hfirst : startsWith (out.drop k) [10, 10] = true := by
        rw [← startsWith_within hp (by simp only [List.length_cons, List.length_nil]; omega), hk]
      unfold blankLine at h
      rw [hno, Option.none_or] at h
      rw [strstr_first h (by omega)] at hfirst
      cases hfirst
    | crlf hk hkb =>
      have hfirst : startsWith (out.drop k) [10, 13, 10] = true := by
        rw [← startsWith_within hp (by simp only [List.length_cons, List.length_nil]; omega), hk]
      rw [strstr_none hno] at hfirst
      cases hfirst

/-- A string that holds a blank line and ends with the first one is all there is. -/
theorem blank_all (hp : out <+: s) (h : BlankAt out i b) (hs : headLength s = some s.length) :
    out = s := by
  obtain ⟨b', hle, hb'⟩ := headLength_first (h.extend hp)
  have hlen := h.le
  have hall : b' = s.length := Option.some.inj (hb'.symm.trans hs)
  exact hp.eq_of_length_le (by omega)

end Blank

section Blocks

variable {s out : Text} {i j k b : Nat}

theorem BlankAt.within (hp : out<+:s) (hle : b ≤ out.length) (h : BlankAt s i b) :
    BlankAt out i b := by
  cases h with
  | lf h hb =>
    refine .lf ?_ hb
    rw [← startsWith_within hp (by simp only [List.length_cons,List.length_nil]; omega),h]
  | crlf h hb =>
    refine .crlf ?_ hb
    rw [← startsWith_within hp (by simp only [List.length_cons,List.length_nil]; omega),h]

theorem BlankAt.pos (h : BlankAt s i b) : i+2 ≤ b := by
  cases h with
  | lf h hb => omega
  | crlf h hb => omega

/-- More text behind the header block does not change it. -/
theorem headLength_extend (hp : out<+:s) (h : headLength out=some b) : headLength s=some b := by
  obtain ⟨i,hi⟩ := headLength_blank h
  have hlen := hi.le
  obtain ⟨b',hle,hb'⟩ := headLength_first (hi.extend hp)
  obtain ⟨i',hi'⟩ := headLength_blank hb'
  obtain ⟨b'',hle',hb''⟩ := headLength_first (hi'.within hp (by omega))
  have heq : b''=b := Option.some.inj (hb''.symm.trans h)
  have hall : b'=b := by omega
  exact hall ▸ hb'

theorem headLength_within (hp : out<+:s) (h : headLength s=some b) (hle : b ≤ out.length) :
    headLength out=some b := by
  obtain ⟨i,hi⟩ := headLength_blank h
  obtain ⟨b',-,hb'⟩ := headLength_first (hi.within hp hle)
  have heq : b'=b := Option.some.inj ((headLength_extend hp hb').symm.trans h)
  exact heq ▸ hb'

theorem blankAt_drop : BlankAt (s.drop j) i b ↔ BlankAt s (j+i) (j+b) := by
  constructor
  · intro h
    cases h with
    | lf h hb => exact .lf (by rw [← List.drop_drop,h]) (by omega)
    | crlf h hb => exact .crlf (by rw [← List.drop_drop,h]) (by omega)
  · intro h
    cases h with
    | lf h hb => exact .lf (by rw [List.drop_drop,h]) (by omega)
    | crlf h hb => exact .crlf (by rw [List.drop_drop,h]) (by omega)

/-- Less text in front of the blank line does not change where it is. -/
theorem headLength_drop (h : headLength s=some b) (hk : BlankAt s k b) (hj : j ≤ k) :
    headLength (s.drop j)=some (b-j) := by
  have hlt := hk.pos
  have hshift : BlankAt (s.drop j) (k-j) (b-j) := by
    rw [blankAt_drop,Nat.add_sub_cancel' hj,Nat.add_sub_cancel' (by omega)]
    exact hk
  obtain ⟨b',hle,hb'⟩ := headLength_first hshift
  obtain ⟨i,hi⟩ := headLength_blank hb'
  obtain ⟨b'',hle',hb''⟩ := headLength_first (blankAt_drop.mp hi)
  have heq : b''=b := Option.some.inj (hb''.symm.trans h)
  have hall : b'=b-j := by omega
  exact hall ▸ hb'

def isEol (b : Byte) : Bool := b=10 ∨ b=13

/-- A blank line is made of line ends. -/
theorem BlankAt.eol (h : BlankAt s k b) (hk : k ≤ i) (hi : i < b) :
    ∃ x,s[i]?=some x ∧ isEol x=true := by
  cases h with
  | lf h hb =>
    have hat := getElem?_of_startsWith h (j := i-k)
      (by simp only [List.length_cons,List.length_nil]; omega)
    rw [Nat.add_sub_cancel' hk] at hat
    have hcase : i-k=0 ∨ i-k=1 := by omega
    rcases hcase with h0|h1
    · exact ⟨10,by rw [hat,h0]; rfl,by decide⟩
    · exact ⟨10,by rw [hat,h1]; rfl,by decide⟩
  | crlf h hb =>
    have hat := getElem?_of_startsWith h (j := i-k)
      (by simp only [List.length_cons,List.length_nil]; omega)
    rw [Nat.add_sub_cancel' hk] at hat
    have hcase : i-k=0 ∨ i-k=1 ∨ i-k=2 := by omega
    rcases hcase with h0|h1|h2
    · exact ⟨10,by rw [hat,h0]; rfl,by decide⟩
    · exact ⟨13,by rw [hat,h1]; rfl,by decide⟩
    · exact ⟨10,by rw [hat,h2]; rfl,by decide⟩

/-- Text without LF in front moves the blank line. -/
theorem headLength_text {a : Text} (ha : 10∉a) :
    headLength (a++s)=(headLength s).map (· + a.length) := by
  induction a with
  | nil => exact Option.map_id'.symm ▸ rfl
  | cons x a ih =>
    have hx : x≠10 := fun h => ha (h ▸ List.mem_cons_self)
    have hlf : startsWith (x::(a++s)) [10,10]=false := by simp [startsWith,hx]
    have hcrlf : startsWith (x::(a++s)) [10,13,10]=false := by simp [startsWith,hx]
    rw [List.cons_append,headLength,hlf,hcrlf,ih fun h => ha (List.mem_cons_of_mem x h)]
    cases headLength s with
    | none => rfl
    | some n => exact congrArg some (Nat.add_assoc n a.length 1)

/-- A line end in front of a line that is not empty. -/
theorem headLength_crlf {x : Byte} (hx : isEol x=false) :
    headLength (crlf++x::s)=(headLength (x::s)).map (· + 2) := by
  have hx' : x≠10 ∧ x≠13 := by simpa [isEol] using hx
  have hcrlf : crlf++x::s=13::10::x::s := rfl
  rw [hcrlf,headLength,headLength]
  cases headLength (x::s) with
  | none => simp [startsWith,hx'.1,hx'.2]
  | some n => simp [startsWith,hx'.1,hx'.2]

/-- A line that is not empty, with its line end. -/
def FieldLine (l : Text) : Prop := ∃ x a,l=x::a++crlf ∧ isEol x=false ∧ 10∉a

theorem headLength_field {l : Text} {x : Byte} (hl : FieldLine l) (hx : isEol x=false) :
    headLength (l++x::s)=(headLength (x::s)).map (· + l.length) := by
  obtain ⟨y,a,rfl,hy,ha⟩ := hl
  have hy10 : (10 : Byte)∉y::a := by
    intro h
    rcases List.mem_cons.mp h with rfl|h
    · cases hy
    · exact ha h
  rw [List.append_assoc,headLength_text hy10,headLength_crlf hx,List.length_append]
  cases headLength (x::s) with
  | none => rfl
  | some n =>
    change some (n+2+(y::a).length)=some (n+((y::a).length+2))
    rw [Nat.add_assoc,Nat.add_comm 2]

/-- Lines in front of a line that is not empty. -/
theorem headLength_fields {ls : List Text} {x : Byte} (hls : ∀ l∈ls,FieldLine l)
    (hx : isEol x=false) :
    headLength (ls.flatten++x::s)=(headLength (x::s)).map (· + ls.flatten.length) := by
  induction ls with
  | nil => exact Option.map_id'.symm ▸ rfl
  | cons l ls ih =>
    have htail := ih fun l hl => hls l (List.mem_cons_of_mem _ hl)
    have hl := hls l List.mem_cons_self
    obtain ⟨y,t,hyt,hy⟩ : ∃ y t,ls.flatten++x::s=y::t ∧ isEol y=false := by
      cases ls with
      | nil => exact ⟨x,s,rfl,hx⟩
      | cons l' ls' =>
        obtain ⟨y,a,hl',hy,-⟩ := hls l' (List.mem_cons_of_mem _ List.mem_cons_self)
        exact ⟨y,a++crlf++(ls'.flatten++x::s),by rw [List.flatten_cons,hl',List.append_assoc]; rfl,hy⟩
    rw [List.flatten_cons,List.append_assoc,hyt,headLength_field hl hy,← hyt,htail,
      List.length_append]
    cases headLength (x::s) with
    | none => rfl
    | some n =>
      change some (n+ls.flatten.length+l.length)=some (n+(l.length+ls.flatten.length))
      rw [Nat.add_assoc,Nat.add_comm ls.flatten.length]

end Blocks

section Strings

variable {m : Nat → Byte} {k i n : Nat}

/-- The string in a window that it does not leave. -/
theorem cstr_slice (hk : n ≤ k) (hend : k ≤ n ∨ m (i + n) = 0) :
    cstr m k i = (slice m i n).takeWhile (· ≠ 0) := by
  induction n generalizing k i with
  | zero =>
    rcases hend with hend | hend
    · rw [Nat.le_zero.mp hend]
      rfl
    · cases k with
      | zero => rfl
      | succ k => exact if_pos hend
  | succ n ih =>
    obtain ⟨k, rfl⟩ : ∃ k', k = k' + 1 := ⟨k - 1, by omega⟩
    have htail : k ≤ n ∨ m (i + 1 + n) = 0 := by
      rcases hend with hend | hend
      · exact .inl (Nat.le_of_succ_le_succ hend)
      · rw [← Nat.add_assoc, Nat.add_right_comm] at hend
        exact .inr hend
    rw [cstr, slice, List.takeWhile_cons]
    split
    · rename_i h0
      rw [if_neg (by rw [h0]; decide)]
    · rename_i hne
      rw [if_pos (decide_eq_true hne), ih (Nat.le_of_succ_le_succ hk) htail]

end Strings

end Crotalus
