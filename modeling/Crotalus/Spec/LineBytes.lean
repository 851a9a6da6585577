import Mathlib.Data.List.DropRight
import Crotalus.Spec.Config
import Crotalus.Spec.Scan

namespace Crotalus

open ByteMem Lines

/-! The scan of a configuration line, as a reading of the bytes of its buffer. -/

/-- The bytes of the line buffer from a position on. -/
def lineBytes (m : Nat → Byte) (i : Nat) : Text := slice m i (lineBufSize-i)

def notSpace (b : Byte) : Bool := !isSpace b

/-- Bytes up to the first null byte. -/
def cText (bytes : Text) : Text := bytes.takeWhile (· ≠ 0)

section Parts

variable {α : Type} {p q : α → Bool} {a b : List α} {c : α}

theorem takeWhile_parts (ha : ∀ x∈a,p x=true) (hc : p c=false) : (a++c::b).takeWhile p=a := by
  rw [List.takeWhile_append_of_pos ha,List.takeWhile_cons_of_neg (by rw [hc]; decide),
    List.append_nil]

theorem dropWhile_parts (ha : ∀ x∈a,p x=true) (hc : p c=false) : (a++c::b).dropWhile p=c::b := by
  rw [List.dropWhile_append_of_pos ha,List.dropWhile_cons_of_neg (by rw [hc]; decide)]

end Parts

/-- A string ends at its first null byte. -/
theorem cText_cut (a b : Text) : cText (a++0::b)=cText a := Lines.takeWhile_stop (by decide) a b

theorem cText_self {a : Text} (h : 0∉a) : cText a=a :=
  List.takeWhile_eq_self_iff.mpr fun _ hx => decide_eq_true fun h0 => h (h0 ▸ hx)

theorem cText_noNull (a : Text) : 0∉cText a := fun h => by
  have h0 := List.mem_takeWhile_imp h
  cases h0

section Scan

variable {m : Nat → Byte} {i : Nat} {a b : Text} {c : Byte}

/-- The bytes behind a position. -/
theorem lineBytes_behind (h : lineBytes m i=a++c::b) : m (i+a.length)=c ∧
    lineBytes m (i+a.length)=c::b ∧ lineBytes m (i+a.length+1)=b := by
  obtain ⟨-,hat,hlen⟩ := slice_behind h
  rw [Nat.sub_sub] at hat
  have hk : lineBufSize-(i+a.length)=lineBufSize-(i+a.length+1)+1 := by
    rw [List.length_cons] at hlen
    omega
  refine ⟨?_,hat,?_⟩
  · rw [hk,slice,List.cons.injEq] at hat
    exact hat.1
  · rw [hk,slice,List.cons.injEq] at hat
    exact hat.2

/-- A byte that is overwritten. -/
theorem lineBytes_cut (h : lineBytes m i=a++c::b) :
    lineBytes (store m (i+a.length) [0]) i=a++0::b := by
  obtain ⟨hfront,-,hlen⟩ := slice_behind h
  obtain ⟨-,-,hrest⟩ := lineBytes_behind h
  rw [List.length_cons] at hlen
  have hk : lineBufSize-i=a.length+(lineBufSize-(i+a.length+1)+1) := by omega
  rw [lineBytes,hk,slice_append,slice,slice_store_below _ _ _ _ _ (le_refl _),hfront]
  have hat := store_last m (i+a.length) [] 0
  rw [List.nil_append,List.length_nil,Nat.add_zero] at hat
  have habove : slice (store m (i+a.length) [0]) (i+a.length+1) (lineBufSize-(i+a.length+1))=b :=
    (slice_congr fun j hj _ => store_above m (i+a.length) j [0] hj).trans hrest
  rw [hat,habove]

/-- A byte that is overwritten in front. -/
theorem lineBytes_above {j : Nat} (h : j < i) : lineBytes (store m j [0]) i=lineBytes m i :=
  slice_congr fun k hk _ => store_above m j k [0] (Nat.lt_of_lt_of_le h hk)

/-- A scan finds nothing, or what is behind the bytes that it passes over. -/
theorem lineScan_cases (m : Nat → Byte) (i : Nat) {p q : Byte → Bool} (hq : ∀ b,q b=!p b) :
    (lineScan m p i=none ∧ (lineBytes m i).dropWhile q=[]) ∨
      ∃ a c b,lineBytes m i=a++c::b ∧ lineScan m p i=some (i+a.length) ∧
        (lineBytes m i).takeWhile q=a ∧ (lineBytes m i).dropWhile q=c::b := by
  have hpos : ∀ a : Text,(∀ x∈a,p x=false) → ∀ x∈a,q x=true := fun a ha x hx => by
    rw [hq,ha x hx]
    rfl
  rcases first_split p (lineBytes m i) with hnone|⟨a,c,b,hsplit,ha,hc⟩
  · exact .inl ⟨scanFor_none hnone,List.dropWhile_eq_nil_iff.mpr (hpos _ hnone)⟩
  · have hneg : q c=false := by rw [hq,hc]; rfl
    refine .inr ⟨a,c,b,hsplit,scanFor_some hsplit ha hc,?_,?_⟩
    · rw [hsplit,takeWhile_parts (hpos a ha) hneg]
    · rw [hsplit,dropWhile_parts (hpos a ha) hneg]

theorem lineStr_eq (m : Nat → Byte) (i : Nat) :
    lineStr m i=if 0∈lineBytes m i then some (cText (lineBytes m i)) else none := by
  rcases first_split (fun b => decide (b=0)) (lineBytes m i) with hnone|⟨a,c,b,hsplit,ha,hc⟩
  · have hscan : lineScan m (· = 0) i=none := scanFor_none hnone
    rw [lineStr,hscan,if_neg fun h => (by cases hnone 0 h)]
    rfl
  · have hscan : lineScan m (· = 0) i=some (i+a.length) := scanFor_some hsplit ha hc
    rw [decide_eq_true_eq] at hc
    subst hc
    have ha0 : 0∉a := fun h => (by cases ha 0 h)
    rw [lineStr,hscan,hsplit,if_pos (List.mem_append_right a List.mem_cons_self),cText_cut,
      cText_self ha0,Option.map_some,Nat.add_sub_cancel_left,(slice_behind hsplit).1]

end Scan

/-! Arguments and directives. -/

/-- What is behind the first white space. -/
def behindBlank (bytes : Text) : Text := (bytes.dropWhile notSpace).drop 1

/-- The two arguments that a scan finds. -/
def readArgs (bytes : Text) : Option (Option Text × Option Text) :=
  let args := bytes.dropWhile isSpace
  let second := (behindBlank args).dropWhile isSpace
  if args.head?=some 0 ∨ 0∉second then none
  else some (some (cText (args.takeWhile notSpace)),
    if second.head?=some 0 then none else some (cText second))

theorem twoArgs_eq (m : Nat → Byte) (i : Nat) :
    (twoArgs m i).map Prod.snd=readArgs (lineBytes m i) := by
  rw [twoArgs,readArgs]
  rcases lineScan_cases m i (p := fun b => !isSpace b) (q := isSpace)
    (fun b => (Bool.not_not _).symm) with ⟨hscan,hdrop⟩|⟨ws,x,b,hargs,hscan,-,hdrop⟩
  · rw [hscan,hdrop]
    rfl
  rw [hscan,hdrop]
  obtain ⟨hx,hat,-⟩ := lineBytes_behind hargs
  simp only [Option.bind_eq_bind,Option.bind_some,hx,List.head?_cons,Option.some.injEq]
  by_cases hzero : x=0
  · rw [if_pos hzero,if_pos (.inl hzero)]
    rfl
  rw [if_neg hzero]
  rcases lineScan_cases m (i+ws.length) (p := isSpace) (q := notSpace)
    (fun _ => rfl) with ⟨hblank,hbehind⟩|⟨v,c,u,hword,hblank,htake,hbehind⟩
  · rw [hat] at hbehind
    rw [hblank,behindBlank,hbehind,if_pos (.inr fun h => absurd h List.not_mem_nil)]
    rfl
  rw [hat] at htake hbehind
  rw [hblank,behindBlank,hbehind,htake]
  obtain ⟨-,-,hu⟩ := lineBytes_behind hword
  have hcut := lineBytes_cut hword
  have habove : lineBytes (store m (i+ws.length+v.length) [0]) (i+ws.length+v.length+1)=u := by
    rw [lineBytes_above (Nat.lt_succ_self _),hu]
  simp only [Option.bind_some,List.drop_one,List.tail_cons]
  rcases lineScan_cases (store m (i+ws.length+v.length) [0]) (i+ws.length+v.length+1)
    (p := fun b => !isSpace b) (q := isSpace) (fun b => (Bool.not_not _).symm) with
    ⟨hsecond,hdrop'⟩|⟨ws',y,r,hrest,hsecond,-,hdrop'⟩
  · rw [habove] at hdrop'
    rw [hsecond,hdrop',if_pos (.inr fun h => absurd h List.not_mem_nil)]
    rfl
  rw [habove] at hdrop'
  obtain ⟨hy,hat',-⟩ := lineBytes_behind hrest
  have hv : lineStr (store m (i+ws.length+v.length) [0]) (i+ws.length)=some (cText v) := by
    rw [lineStr_eq,hcut,if_pos (List.mem_append_right v List.mem_cons_self),cText_cut]
  rw [hsecond,hdrop']
  simp only [Option.bind_some,hv,hy,lineStr_eq,hat',List.head?_cons,Option.some.injEq]
  by_cases hy0 : y=0
  · rw [if_pos hy0,if_neg (not_or.mpr ⟨hzero,not_not.mpr (hy0 ▸ List.mem_cons_self)⟩),if_pos hy0]
    rfl
  · rw [if_neg hy0,if_neg hy0]
    by_cases hmem : 0∈y::r
    · rw [if_pos hmem,if_neg (not_or.mpr ⟨hzero,not_not.mpr hmem⟩)]
      rfl
    · rw [if_neg hmem,if_pos (.inr hmem)]
      rfl

/-- The directive of a keyword, with the bytes behind the blank. -/
def readCall (p : Command) (args : Text) : Option Call :=
  match p.type with
  | .noArgs => some ⟨p.action,none,none⟩
  | .oneArg => if 0∈args then some ⟨p.action,some (cText args),none⟩ else none
  | .twoArgs => (readArgs args).map fun v => ⟨p.action,v.1,v.2⟩

/-- The directive that the bytes of the buffer hold. -/
def readLine (h : Host) (bytes : Text) : Option Call :=
  if bytes.dropWhile notSpace=[] then none
  else (lookupKeyword h (cText (bytes.takeWhile notSpace))).bind fun p =>
    readCall p (behindBlank bytes)

/-- The buffer with a line in it, behind `trim`. -/
def trimmed (m : Nat → Byte) (line : Text) : Nat → Byte :=
  store (store m 0 (line++[0])) (trim (cText line)).length
    (List.replicate ((cText line).length-(trim (cText line)).length) 0)

theorem scanLine_read (h : Host) {m : Nat → Byte} {line : Text}
    (hb : ¬(store m 0 (line++[0]) 0=0 ∨ store m 0 (line++[0]) 0=35 ∨ store m 0 (line++[0]) 0=10)) :
    (scanLine h m line).map Prod.snd=(readLine h (lineBytes (trimmed m line) 0)).map some := by
  rw [scanLine,readLine]
  dsimp only
  rw [if_neg hb,← cText,← trimmed]
  generalize trimmed m line=m
  rcases lineScan_cases m 0 (p := isSpace) (q := notSpace) (fun _ => rfl) with
    ⟨hblank,hbehind⟩|⟨w,c,b,hword,hblank,htake,hbehind⟩
  · rw [hblank,if_pos hbehind]
    rfl
  obtain ⟨-,-,hrest⟩ := lineBytes_behind hword
  have hcut := lineBytes_cut hword
  have habove : lineBytes (store m (0+w.length) [0]) (0+w.length+1)=b := by
    rw [lineBytes_above (Nat.lt_succ_self _),hrest]
  have hw : lineStr (store m (0+w.length) [0]) 0=some (cText w) := by
    rw [lineStr_eq,hcut,if_pos (List.mem_append_right w List.mem_cons_self),cText_cut]
  rw [hblank,if_neg (by rw [hbehind]; exact List.cons_ne_nil c b),htake,behindBlank,hbehind]
  simp only [Option.bind_eq_bind,Option.bind_some,hw,List.drop_one,List.tail_cons]
  cases lookupKeyword h (cText w) with
  | none => rfl
  | some p =>
    rw [Option.bind_some,Option.bind_some,readCall]
    cases p.type with
    | noArgs => rfl
    | oneArg =>
      dsimp only
      rw [lineStr_eq,habove]
      by_cases hmem : 0∈b
      · rw [if_pos hmem,if_pos hmem]
        rfl
      · rw [if_neg hmem,if_neg hmem]
        rfl
    | twoArgs =>
      dsimp only
      rw [← habove,← twoArgs_eq]
      cases twoArgs (store m (0+w.length) [0]) (0+w.length+1) with
      | none => rfl
      | some r => rfl

/-! The bytes of the trimmed buffer. -/

/-- What the buffer holds behind the end of the string in it. -/
def staleBytes (m : Nat → Byte) (line : Text) : Text :=
  slice (store m 0 (line++[0])) ((cText line).length+1) (lineBufSize-((cText line).length+1))

theorem rdropWhile_cons {b : Byte} (hb : isSpace b=false) (s : Text) :
    (b::s).rdropWhile isSpace=b::s.rdropWhile isSpace := by
  rw [List.rdropWhile,List.reverse_cons,List.dropWhile_append,List.rdropWhile]
  by_cases h : s.reverse.dropWhile isSpace=[]
  · rw [h,List.isEmpty_nil,if_pos rfl,List.dropWhile_cons_of_neg (by rw [hb]; decide)]
    rfl
  · rw [if_neg (by simpa using h),List.reverse_append]
    rfl

theorem trim_eq {b : Byte} (hb : isSpace b=false) (s : Text) :
    trim (b::s)=(b::s).rdropWhile isSpace := by
  rw [rdropWhile_cons hb]
  rfl

/-- A string is its trimmed text and white space. -/
theorem rdropWhile_split (s : Text) :
    ∃ ws,s=s.rdropWhile isSpace++ws ∧ ∀ b∈ws,isSpace b=true :=
  ⟨s.rtakeWhile isSpace,List.rdropWhile_append_rtakeWhile.symm,
    fun _ hb => List.mem_rtakeWhile_imp hb⟩

/-- The text of a line, without the white space at its end. -/
def lineString (line : Text) : Text := (cText line).rdropWhile isSpace

/-- A line with its terminator is its string, a null byte and a rest. -/
theorem cText_split (line : Text) : ∃ rest,line++[0]=cText line++0::rest := by
  rcases first_split (fun b => decide (b=0)) (line++[0]) with hnone|⟨a,c,b,hsplit,ha,hc⟩
  · cases hnone 0 (List.mem_append_right line List.mem_cons_self)
  · rw [decide_eq_true_eq] at hc
    subst hc
    have hline : cText line=a := by
      rw [← cText_cut line [],hsplit,cText_cut,cText_self fun h => (by cases ha 0 h)]
    rw [hline]
    exact ⟨b,hsplit⟩

/-- The buffer with a line in it. -/
theorem line_bytes (m : Nat → Byte) {line : Text} (hlen : line.length < lineBufSize) :
    lineBytes (store m 0 (line++[0])) 0=cText line++0::staleBytes m line := by
  obtain ⟨rest,hsplit⟩ := cText_split line
  have hlength := congrArg List.length hsplit
  rw [List.length_append,List.length_singleton,List.length_append,List.length_cons] at hlength
  have hline : slice (store m 0 (line++[0])) 0 (line++[0]).length=line++[0] := slice_store m 0 _
  have hin : (cText line).length < (line++[0]).length := by
    rw [List.length_append,List.length_singleton]
    omega
  rw [slice_at _ hin] at hline
  obtain ⟨hfront,hrest⟩ := List.append_inj (hline.trans hsplit) (length_slice _ _ _)
  rw [List.cons.injEq] at hrest
  rw [lineBytes,Nat.sub_zero,slice_at _ (show (cText line).length < lineBufSize by omega),hfront,
    hrest.1,staleBytes]

/-- The bytes behind the text of a line are null bytes, and what was there before. -/
theorem trimmed_bytes (m : Nat → Byte) {line s : Text} {b : Byte} (hs : cText line=b::s)
    (hb : isSpace b=false) (hlen : line.length < lineBufSize) : ∃ n,
      lineBytes (trimmed m line) 0=lineString line++0::(List.replicate n 0++staleBytes m line) := by
  have htrim : trim (cText line)=lineString line := by rw [lineString,hs,trim_eq hb]
  obtain ⟨ws,hsplit,-⟩ := rdropWhile_split (cText line)
  rw [← lineString] at hsplit
  have hbytes := line_bytes m hlen
  have hws : (cText line).length-(lineString line).length=ws.length := by
    rw [hsplit,List.length_append,Nat.add_sub_cancel_left]
  rw [hsplit,List.append_assoc,lineBytes] at hbytes
  have hover := slice_overwrite (List.replicate ws.length 0) hbytes List.length_replicate
  rw [Nat.zero_add] at hover
  refine ⟨ws.length,?_⟩
  rw [trimmed,htrim,hws,lineBytes,hover,List.append_cons (List.replicate _ _),
    ← List.replicate_succ',List.replicate_succ,List.cons_append]

end Crotalus
