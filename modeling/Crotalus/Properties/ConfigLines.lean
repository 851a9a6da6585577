import Crotalus.Spec.LineBytes
import Crotalus.Spec.Strings

namespace Crotalus

open ByteMem Lines

/-! The lines of the configuration file. -/

/-- The text behind the first word, if there is any. -/
def remainingText (args : Text) : Option Text :=
  if (behindBlank args).dropWhile isSpace=[] then none
  else some ((behindBlank args).dropWhile isSpace)

/-- The action of a keyword with the rest of its line. -/
def askedArgs (p : Command) (rest : Text) : Option Call :=
  match p.type with
  | .noArgs => some ⟨p.action,none,none⟩
  | .oneArg => some ⟨p.action,some rest,none⟩
  | .twoArgs =>
    if rest.dropWhile isSpace=[] then none
    else some ⟨p.action,some ((rest.dropWhile isSpace).takeWhile notSpace),
      remainingText (rest.dropWhile isSpace)⟩

/-- The action that a text asks for; an unknown keyword, and none of two arguments, end the
server. -/
def askedCall (h : Host) (text : Text) : Option Call :=
  (lookupKeyword h (text.takeWhile notSpace)).bind fun p => askedArgs p (behindBlank text)

/-- The actions that a line asks for. -/
def askedActions (h : Host) (line : Text) : List (Option Call) :=
  if lineString line=[] ∨ (lineString line).head?=some 35 then []
  else [askedCall h ((lineString line).dropWhile isSpace)]

/-! The directive in the buffer against that of the text. -/

/-- A text as `trim` leaves it, when it does not start with white space. -/
structure Trimmed (t : Text) : Prop where
  noNull : 0∉t
  first : ∀ b∈t.head?,isSpace b=false
  last : ∀ b∈t.getLast?,isSpace b=false

/-- What the text does not say is not found in the bytes behind it. -/
structure KeepsTo (type : StmtType) (t stale : Text) : Prop where
  alone : (∀ b∈t,isSpace b=false) → type=.noArgs → stale.dropWhile notSpace≠[]
  empty : (∀ b∈t,isSpace b=false) → type=.oneArg → (behindBlank stale).head?=some 0
  missing : (∀ b∈t,isSpace b=false) → type=.twoArgs → readArgs (behindBlank stale)=none
  single : (∃ b∈t,isSpace b=true) → type=.twoArgs →
    remainingText ((behindBlank t).dropWhile isSpace)=none →
    ((behindBlank stale).dropWhile isSpace).head?=some 0

theorem dropWhile_null {p : Byte → Bool} (h0 : p 0=false) (r z : Text) :
    (r++0::z).dropWhile p=r.dropWhile p++0::z := by
  rw [List.dropWhile_append]
  split
  · next h =>
    rw [List.isEmpty_iff.mp h,List.dropWhile_cons_of_neg (by rw [h0]; decide)]
    rfl
  · rfl

/-- Behind white space in a trimmed text there is something, and it is trimmed. -/
theorem Trimmed.rest {t w r : Text} {c : Byte} (h : Trimmed t) (ht : t=w++c::r)
    (hc : isSpace c=true) : r.dropWhile isSpace≠[] ∧ Trimmed (r.dropWhile isSpace) := by
  have hr : t=(w++c::r.takeWhile isSpace)++r.dropWhile isSpace := by
    rw [ht,List.append_assoc,List.cons_append,List.takeWhile_append_dropWhile]
  have hne : r.dropWhile isSpace≠[] := by
    intro hnil
    have hspaces : ∀ b∈c::r,isSpace b=true :=
      List.forall_mem_cons.mpr ⟨hc,List.dropWhile_eq_nil_iff.mp hnil⟩
    have hlast := h.last ((c::r).getLast (List.cons_ne_nil c r)) (by
      rw [ht,List.getLast?_append_of_ne_nil _ (List.cons_ne_nil c r),
        List.getLast?_eq_some_getLast (List.cons_ne_nil c r)]
      rfl)
    rw [hspaces _ (List.getLast_mem _)] at hlast
    cases hlast
  refine ⟨hne,fun h0 => h.noNull (hr ▸ List.mem_append_right _ h0),fun b hb => ?_,fun b hb => ?_⟩
  · have hhead := List.head?_dropWhile_not isSpace r
    rw [Option.mem_def.mp hb] at hhead
    exact hhead
  · refine h.last b ?_
    rw [hr,List.getLast?_append_of_ne_nil _ hne]
    exact hb

theorem Trimmed.head_ne {t : Text} (h : Trimmed t) : t.head?≠some 0 := fun h0 =>
  h.noNull (List.mem_of_mem_head? (Option.mem_def.mpr h0))

theorem Trimmed.dropSpace {t : Text} (h : Trimmed t) : t.dropWhile isSpace=t := by
  cases t with
  | nil => rfl
  | cons b t => rw [List.dropWhile_cons_of_neg (by rw [h.first b rfl]; decide)]

theorem notSpace_of {t : Text} (h : ∀ b∈t,isSpace b=false) : ∀ b∈t,notSpace b=true :=
  fun b hb => by rw [notSpace,h b hb]; rfl

theorem behindBlank_parts {w r : Text} {c : Byte} (hw : ∀ b∈w,isSpace b=false)
    (hc : isSpace c=true) : behindBlank (w++c::r)=r := by
  rw [behindBlank,dropWhile_parts (notSpace_of hw) (by rw [notSpace,hc]; rfl)]
  rfl

theorem takeWord_parts {w r : Text} {c : Byte} (hw : ∀ b∈w,isSpace b=false)
    (hc : isSpace c=true) : (w++c::r).takeWhile notSpace=w :=
  takeWhile_parts (notSpace_of hw) (by rw [notSpace,hc]; rfl)

/-- Behind a word comes what is behind the end of the text. -/
theorem dropWord_null {w : Text} (hw : ∀ b∈w,isSpace b=false) (z : Text) :
    (w++0::z).dropWhile notSpace=z.dropWhile notSpace := by
  rw [List.dropWhile_append_of_pos (notSpace_of hw)]
  rfl

theorem takeWord_null {w : Text} (hw : ∀ b∈w,isSpace b=false) (z : Text) :
    (w++0::z).takeWhile notSpace=w++0::z.takeWhile notSpace := by
  rw [List.takeWhile_append_of_pos (notSpace_of hw)]
  rfl

theorem behindBlank_null {t : Text} (hword : ∀ b∈t,isSpace b=false) (z : Text) :
    behindBlank (t++0::z)=behindBlank z := by
  rw [behindBlank,dropWord_null hword,behindBlank]

/-- Two arguments are read where the text has two. -/
theorem readArgs_two {v u z : Text} {c : Byte} (hv : Trimmed (v++c::u))
    (hword : ∀ b∈v,isSpace b=false) (hc : isSpace c=true) :
    readArgs (v++c::u++0::z)=some (some v,remainingText (v++c::u)) := by
  obtain ⟨hne,htrim⟩ := hv.rest rfl hc
  have hfirst : (v++c::u++0::z).dropWhile isSpace=v++c::(u++0::z) := by
    rw [dropWhile_null (by decide),hv.dropSpace,List.append_assoc,List.cons_append]
  have hhead : (v++c::(u++0::z)).head?≠some 0 := by
    rw [← List.cons_append,← List.append_assoc,List.head?_append_of_ne_nil _ (by simp)]
    exact hv.head_ne
  have hsecond : (u.dropWhile isSpace++0::z).head?≠some 0 := by
    rw [List.head?_append_of_ne_nil _ hne]
    exact htrim.head_ne
  have hnull : cText v=v := cText_self fun h => hv.noNull (List.mem_append_left _ h)
  rw [readArgs,hfirst,behindBlank_parts hword hc,takeWord_parts hword hc,
    dropWhile_null (by decide),
    if_neg (not_or.mpr ⟨hhead,not_not.mpr (List.mem_append_right _ List.mem_cons_self)⟩),
    if_neg hsecond,cText_cut,cText_self htrim.noNull,hnull,remainingText,behindBlank_parts hword hc,
    if_neg hne]

/-- Where the text has one argument, the bytes behind it decide. -/
theorem readArgs_one {v z : Text} (hv : Trimmed v) (hne : v≠[]) (hword : ∀ b∈v,isSpace b=false) :
    readArgs (v++0::z)=some (some v,none) ↔ ((behindBlank z).dropWhile isSpace).head?=some 0 := by
  have hfirst : (v++0::z).dropWhile isSpace=v++0::z := by
    rw [dropWhile_null (by decide),hv.dropSpace]
  have hhead : (v++0::z).head?≠some 0 := by
    rw [List.head?_append_of_ne_nil _ hne]
    exact hv.head_ne
  rw [readArgs,hfirst,behindBlank_null hword z,takeWord_null hword,cText_cut,cText_self hv.noNull]
  constructor
  · intro h
    split_ifs at h with h1 h2
    · exact h2
    · cases h
  · intro h
    have hmem : 0∈(behindBlank z).dropWhile isSpace :=
      List.mem_of_mem_head? (Option.mem_def.mpr h)
    rw [if_neg (not_or.mpr ⟨hhead,not_not.mpr hmem⟩),if_pos h]

theorem readArgs_spaces (bytes : Text) : readArgs (bytes.dropWhile isSpace)=readArgs bytes := by
  rw [readArgs,readArgs,List.dropWhile_idempotent]

theorem remainingText_word {v : Text} (hword : ∀ b∈v,isSpace b=false) : remainingText v=none := by
  rw [remainingText,behindBlank,List.dropWhile_eq_nil_iff.mpr (notSpace_of hword)]
  rfl

/-- A keyword alone, against the bytes behind it. -/
theorem readCall_alone (p : Command) {t z : Text} (hword : ∀ b∈t,isSpace b=false) :
    (if z.dropWhile notSpace=[] then none else readCall p (behindBlank z))=askedArgs p [] ↔
      KeepsTo p.type t z := by
  have hspace : ¬∃ b∈t,isSpace b=true := by
    rintro ⟨b,hb,hs⟩
    rw [hword b hb] at hs
    cases hs
  have hnil : z.dropWhile notSpace=[] → behindBlank z=[] := fun hz => by rw [behindBlank,hz]; rfl
  rw [readCall,askedArgs]
  cases p.type with
  | noArgs =>
    dsimp only
    constructor
    · intro heq
      refine ⟨fun _ _ hz => ?_,fun _ h => (by cases h),fun _ h => (by cases h),
        fun h => absurd h hspace⟩
      rw [if_pos hz] at heq
      cases heq
    · intro hkeeps
      rw [if_neg (hkeeps.alone hword rfl)]
  | oneArg =>
    dsimp only
    constructor
    · intro heq
      refine ⟨fun _ h => (by cases h),fun _ _ => ?_,fun _ h => (by cases h),
        fun h => absurd h hspace⟩
      split_ifs at heq with hz hmem
      rw [Option.some.injEq,Call.mk.injEq,Option.some.injEq] at heq
      cases hbb : behindBlank z with
      | nil =>
        rw [hbb] at hmem
        cases hmem
      | cons b bs =>
        rw [hbb,cText,List.takeWhile_eq_nil_iff] at heq
        have hb := heq.2.1 (Nat.zero_lt_succ _)
        rw [decide_eq_true_eq,not_not] at hb
        exact congrArg some hb
    · intro hkeeps
      have hempty := hkeeps.empty hword rfl
      obtain ⟨bs,hbs⟩ := List.head?_eq_some_iff.mp hempty
      have hz : ¬z.dropWhile notSpace=[] := by
        intro hz
        rw [hnil hz] at hbs
        cases hbs
      rw [if_neg hz,hbs,if_pos List.mem_cons_self]
      rfl
  | twoArgs =>
    dsimp only
    rw [List.dropWhile_nil,if_pos rfl]
    constructor
    · intro heq
      refine ⟨fun _ h => (by cases h),fun _ h => (by cases h),fun _ _ => ?_,
        fun h => absurd h hspace⟩
      split_ifs at heq with hz
      · rw [hnil hz]
        rfl
      · exact Option.map_eq_none_iff.mp heq
    · intro hkeeps
      rw [hkeeps.missing hword rfl,Option.map_none]
      exact ite_self none

/-- A keyword with a rest, against the bytes behind it. -/
theorem readCall_rest (p : Command) {w r z : Text} {c : Byte} (ht : Trimmed (w++c::r))
    (hw : ∀ b∈w,isSpace b=false) (hc : isSpace c=true) :
    readCall p (r++0::z)=askedArgs p r ↔ KeepsTo p.type (w++c::r) z := by
  have hcmem : c∈w++c::r := List.mem_append_right w List.mem_cons_self
  have hspace : ¬∀ b∈w++c::r,isSpace b=false := by
    intro hall
    rw [hall c hcmem] at hc
    cases hc
  rw [readCall,askedArgs]
  cases p.type with
  | noArgs =>
    exact ⟨fun _ => ⟨fun h => absurd h hspace,fun h => absurd h hspace,fun h => absurd h hspace,
      fun _ h => (by cases h)⟩,fun _ => rfl⟩
  | oneArg =>
    dsimp only
    have hr : 0∉r := fun h =>
      ht.noNull (List.mem_append_right w (List.mem_cons_of_mem c h))
    rw [if_pos (List.mem_append_right r List.mem_cons_self),cText_cut,cText_self hr]
    exact ⟨fun _ => ⟨fun h => absurd h hspace,fun h => absurd h hspace,fun h => absurd h hspace,
      fun _ h => (by cases h)⟩,fun _ => rfl⟩
  | twoArgs =>
    dsimp only
    obtain ⟨hne,hv⟩ := ht.rest rfl hc
    rw [if_neg hne,← readArgs_spaces (r++0::z),dropWhile_null (by decide)]
    rcases first_split isSpace (r.dropWhile isSpace) with hword|⟨v,d,u,hsplit,hvword,hd⟩
    · have hone := readArgs_one (z := z) hv hne hword
      rw [remainingText_word hword,List.takeWhile_eq_self_iff.mpr (notSpace_of hword)]
      constructor
      · intro heq
        obtain ⟨⟨v1,v2⟩,hread,hcall⟩ := Option.map_eq_some_iff.mp heq
        rw [Call.mk.injEq] at hcall
        obtain ⟨-,rfl,rfl⟩ := hcall
        exact ⟨fun h => absurd h hspace,fun h => absurd h hspace,fun h => absurd h hspace,
          fun _ _ _ => hone.mp hread⟩
      · intro hkeeps
        have hsingle := hkeeps.single ⟨c,hcmem,hc⟩ rfl
          (by rw [behindBlank_parts hw hc,remainingText_word hword])
        rw [hone.mpr hsingle]
        rfl
    · rw [hsplit] at hv ⊢
      obtain ⟨hrest,-⟩ := hv.rest rfl hd
      rw [readArgs_two hv hvword hd,takeWord_parts hvword hd,Option.map_some]
      refine ⟨fun _ => ⟨fun h => absurd h hspace,fun h => absurd h hspace,
        fun h => absurd h hspace,fun _ _ hnone => ?_⟩,fun _ => rfl⟩
      rw [behindBlank_parts hw hc,hsplit,remainingText,behindBlank_parts hvword hd,
        if_neg hrest] at hnone
      cases hnone

/-- The directive in the buffer is that of the text exactly when the scan keeps to the text. -/
theorem readLine_iff (h : Host) {t : Text} (ht : Trimmed t) (z : Text) :
    readLine h (t++0::z)=askedCall h t ↔
      ∀ p,lookupKeyword h (t.takeWhile notSpace)=some p → KeepsTo p.type t z := by
  rw [readLine,askedCall]
  rcases first_split isSpace t with hword|⟨w,c,r,rfl,hw,hc⟩
  · have hbehind := behindBlank_null hword z
    have hnil : behindBlank t=[] := by
      rw [behindBlank,List.dropWhile_eq_nil_iff.mpr (notSpace_of hword)]
      rfl
    rw [dropWord_null hword,takeWord_null hword,cText_cut,cText_self ht.noNull,hbehind,hnil,
      List.takeWhile_eq_self_iff.mpr (notSpace_of hword)]
    cases lookupKeyword h t with
    | none =>
      exact ⟨fun _ p hp => (by cases hp),fun _ => ite_self none⟩
    | some p =>
      rw [Option.bind_some,Option.bind_some,readCall_alone p hword]
      exact ⟨fun hkeeps q hq => Option.some.inj hq ▸ hkeeps,fun hkeeps => hkeeps p rfl⟩
  · have hcut : cText w=w := cText_self fun h0 => ht.noNull (List.mem_append_left _ h0)
    rw [List.append_assoc,List.cons_append,takeWord_parts hw hc,behindBlank_parts hw hc,hcut,
      if_neg (by rw [dropWhile_parts (notSpace_of hw) (by rw [notSpace,hc]; rfl)]
                 exact List.cons_ne_nil _ _),takeWord_parts hw hc,behindBlank_parts hw hc]
    cases lookupKeyword h w with
    | none => exact ⟨fun _ p hp => (by cases hp),fun _ => rfl⟩
    | some p =>
      rw [Option.bind_some,Option.bind_some,readCall_rest p ht hw hc]
      exact ⟨fun hkeeps q hq => Option.some.inj hq ▸ hkeeps,fun hkeeps => hkeeps p rfl⟩

/-! One piece that `fgets` reads. -/

/-- A piece that starts so is passed over. -/
def passes (b : Byte) : Bool := b=0 || b=35 || b=10

theorem passes_iff {b : Byte} : (b=0 ∨ b=35 ∨ b=10) ↔ passes b=true := by
  rw [passes,Bool.or_eq_true,Bool.or_eq_true,decide_eq_true_eq,decide_eq_true_eq,
    decide_eq_true_eq,or_assoc]

theorem scanLine_passes (h : Host) (m : Nat → Byte) {p : Text}
    (hp : ∀ b∈p.head?,passes b=true) : ∃ m',scanLine h m p=some (m',none) := by
  have hfirst : passes (store m 0 (p++[0]) 0)=true := by
    cases p with
    | nil => rfl
    | cons b s => exact hp b rfl
  rw [scanLine]
  dsimp only
  rw [if_pos (passes_iff.mpr hfirst)]
  exact ⟨_,rfl⟩

section Piece

variable (h : Host) (m : Nat → Byte) {b : Byte} {s : Text}

theorem scanLine_read_cons (hb : passes b=false) : (scanLine h m (b::s)).map Prod.snd=
    (readLine h (lineBytes (trimmed m (b::s)) 0)).map some :=
  scanLine_read h fun hfirst => by
    have hpass : passes b=true := passes_iff.mp hfirst
    rw [hb] at hpass
    cases hpass

theorem lookupKeyword_names {w : Text} {c : Command} (hc : lookupKeyword h w=some c) :
    0 < w.length ∧ w.length≤21 := by
  rw [lookupKeyword] at hc
  have hname := List.find?_some hc
  have hmem := List.mem_of_find?_eq_some hc
  have hall : ∀ p∈clist h,0 < p.name.length ∧ p.name.length≤21 := by
    unfold clist
    cases h.setrlimit <;> decide
  rw [strcaseEq_length hname]
  exact hall c hmem

theorem cText_cons (hb : b≠0) : cText (b::s)=b::cText s :=
  List.takeWhile_cons_of_pos (decide_eq_true hb)

theorem ne_zero_of_passes (hb : passes b=false) : b≠0 := by
  rintro rfl
  cases hb

/-- White space in front of the keyword hides it. -/
theorem scanLine_white (hb : passes b=false) (hs : isSpace b=true) : scanLine h m (b::s)=none := by
  have hfirst : lineBytes (trimmed m (b::s)) 0=b::lineBytes (trimmed m (b::s)) 1 := by
    have hat : trimmed m (b::s) 0=b := by
      rw [trimmed,cText_cons (ne_zero_of_passes hb),
        store_below _ _ _ _ (by rw [trim,List.length_cons]; omega)]
      rfl
    rw [lineBytes,Nat.sub_zero,show lineBufSize=lineBufSize-1+1 from rfl,slice,hat]
    rfl
  have hread := scanLine_read_cons h m (s := s) hb
  have hneg : notSpace b=false := by rw [notSpace,hs]; rfl
  have hnone : lookupKeyword h []=none := by
    cases hlookup : lookupKeyword h [] with
    | none => rfl
    | some c => exact absurd (lookupKeyword_names h hlookup).1 (Nat.lt_irrefl 0)
  rw [hfirst,readLine,List.takeWhile_cons_of_neg (by rw [hneg]; decide),cText_self List.not_mem_nil,
    hnone,Option.bind_none,ite_self,Option.map_none] at hread
  exact Option.map_eq_none_iff.mp hread

theorem lineString_cons (hb : passes b=false) (hs : isSpace b=false) :
    ∃ t,lineString (b::s)=b::t ∧ Trimmed (b::t) := by
  have hline : lineString (b::s)=b::(cText s).rdropWhile isSpace := by
    rw [lineString,cText_cons (ne_zero_of_passes hb),rdropWhile_cons hs]
  refine ⟨_,hline,?_,?_,?_⟩
  · rw [← hline]
    exact fun h0 => cText_noNull _ ((List.rdropWhile_prefix isSpace _).subset h0)
  · exact fun x hx => Option.some.inj hx ▸ hs
  · rw [← hline]
    intro x hx
    have hne : lineString (b::s)≠[] := fun hnil => (by rw [hnil] at hx; cases hx)
    rw [List.getLast?_eq_some_getLast hne] at hx
    have hlast := List.rdropWhile_last_not isSpace (cText (b::s)) hne
    rw [Bool.not_eq_true] at hlast
    rw [← Option.some.inj hx]
    exact hlast

theorem KeepsTo.congr {type : StmtType} {t z z' : Text}
    (hz : z.dropWhile notSpace=z'.dropWhile notSpace) (hk : KeepsTo type t z) :
    KeepsTo type t z' := by
  have hbehind : behindBlank z=behindBlank z' := by rw [behindBlank,hz,behindBlank]
  refine ⟨?_,?_,?_,?_⟩
  · rw [← hz]
    exact hk.alone
  · rw [← hbehind]
    exact hk.empty
  · rw [← hbehind]
    exact hk.missing
  · rw [← hbehind]
    exact hk.single

/-- The null bytes that `trim` puts behind the text do not matter. -/
theorem dropWhile_zeros (n : Nat) (z : Text) :
    (List.replicate n 0++z).dropWhile notSpace=z.dropWhile notSpace :=
  List.dropWhile_append_of_pos fun x hx => by rw [List.eq_of_mem_replicate hx]; rfl

theorem keepsTo_zeros {type : StmtType} {t z : Text} (n : Nat) :
    KeepsTo type t (List.replicate n 0++z) ↔ KeepsTo type t z :=
  ⟨KeepsTo.congr (dropWhile_zeros n z),KeepsTo.congr (dropWhile_zeros n z).symm⟩

/-- The directive of a piece is that of its text exactly when the scan keeps to the text. -/
theorem scanLine_iff (hb : passes b=false) (hs : isSpace b=false)
    (hlen : (b::s).length < lineBufSize) :
    (scanLine h m (b::s)).map Prod.snd=(askedCall h (lineString (b::s))).map some ↔
      ∀ p,lookupKeyword h ((lineString (b::s)).takeWhile notSpace)=some p →
        KeepsTo p.type (lineString (b::s)) (staleBytes m (b::s)) := by
  obtain ⟨t,ht,htrim⟩ := lineString_cons (s := s) hb hs
  obtain ⟨n,hbytes⟩ := trimmed_bytes m (cText_cons (ne_zero_of_passes hb)) hs hlen
  have hinj : Function.Injective (Option.map (some : Call → Option Call)) :=
    Option.map_injective (Option.some_injective _)
  rw [scanLine_read_cons h m hb,hinj.eq_iff,hbytes,readLine_iff h (ht ▸ htrim)]
  exact forall_congr' fun p => forall_congr' fun _ => keepsTo_zeros n

end Piece

/-! A line that is longer than a piece. -/

/-- The text of a line starts with that of its first piece. -/
theorem lineString_append {p : Text} (h0 : 0∉p) (q : Text) :
    lineString (p++q)=lineString p ∨ ∃ y,lineString (p++q)=p++y := by
  have hcut : cText (p++q)=p++cText q :=
    List.takeWhile_append_of_pos fun x hx => decide_eq_true fun hx0 => h0 (hx0 ▸ hx)
  rw [lineString,lineString,hcut,cText_self h0,List.rdropWhile,List.rdropWhile,
    List.reverse_append,List.dropWhile_append]
  split
  · exact .inl rfl
  · exact .inr ⟨_,by rw [List.reverse_append,List.reverse_reverse]⟩

/-- Its keyword is that of its first piece, and arguments of the piece are some of its own. -/
theorem lineString_long {p : Text} (h0 : 0∉p) (q : Text)
    (hkey : ((lineString p).takeWhile notSpace).length < p.length) :
    (lineString (p++q)).takeWhile notSpace=(lineString p).takeWhile notSpace ∧
      ((behindBlank (lineString (p++q))).dropWhile isSpace=[] →
        (behindBlank (lineString p)).dropWhile isSpace=[]) := by
  rcases lineString_append h0 q with hsame|⟨y,hline⟩
  · rw [hsame]
    exact ⟨rfl,id⟩
  obtain ⟨ws,hsplit,hws⟩ := rdropWhile_split (cText p)
  rw [← lineString,cText_self h0] at hsplit
  have hlonger : lineString (p++q)=lineString p++(ws++y) := by
    rw [hline,← List.append_assoc,← hsplit]
  rw [hlonger]
  rcases first_split isSpace (lineString p) with hword|⟨w,c,r,htext,hw,hc⟩
  · rw [List.takeWhile_eq_self_iff.mpr (notSpace_of hword)] at hkey ⊢
    cases ws with
    | nil =>
      rw [List.append_nil] at hsplit
      rw [← hsplit] at hkey
      exact absurd hkey (Nat.lt_irrefl _)
    | cons d ws =>
      rw [List.cons_append,takeWord_parts hword (hws d List.mem_cons_self)]
      refine ⟨rfl,fun _ => ?_⟩
      rw [behindBlank,List.dropWhile_eq_nil_iff.mpr (notSpace_of hword)]
      rfl
  · rw [htext,List.append_assoc,List.cons_append,takeWord_parts hw hc,takeWord_parts hw hc,
      behindBlank_parts hw hc,behindBlank_parts hw hc]
    refine ⟨rfl,fun hnil => ?_⟩
    rw [List.dropWhile_eq_nil_iff] at hnil ⊢
    exact fun b hb => hnil b (List.mem_append_left _ hb)

/-- Where nothing is behind the string but what no scan stops at, the text is read or none. -/
theorem readLine_short (h : Host) {t z : Text} (ht : Trimmed t) (hz : behindBlank z=[])
    {c : Command} (hc : lookupKeyword h (t.takeWhile notSpace)=some c) (htype : c.type≠.noArgs) :
    readLine h (t++0::z)=none ∨ readLine h (t++0::z)=askedCall h t := by
  rw [readLine,askedCall,hc,Option.bind_some]
  rcases first_split isSpace t with hword|⟨w,d,r,rfl,hw,hd⟩
  · rw [List.takeWhile_eq_self_iff.mpr (notSpace_of hword)] at hc
    rw [takeWord_null hword,cText_cut,cText_self ht.noNull,behindBlank_null hword,hz,hc,
      Option.bind_some,readCall]
    refine .inl ?_
    cases hkind : c.type with
    | noArgs => exact absurd hkind htype
    | oneArg => exact ite_self none
    | twoArgs => exact ite_self none
  · have hcut : cText w=w := cText_self fun h0 => ht.noNull (List.mem_append_left _ h0)
    have hmem : d∈w++d::r := List.mem_append_right w List.mem_cons_self
    have hspace : ¬∀ b∈w++d::r,isSpace b=false := by
      intro hall
      rw [hall d hmem] at hd
      cases hd
    rw [takeWord_parts hw hd] at hc
    rw [List.append_assoc,List.cons_append,takeWord_parts hw hd,behindBlank_parts hw hd,hcut,
      if_neg (by rw [dropWhile_parts (notSpace_of hw) (by rw [notSpace,hd]; rfl)]
                 exact List.cons_ne_nil _ _),behindBlank_parts hw hd,hc,Option.bind_some]
    by_cases hsingle : c.type=.twoArgs ∧ remainingText (r.dropWhile isSpace)=none
    · refine .inl ?_
      obtain ⟨hne,hv⟩ := ht.rest rfl hd
      have hword : ∀ b∈r.dropWhile isSpace,isSpace b=false := by
        rcases first_split isSpace (r.dropWhile isSpace) with hword|⟨v,e,u,hsplit,hvword,he⟩
        · exact hword
        · have hrest := (hv.rest hsplit he).1
          rw [hsplit,remainingText,behindBlank_parts hvword he,if_neg hrest] at hsingle
          cases hsingle.2
      have hfirst : (r++0::z).dropWhile isSpace=r.dropWhile isSpace++0::z :=
        dropWhile_null (by decide) r z
      rw [readCall,hsingle.1]
      dsimp only
      rw [readArgs,hfirst,behindBlank_null hword,hz,
        if_pos (.inr fun h => absurd h List.not_mem_nil)]
      rfl
    · refine .inr ((readCall_rest c ht hw hd).mpr ⟨fun hall => absurd hall hspace,
        fun hall => absurd hall hspace,fun hall => absurd hall hspace,fun _ htwo hnone => ?_⟩)
      rw [behindBlank_parts hw hd] at hnone
      exact absurd ⟨htwo,hnone⟩ hsingle

theorem lineString_cut {p : Text} (h0 : 0∈p) (q : Text) : lineString (p++q)=lineString p := by
  obtain ⟨a,b,rfl,-⟩ := List.eq_append_cons_of_mem h0
  rw [lineString,lineString,List.append_assoc,List.cons_append,cText_cut,cText_cut]

/-- A full piece leaves one byte of the buffer behind its string. -/
theorem behindBlank_full (m : Nat → Byte) {p : Text} (h0 : 0∉p) (hlen : p.length=1023) (n : Nat) :
    behindBlank (List.replicate n 0++staleBytes m p)=[] := by
  have hstale : staleBytes m p=[store m 0 (p++[0]) 1024] := by
    rw [staleBytes,cText_self h0,hlen]
    rfl
  rw [behindBlank,dropWhile_zeros,hstale,List.dropWhile_cons]
  split <;> rfl

/-- A first piece that is read as its line asks for the same. -/
theorem askedCall_take (h : Host) (m : Nat → Byte) {b : Byte} {s : Text} (hb : passes b=false)
    (hs : isSpace b=false)
    (hread : (scanLine h m ((b::s).take 1023)).map Prod.snd=
      (askedCall h (lineString (b::s))).map some) :
    askedCall h (lineString ((b::s).take 1023))=askedCall h (lineString (b::s)) := by
  rcases Nat.lt_or_ge 1023 (b::s).length with hlong|hshort
  swap
  · rw [List.take_of_length_le hshort]
  have hlen : ((b::s).take 1023).length=1023 := List.length_take_of_le (Nat.le_of_lt hlong)
  have hline := List.take_append_drop 1023 (b::s)
  by_cases h0 : 0∈(b::s).take 1023
  · rw [← lineString_cut h0 ((b::s).drop 1023),hline]
  have hinj : Function.Injective (Option.map (some : Call → Option Call)) :=
    Option.map_injective (Option.some_injective _)
  obtain ⟨t,ht,htrim⟩ := lineString_cons (s := s.take 1022) hb hs
  rw [← List.take_succ_cons] at ht
  obtain ⟨n,hbytes⟩ := trimmed_bytes m (cText_cons (s := s.take 1022) (ne_zero_of_passes hb)) hs
    (by rw [← List.take_succ_cons,hlen]; decide)
  rw [← List.take_succ_cons] at hbytes
  have hscan : (scanLine h m ((b::s).take 1023)).map Prod.snd=
      (readLine h (lineString ((b::s).take 1023)++0::
        (List.replicate n 0++staleBytes m ((b::s).take 1023)))).map some := by
    rw [← hbytes]
    exact scanLine_read_cons h m hb
  have hsame := hinj (hscan.symm.trans hread)
  rw [← ht] at htrim
  cases hc : lookupKeyword h ((lineString ((b::s).take 1023)).takeWhile notSpace) with
  | none =>
    rw [← hsame,(readLine_iff h htrim _).mpr fun p hp => (by rw [hc] at hp; cases hp)]
  | some c =>
    have hkey := (lookupKeyword_names h hc).2
    obtain ⟨hword,hargs⟩ := lineString_long h0 ((b::s).drop 1023) (by rw [hlen]; omega)
    rw [hline] at hword hargs
    have hline : askedCall h (lineString (b::s))=
        askedArgs c (behindBlank (lineString (b::s))) := by
      rw [askedCall,hword,hc,Option.bind_some]
    have hpiece : askedCall h (lineString ((b::s).take 1023))=
        askedArgs c (behindBlank (lineString ((b::s).take 1023))) := by
      rw [askedCall,hc,Option.bind_some]
    by_cases htype : c.type=.noArgs
    · rw [hline,hpiece,askedArgs,askedArgs,htype]
    rcases readLine_short h htrim (behindBlank_full m h0 hlen n) hc htype with hnone|hasked
    · rw [hnone,hline,askedArgs] at hsame
      rw [hpiece,hline,askedArgs,askedArgs]
      cases hkind : c.type with
      | noArgs => exact absurd hkind htype
      | oneArg =>
        rw [hkind] at hsame
        cases hsame
      | twoArgs =>
        rw [hkind] at hsame
        dsimp only at hsame ⊢
        split_ifs at hsame with hnil
        rw [if_pos hnil,if_pos (hargs hnil)]
    · rw [← hsame,hasked]

/-! One line. -/

/-- The actions that the pieces of a line lead to, and the buffer that they leave when the server
goes on. -/
def pieceActions (h : Host) : (Nat → Byte) → List Text →
    List (Option Call) × Option (Nat → Byte)
  | m,[] => ([],some m)
  | m,p::ps =>
    match scanLine h m p with
    | none => ([none],none)
    | some (m',call) =>
      (call.toList.map some++(pieceActions h m' ps).1,(pieceActions h m' ps).2)

/-- What is behind the first piece of a line is passed over. -/
def PassesRest (ps : List Text) : Prop := ∀ p∈ps,∀ b∈p.head?,passes b=true

inductive CleanLine (h : Host) (m : Nat → Byte) (line : Text) : Prop
  /-- An empty line, or a comment. -/
  | passed : (∀ b∈line.head?,passes b=true) → PassesRest (fgets 1024 (line.drop 1023)) →
      CleanLine h m line
  /-- White space hides a keyword that ends the server anyway. -/
  | white (b : Byte) : line.head?=some b → passes b=false → isSpace b=true →
      askedActions h line=[none] → CleanLine h m line
  /-- The text of the first piece stands for that of the line, and the scan keeps to it. -/
  | text (b : Byte) : line.head?=some b → passes b=false → isSpace b=false →
      askedActions h (line.take 1023)=askedActions h line →
      (∀ p,lookupKeyword h ((lineString (line.take 1023)).takeWhile notSpace)=some p →
        KeepsTo p.type (lineString (line.take 1023)) (staleBytes m (line.take 1023))) →
      (askedActions h line=[none] ∨ PassesRest (fgets 1024 (line.drop 1023))) → CleanLine h m line

/-- A piece that is not passed over ends the server or is a directive. -/
theorem scanLine_acts (h : Host) (m : Nat → Byte) {b : Byte} (s : Text) (hb : passes b=false) :
    scanLine h m (b::s)=none ∨ ∃ m' c,scanLine h m (b::s)=some (m',some c) := by
  have hread := scanLine_read_cons h m (s := s) hb
  cases hscan : scanLine h m (b::s) with
  | none => exact .inl rfl
  | some r =>
    obtain ⟨m',call⟩ := r
    rw [hscan,Option.map_some,eq_comm,Option.map_eq_some_iff] at hread
    obtain ⟨c,-,rfl⟩ := hread
    exact .inr ⟨m',c,rfl⟩

theorem pieceActions_nil (h : Host) (m : Nat → Byte) (ps : List Text) :
    (pieceActions h m ps).1=[] ↔ PassesRest ps := by
  induction ps generalizing m with
  | nil => exact ⟨fun _ p hp => absurd hp List.not_mem_nil,fun _ => rfl⟩
  | cons p ps ih =>
    rw [PassesRest,List.forall_mem_cons,← PassesRest,pieceActions]
    by_cases hp : ∀ b∈p.head?,passes b=true
    · obtain ⟨m',hscan⟩ := scanLine_passes h m hp
      rw [hscan]
      exact (ih m').trans (and_iff_right hp).symm
    · refine ⟨fun hnil => ?_,fun hall => absurd hall.1 hp⟩
      cases p with
      | nil => exact absurd (fun b hb => (by cases hb)) hp
      | cons b s =>
        have hb : passes b=false := by
          cases hpass : passes b with
          | false => rfl
          | true => exact absurd (fun x hx => Option.some.inj hx ▸ hpass) hp
        rcases scanLine_acts h m s hb with hscan|⟨m',c,hscan⟩
        · rw [hscan] at hnil
          cases hnil
        · rw [hscan] at hnil
          cases hnil

/-- The actions of a line whose first piece is not passed over. -/
theorem pieceActions_first (h : Host) (m : Nat → Byte) {b : Byte} {s : Text} (ps : List Text)
    (hb : passes b=false) (a : Option Call) : (pieceActions h m ((b::s)::ps)).1=[a] ↔
      (scanLine h m (b::s)).map Prod.snd=a.map some ∧ (a=none ∨ PassesRest ps) := by
  rw [pieceActions]
  rcases scanLine_acts h m s hb with hscan|⟨m',c,hscan⟩
  · rw [hscan,Option.map_none]
    dsimp only
    rw [List.cons.injEq,eq_comm (a := none) (b := a.map some),Option.map_eq_none_iff]
    exact ⟨fun ha => ⟨ha.1.symm,.inl ha.1.symm⟩,fun ha => ⟨ha.1.symm,rfl⟩⟩
  · rw [hscan,Option.map_some]
    dsimp only
    rw [Option.toList_some,List.map_singleton,List.singleton_append,List.cons.injEq,
      pieceActions_nil,eq_comm (a := some (some c)) (b := a.map some),Option.map_eq_some_iff]
    constructor
    · rintro ⟨rfl,hrest⟩
      exact ⟨⟨c,rfl,rfl⟩,.inr hrest⟩
    · rintro ⟨⟨d,rfl,hd⟩,hrest⟩
      exact ⟨hd.symm,hrest.resolve_left fun h => (by cases h)⟩

theorem askedActions_passes (h : Host) {line : Text} (hnl : 10∉line.dropLast)
    (hp : ∀ b∈line.head?,passes b=true) : askedActions h line=[] := by
  cases line with
  | nil => rfl
  | cons b s =>
    rcases passes_iff.mpr (hp b rfl) with rfl|rfl|rfl
    · exact rfl
    · have hline : lineString (35::s)=35::(cText s).rdropWhile isSpace := by
        rw [lineString,cText_cons (by decide),rdropWhile_cons (by decide)]
      rw [askedActions,hline]
      exact if_pos (.inr rfl)
    · have hs : s=[] := by
        by_contra hs
        rw [List.dropLast_cons_of_ne_nil hs] at hnl
        exact hnl List.mem_cons_self
      subst hs
      exact rfl

/-- A text that does not start with white space asks for one action. -/
theorem askedActions_text (h : Host) {b : Byte} {s : Text} (hb : passes b=false)
    (hs : isSpace b=false) : askedActions h (b::s)=[askedCall h (lineString (b::s))] := by
  obtain ⟨t,ht,htrim⟩ := lineString_cons (s := s) hb hs
  have hcomment : ¬(b::t=[] ∨ (b::t).head?=some 35) := by
    rintro (hnil|hhead)
    · cases hnil
    · rw [List.head?_cons,Option.some.injEq] at hhead
      rw [hhead] at hb
      cases hb
  rw [askedActions,ht,if_neg hcomment,htrim.dropSpace]

/-- A line leads to the actions that it asks for exactly when it is clean. -/
theorem pieceActions_iff (h : Host) (m : Nat → Byte) {line : Text} (hne : line≠[])
    (hnl : 10∉line.dropLast) :
    (pieceActions h m (fgets 1024 line)).1=askedActions h line ↔ CleanLine h m line := by
  rw [fgets_first hnl (by decide) hne]
  cases line with
  | nil => exact absurd rfl hne
  | cons b s =>
    rw [List.take_succ_cons]
    cases hb : passes b with
    | true =>
      have hp : ∀ x∈(b::s).head?,passes x=true := fun x hx => Option.some.inj hx ▸ hb
      obtain ⟨m',hscan⟩ := scanLine_passes h m (p := b::s.take 1022)
        (fun x hx => Option.some.inj hx ▸ hb)
      rw [askedActions_passes h hnl hp,pieceActions,hscan]
      refine (pieceActions_nil h m' _).trans ⟨.passed hp,fun hclean => ?_⟩
      cases hclean with
      | passed _ hrest => exact hrest
      | white x hx hpass => rw [Option.some.inj hx.symm,hb] at hpass; cases hpass
      | text x hx hpass => rw [Option.some.inj hx.symm,hb] at hpass; cases hpass
    | false =>
      cases hs : isSpace b with
      | true =>
        rw [pieceActions,scanLine_white h m hb hs]
        refine ⟨fun hasked => .white b rfl hb hs hasked.symm,fun hclean => ?_⟩
        cases hclean with
        | passed hpass _ =>
          rw [hpass b rfl] at hb
          cases hb
        | white _ _ _ _ hasked => exact hasked.symm
        | text x hx _ hspace => rw [Option.some.inj hx.symm,hs] at hspace; cases hspace
      | false =>
        have htake : (b::s).take 1023=b::s.take 1022 := rfl
        have hlen : (b::s.take 1022).length < lineBufSize := by
          rw [List.length_cons,List.length_take]
          have hle := Nat.min_le_left 1022 s.length
          rw [show lineBufSize=1025 from rfl]
          omega
        have hiff := scanLine_iff h m (s := s.take 1022) hb hs hlen
        have htext := askedActions_text h (s := s) hb hs
        have hpiece := askedActions_text h (s := s.take 1022) hb hs
        rw [htext,pieceActions_first h m _ hb]
        constructor
        · rintro ⟨hread,hrest⟩
          have hsame := askedCall_take h m hb hs (s := s) hread
          rw [htake] at hsame
          rw [← hsame] at hread
          refine .text b rfl hb hs ?_ (hiff.mp hread) ?_
          · rw [htake,htext,hpiece,hsame]
          · rw [htext,List.cons.injEq,and_iff_left rfl]
            exact hrest
        · intro hclean
          cases hclean with
          | passed hpass _ =>
            rw [hpass b rfl] at hb
            cases hb
          | white x hx _ hspace => rw [Option.some.inj hx.symm,hs] at hspace; cases hspace
          | text _ _ _ _ hsame hkeeps hrest =>
            rw [htake,htext,hpiece,List.cons.injEq,and_iff_left rfl] at hsame
            rw [htext,List.cons.injEq,and_iff_left rfl] at hrest
            rw [← hsame] at hrest ⊢
            exact ⟨hiff.mpr hkeeps,hrest⟩

/-! The file. -/

/-- The actions that the server performs for each line, as far as it comes. -/
def fileActions (h : Host) : (Nat → Byte) → List Text → List (List (Option Call))
  | _,[] => []
  | m,line::lines =>
    (pieceActions h m (fgets 1024 line)).1::
      match (pieceActions h m (fgets 1024 line)).2 with
      | none => []
      | some m' => fileActions h m' lines

/-- The actions that the lines ask for, up to one that ends the server. -/
def askedFile (h : Host) : List Text → List (List (Option Call))
  | [] => []
  | line::lines =>
    askedActions h line::if none∈askedActions h line then [] else askedFile h lines

/-- Each line that is read is clean in the buffer as the lines before it leave it. -/
def CleanFile (h : Host) : (Nat → Byte) → List Text → Prop
  | _,[] => True
  | m,line::lines =>
    CleanLine h m line ∧ ∀ m'∈(pieceActions h m (fgets 1024 line)).2,CleanFile h m' lines

/-- The server goes on behind a line with directives only, and the directives of the file are
those and the ones behind. -/
theorem pieceActions_calls (h : Host) (m : Nat → Byte) (ps qs : List Text) :
    ((pieceActions h m ps).2=none ∧ none∈(pieceActions h m ps).1 ∧
      lineCalls h m (ps++qs)=none) ∨
    ∃ m' cs,(pieceActions h m ps).2=some m' ∧ (pieceActions h m ps).1=cs.map some ∧
      lineCalls h m (ps++qs)=(lineCalls h m' qs).map (cs++·) := by
  induction ps generalizing m with
  | nil =>
    refine .inr ⟨m,[],rfl,rfl,?_⟩
    cases hqs : lineCalls h m qs with
    | none => exact hqs
    | some cs => exact hqs
  | cons p ps ih =>
    rw [pieceActions,List.cons_append,lineCalls]
    cases hscan : scanLine h m p with
    | none => exact .inl ⟨rfl,List.mem_cons_self,rfl⟩
    | some r =>
      obtain ⟨m₁,call⟩ := r
      simp only [Option.bind_eq_bind,Option.bind_some,Option.pure_def]
      rcases ih m₁ with ⟨hstop,hmem,hcalls⟩|⟨m',cs,hgo,hacts,hcalls⟩
      · rw [hcalls]
        exact .inl ⟨hstop,List.mem_append_right _ hmem,rfl⟩
      · refine .inr ⟨m',call.toList++cs,hgo,by rw [hacts,List.map_append],?_⟩
        rw [hcalls]
        cases lineCalls h m' qs with
        | none => rfl
        | some ds => exact congrArg some (List.append_assoc _ _ _).symm

theorem none_notMem_map {α : Type} (cs : List α) : none∉cs.map some := fun h => by
  obtain ⟨c,-,hc⟩ := List.mem_map.mp h
  cases hc

theorem lineCalls_fileActions (h : Host) (m : Nat → Byte) (lines : List Text) (cs : List Call) :
    lineCalls h m (lines.flatMap (fgets 1024))=some cs ↔
      (fileActions h m lines).flatten=cs.map some := by
  induction lines generalizing m cs with
  | nil =>
    rw [List.flatMap_nil,lineCalls,fileActions,List.flatten_nil,Option.some.injEq,eq_comm,
      eq_comm (a := []),List.map_eq_nil_iff]
  | cons line lines ih =>
    rw [List.flatMap_cons,fileActions,List.flatten_cons]
    rcases pieceActions_calls h m (fgets 1024 line) (lines.flatMap (fgets 1024)) with
      ⟨-,hmem,hcalls⟩|⟨m',ds,hgo,hacts,hcalls⟩
    · rw [hcalls]
      refine ⟨fun heq => (by cases heq),fun heq => ?_⟩
      exact absurd (heq ▸ List.mem_append_left _ hmem) (none_notMem_map cs)
    · rw [hcalls,hgo,hacts,Option.map_eq_some_iff]
      dsimp only
      constructor
      · rintro ⟨es,hes,rfl⟩
        rw [(ih m' es).mp hes,List.map_append]
      · intro heq
        obtain ⟨a,b,rfl,ha,hb⟩ := List.map_eq_append_iff.mp heq.symm
        have hads : a=ds := List.map_injective_iff.mpr (Option.some_injective Call) ha
        exact ⟨b,(ih m' b).mpr hb.symm,by rw [hads]⟩

/-- The directives that `parse` applies are the actions of the lines. -/
theorem directives_fileActions (h : Host) (file : Text) (cs : List Call) :
    directives h file=some cs ↔
      (fileActions h h.stack (Lines.split 10 file)).flatten=cs.map some := by
  rw [directives,fgets_flatMap]
  exact lineCalls_fileActions h h.stack (Lines.split 10 file) cs

theorem fileActions_clean (h : Host) (m : Nat → Byte) {lines : List Text}
    (hlines : ∀ line∈lines,line≠[] ∧ 10∉line.dropLast) :
    fileActions h m lines=askedFile h lines ↔ CleanFile h m lines := by
  induction lines generalizing m with
  | nil => exact ⟨fun _ => trivial,fun _ => rfl⟩
  | cons line lines ih =>
    rw [List.forall_mem_cons] at hlines
    have hline := pieceActions_iff h m hlines.1.1 hlines.1.2
    rw [fileActions,askedFile,CleanFile,List.cons.injEq,← hline]
    refine and_congr_right fun heq => ?_
    rw [← heq]
    rcases pieceActions_calls h m (fgets 1024 line) [] with
      ⟨hstop,hmem,-⟩|⟨m',ds,hgo,hacts,-⟩
    · rw [hstop,if_pos hmem]
      exact ⟨fun _ m' hm' => (by cases hm'),fun _ => rfl⟩
    · rw [hgo,hacts,if_neg (none_notMem_map ds)]
      refine (ih m' hlines.2).trans ⟨fun hclean m'' hm'' => ?_,fun hclean => hclean m' rfl⟩
      exact Option.some.inj hm'' ▸ hclean

/-- The server performs for each line the action that it asks for, exactly when each line that it
reads is clean. -/
theorem fileActions_iff (h : Host) (file : Text) :
    fileActions h h.stack (Lines.split 10 file)=askedFile h (Lines.split 10 file) ↔
      CleanFile h h.stack (Lines.split 10 file) :=
  fileActions_clean h h.stack (split_lines file)

/-- A `User` without a name takes what the line before it left. -/
theorem fileActions_stale :
    fileActions {} (Host.stack {}) (Lines.split 10 (str "Port 80 or 90\nUser\n"))=
      [[some ⟨.setInt .serverPort,some (str "80 or 90"),none⟩],
        [some ⟨.setUser,some (str "or 90"),none⟩]] ∧
    askedFile {} (Lines.split 10 (str "Port 80 or 90\nUser\n"))=
      [[some ⟨.setInt .serverPort,some (str "80 or 90"),none⟩],[some ⟨.setUser,some [],none⟩]] ∧
    fileActions {} (Host.stack {}) (Lines.split 10 (str "Port 80 or 90\nUser\n"))≠
      askedFile {} (Lines.split 10 (str "Port 80 or 90\nUser\n")) := by
  decide +kernel

end Crotalus
