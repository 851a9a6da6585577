import Crotalus.Framework.Path
import Crotalus.Properties.PercentDecode
import Crotalus.Server.Argv
import Crotalus.Server.Buffer

namespace Crotalus

/-! The arguments of an indexed query. -/

/-- The byte that two hexadecimal digits stand for. -/
def escapedByte (a b : Byte) : Option Byte :=
  (Chunked.hexVal a).bind fun x => (Chunked.hexVal b).map fun y => UInt8.ofNat (16*x+y)

/-- The characters that the comment lists for a word, the escapes aside. -/
def isSchar (c : Byte) : Bool := isAlnum c || (str "$-_.!*'(),;/?:@&").contains c

structure SearchWord (w : Text) : Prop where
  chars : ∀ c∈w,c=37 ∨ isSchar c=true
  escapes : Percent.WellFormed 37 escapedByte w

def decodeWord (w : Text) : Text := Percent.decode 37 escapedByte w

def searchWords (q : Text) : List Text := Path.segments 43 q

/-- The array holds `args` behind its first entry and ends there, inside its slots, and
nothing behind the slots was written. -/
structure Filled (before aargv : Nat → Option Text) (args : List Text) : Prop where
  holds : NullArray.Holds aargv 1 args
  ends : aargv (1+args.length)=none
  inside : 1+args.length≤cgiArgcMax
  kept : ∀ i,cgiArgcMax < i → aargv i=before i

/-- The arguments are the decoded words, as many as there is room for. -/
def ArgsDecoded (pathname q : Text) (aargv : Nat → Option Text) : Prop :=
  Filled aargv (createArgv pathname (some q) aargv)
    (((searchWords q).map decodeWord).take (cgiArgcMax-1))

/-- The word is read as what it stands for. -/
def readWord (w : Text) : Option Text := (unescapeUri w).map Prod.fst

def Printable (w : Text) : Prop := ∀ c∈w,32 ≤ c ∧ c ≤ 126

/-! The loop over the words. -/

theorem searchWords_cut (q : Text) :
    searchWords q=(cutWord q).1::((cutWord q).2.elim [] searchWords) := by
  induction q with
  | nil => rfl
  | cons c q ih =>
    rw [cutWord]
    by_cases hc : c=43
    · rw [if_pos hc,hc]
      exact Path.segments_sep 43 q
    · rw [if_neg hc]
      change Path.segments 43 (c::q)=_
      rw [Path.segments_cons 43 hc]
      change (c::(searchWords q).headD [])::(searchWords q).tail=_
      rw [ih]
      rfl

/-- The loop over a list of words. -/
def argvWords (aargv : Nat → Option Text) (aargc : Nat) : List Text → Nat → Option Text
  | [] => NullArray.put aargv aargc none
  | r::rs =>
    if aargc<cgiArgcMax then argvWords (putWord aargv aargc r).1 (putWord aargv aargc r).2 rs
    else NullArray.put aargv aargc none

theorem argvLoop_none (aargv : Nat → Option Text) (aargc : Nat) :
    argvLoop aargv aargc none=NullArray.put aargv aargc none := by
  rw [argvLoop]

theorem argvLoop_some (aargv : Nat → Option Text) (aargc : Nat) (w : Text) :
    argvLoop aargv aargc (some w)=if aargc<cgiArgcMax then
      argvLoop (putWord aargv aargc (cutWord w).1).1 (putWord aargv aargc (cutWord w).1).2
        (cutWord w).2
    else NullArray.put aargv aargc none := by
  rw [argvLoop]

theorem argvLoop_words (n : Nat) (q : Text) (hn : q.length≤n) (aargv : Nat → Option Text)
    (aargc : Nat) : argvLoop aargv aargc (some q)=argvWords aargv aargc (searchWords q) := by
  induction n generalizing q aargv aargc with
  | zero =>
    rw [List.eq_nil_of_length_eq_zero (Nat.le_zero.mp hn),argvLoop_some]
    change (if _ then argvLoop _ _ none else _)=argvWords aargv aargc [[]]
    rw [argvLoop_none]
    rfl
  | succ n ih =>
    rw [argvLoop_some,searchWords_cut,argvWords]
    cases hrest : (cutWord q).2 with
    | none =>
      rw [argvLoop_none]
      rfl
    | some rest =>
      have hlen := cutWord_length q rest hrest
      rw [ih rest (by omega)]
      rfl

theorem filled_put {aargv : Nat → Option Text} {args : List Text}
    (h : NullArray.Holds aargv 1 args) (hlen : args.length<cgiArgcMax) :
    Filled aargv (NullArray.put aargv (1+args.length) none) args where
  holds := h.put_outside (.inr (Nat.le_refl _))
  ends := NullArray.put_same ..
  inside := by omega
  kept i hi := NullArray.put_other (by omega)

/-- The words that are read fill the array until it is full. -/
theorem argvWords_filled (words args : List Text) {aargv : Nat → Option Text}
    (h : NullArray.Holds aargv 1 args) (hlen : args.length<cgiArgcMax) :
    Filled aargv (argvWords aargv (1+args.length) words)
      (args++(words.filterMap readWord).take (cgiArgcMax-1-args.length)) := by
  induction words generalizing args aargv with
  | nil =>
    rw [List.filterMap_nil,List.take_nil,List.append_nil]
    exact filled_put h hlen
  | cons r rs ih =>
    rw [argvWords]
    by_cases hroom : 1+args.length<cgiArgcMax
    · rw [if_pos hroom]
      cases hread : unescapeUri r with
      | none =>
        have hput : putWord aargv (1+args.length) r=(aargv,1+args.length) := by
          rw [putWord,hread]
        rw [hput,List.filterMap_cons_none (by rw [readWord,hread]; rfl)]
        exact ih args h hlen
      | some arg =>
        have hput : putWord aargv (1+args.length) r=
            (NullArray.put aargv (1+args.length) (some arg.1),1+(args++[arg.1]).length) := by
          rw [putWord,hread,List.length_append]
          rfl
        have hnext : cgiArgcMax-1-args.length=cgiArgcMax-1-(args++[arg.1]).length+1 := by
          rw [List.length_append,List.length_singleton]
          omega
        rw [hput,List.filterMap_cons_some (by rw [readWord,hread]; rfl),hnext,
          List.take_succ_cons,List.append_cons args arg.1 (List.take _ _)]
        have hfilled := ih (args++[arg.1]) (h.put arg.1) (by rw [List.length_append]; simpa using by omega)
        exact { hfilled with kept := fun i hi =>
          (hfilled.kept i hi).trans (NullArray.put_other (by omega)) }
    · rw [if_neg hroom,show cgiArgcMax-1-args.length=0 by omega,List.take_zero,List.append_nil]
      exact filled_put h hlen

theorem createArgv_filled (pathname : Text) {q : Text} (hq : 61∉q)
    (aargv : Nat → Option Text) : Filled aargv (createArgv pathname (some q) aargv)
      (((searchWords q).filterMap readWord).take (cgiArgcMax-1)) := by
  have hfilled := argvWords_filled (searchWords q) []
    (NullArray.Holds.nil (NullArray.put aargv 0 (some pathname)) 1) (by decide)
  rw [createArgv,if_neg hq,argvLoop_words q.length q (Nat.le_refl _)]
  exact { hfilled with kept := fun i hi =>
    (hfilled.kept i hi).trans (NullArray.put_other (by omega)) }

theorem Filled.args_eq {before aargv : Nat → Option Text} {xs ys : List Text}
    (hx : Filled before aargv xs) (hy : Filled before aargv ys) : xs=ys := by
  have hxroom := hx.inside
  have hyroom := hy.inside
  have hxs := hx.holds.entries hx.ends (show xs.length<cgiArgcMax by omega)
  have hys := hy.holds.entries hy.ends (show ys.length<cgiArgcMax by omega)
  exact hxs.symm.trans hys

/-! One word. -/

instance (w : Text) : Decidable (Printable w) :=
  inferInstanceAs (Decidable (∀ c∈w,32 ≤ c ∧ c ≤ 126))

theorem printable_cons {c : Byte} {w : Text} :
    Printable (c::w) ↔ (32 ≤ c ∧ c ≤ 126) ∧ Printable w := List.forall_mem_cons

theorem escapedByte_eq {a b c : Byte} (h : escapedByte a b=some c) :
    ∃ x y,Chunked.hexVal a=some x ∧ Chunked.hexVal b=some y ∧ UInt8.ofNat (16*x+y)=c ∧
      c.toNat=16*x+y := by
  cases ha : Chunked.hexVal a with
  | none => rw [escapedByte,ha] at h; cases h
  | some x =>
    cases hb : Chunked.hexVal b with
    | none => rw [escapedByte,ha,hb] at h; cases h
    | some y =>
      rw [escapedByte,ha,hb] at h
      cases h
      have hx := (hexVal_hexValue ha).2
      have hy := (hexVal_hexValue hb).2
      exact ⟨x,y,rfl,rfl,rfl,UInt8.toNat_ofNat_of_lt' (by change 16*x+y<256; omega)⟩

/-- The loop accepts an escape of a printable character, and stores that character. -/
theorem inRange_escaped {a b c : Byte} (h : escapedByte a b=some c) :
    (inRange (a,b)=true ↔ 32 ≤ c ∧ c ≤ 126) ∧
      (inRange (a,b)=true → UInt8.ofNat (hexToDecimal a b).toNat=c) := by
  obtain ⟨x,y,ha,hb,hval,hnat⟩ := escapedByte_eq h
  have hhex : isHexPair (a,b)=true := by rw [isHexPair,ha,hb]; rfl
  have hsome : inRange (a,b)=true ↔ (escapeChar a b).isSome=true := by
    rw [escapeChar_isSome,hhex]
    exact ⟨fun hin => ⟨hin,rfl⟩,And.left⟩
  have hchar : escapeChar a b=if 32 ≤ c ∧ c ≤ 126 then some c else none := by
    have hrange : 32 ≤ 16*x+y ∧ 16*x+y ≤ 126 ↔ 32 ≤ c ∧ c ≤ 126 := by
      rw [UInt8.le_iff_toNat_le,UInt8.le_iff_toNat_le,hnat]
      exact Iff.rfl
    rw [escapeChar,ha,hb,Option.bind_some,Option.bind_some,hval]
    exact if_congr hrange rfl rfl
  by_cases hc : 32 ≤ c ∧ c ≤ 126
  · rw [if_pos hc] at hchar
    have hin : inRange (a,b)=true := hsome.mpr (by rw [hchar]; rfl)
    have hrange : 32 ≤ hexToDecimal a b ∧ hexToDecimal a b ≤ 126 := of_decide_eq_true hin
    rw [escapeChar_hex ha hb,if_neg (by omega)] at hchar
    exact ⟨⟨fun _ => hc,fun _ => hin⟩,fun _ => Option.some.inj hchar⟩
  · rw [if_neg hc] at hchar
    rw [hchar] at hsome
    have hout : ¬inRange (a,b)=true := fun hin => absurd (hsome.mp hin) Bool.false_ne_true
    exact ⟨⟨fun hin => absurd hin hout,fun h => absurd h hc⟩,fun hin => absurd hin hout⟩

/-- A character of a word is printable, and is no `#`. -/
theorem isSchar_range {c : Byte} (h : isSchar c=true) : (32 ≤ c ∧ c ≤ 126) ∧ c≠35 := by
  have hall : ∀ n < 256,isSchar (UInt8.ofNat n)=true →
      (32 ≤ UInt8.ofNat n ∧ UInt8.ofNat n ≤ 126) ∧ UInt8.ofNat n≠35 := by decide +kernel
  have hc := hall c.toNat c.toNat_lt
  rw [UInt8.ofNat_toNat] at hc
  exact hc h

theorem SearchWord.tail {c : Byte} {w : Text} (h : SearchWord (c::w)) (hc : c≠37) :
    isSchar c=true ∧ SearchWord w :=
  ⟨(h.chars c List.mem_cons_self).resolve_left hc,
    fun d hd => h.chars d (List.mem_cons_of_mem c hd),(Percent.wellFormed_plain hc).mp h.escapes⟩

theorem SearchWord.escape {a b : Byte} {w : Text} (h : SearchWord (37::a::b::w)) :
    (∃ c,escapedByte a b=some c) ∧ SearchWord w := by
  obtain ⟨x,y,rest,heq,hbyte⟩ := h.escapes.two
  obtain ⟨rfl,rfl,rfl⟩ : a=x ∧ b=y ∧ w=rest := by
    simpa only [List.cons.injEq] using heq
  refine ⟨Option.isSome_iff_exists.mp hbyte,fun d hd => h.chars d ?_,
    fun i hi => h.escapes (i+3) hi⟩
  exact List.mem_cons_of_mem _ (List.mem_cons_of_mem _ (List.mem_cons_of_mem _ hd))

/-- A printable character in front of what is read. -/
theorem readWord_push {c : Byte} {w s front : Text} (hc : 32 ≤ c ∧ c ≤ 126)
    (hw : unescapeUri w=(unescapeUri s).map fun r => (c::r.1,r.2))
    (hs : readWord s=if Printable front then some front else none) :
    readWord w=if Printable (c::front) then some (c::front) else none := by
  have hmap : readWord w=(readWord s).map (c::·) := by
    rw [readWord,readWord,hw,Option.map_map,Option.map_map]
    rfl
  have hiff : Printable (c::front) ↔ Printable front := printable_cons.trans (and_iff_right hc)
  rw [hmap,hs]
  by_cases hfront : Printable front
  · rw [if_pos hfront,if_pos (hiff.mpr hfront)]
    rfl
  · rw [if_neg hfront,if_neg (mt hiff.mp hfront)]
    rfl

theorem printable_nil : Printable [] := fun _ h => absurd h List.not_mem_nil

/-- A word is read as what its part in front of the first question mark stands for, or not
at all when a character of that part is not printable. -/
theorem readWord_front {w : Text} (h : SearchWord w) :
    ∃ front back,decodeWord w=front++back ∧ (back=[] ↔ 63∉w) ∧
      readWord w=if Printable front then some front else none := by
  induction uriCases w.length w (Nat.le_refl _) with
  | nil =>
    exact ⟨[],[],rfl,⟨fun _ => List.not_mem_nil,fun _ => rfl⟩,(if_pos printable_nil).symm⟩
  | escape a b s _ ih =>
    obtain ⟨⟨c,hbyte⟩,hs⟩ := h.escape
    obtain ⟨front,back,hdecode,hback,hread⟩ := ih hs
    obtain ⟨x,y,ha,hb,-,-⟩ := escapedByte_eq hbyte
    have ha63 : a≠63 := (hexVal_ne (by rw [ha]; rfl)).2.1
    have hb63 : b≠63 := (hexVal_ne (by rw [hb]; rfl)).2.1
    refine ⟨c::front,back,?_,?_,?_⟩
    · rw [decodeWord,Percent.decode_escape,hbyte]
      exact congrArg (c::·) hdecode
    · rw [hback,List.mem_cons,List.mem_cons,List.mem_cons,or_iff_right (by decide),
        or_iff_right ha63.symm,or_iff_right hb63.symm]
    · obtain ⟨hin,hval⟩ := inRange_escaped hbyte
      by_cases hc : 32 ≤ c ∧ c ≤ 126
      · refine readWord_push hc ?_ hread
        rw [unescapeUri_escape,if_pos (hin.mpr hc),hval (hin.mpr hc)]
      · rw [readWord,unescapeUri_escape,if_neg fun hr => hc (hin.mp hr),
          if_neg fun hp => hc (printable_cons.mp hp).1]
        rfl
  | short s hs =>
    obtain ⟨a,b,rest,rfl,-⟩ := h.escapes.two
    exact absurd hs (by simp)
  | stop c s hstop =>
    have hc : c=63 := hstop.resolve_right fun h35 =>
      (isSchar_range ((h.chars c List.mem_cons_self).resolve_left (by rw [h35]; decide))).2 h35
    subst hc
    refine ⟨[],decodeWord (63::s),rfl,?_,?_⟩
    · rw [decodeWord,Percent.decode_plain (by decide)]
      exact ⟨fun h => (by cases h),fun h => absurd List.mem_cons_self h⟩
    · rw [readWord,unescapeUri_stop hstop,if_pos printable_nil]
      rfl
  | plain c s h37 h63 h35 _ ih =>
    obtain ⟨hschar,hs⟩ := h.tail h37
    obtain ⟨front,back,hdecode,hback,hread⟩ := ih hs
    refine ⟨c::front,back,?_,?_,?_⟩
    · rw [decodeWord,Percent.decode_plain h37]
      exact congrArg (c::·) hdecode
    · rw [hback,List.mem_cons,or_iff_right h63.symm]
    · exact readWord_push (isSchar_range hschar).1 (unescapeUri_plain h37 h63 h35 s) hread

theorem printable_append {v w : Text} : Printable (v++w) ↔ Printable v ∧ Printable w :=
  List.forall_mem_append

theorem readWord_iff {w : Text} (h : SearchWord w) :
    readWord w=some (decodeWord w) ↔ 63∉w ∧ Printable (decodeWord w) := by
  obtain ⟨front,back,hdecode,hback,hread⟩ := readWord_front h
  rw [hread,hdecode,← hback,printable_append]
  constructor
  · intro heq
    by_cases hfront : Printable front
    · rw [if_pos hfront] at heq
      have hnil : back=[] := List.self_eq_append_right.mp (Option.some.inj heq)
      exact ⟨hnil,hfront,by rw [hnil]; exact fun c hc => absurd hc List.not_mem_nil⟩
    · rw [if_neg hfront] at heq
      cases heq
  · rintro ⟨rfl,hfront,-⟩
    rw [if_pos hfront,List.append_nil]

theorem readWord_printable {w x : Text} (h : SearchWord w) (hx : readWord w=some x) :
    Printable x := by
  obtain ⟨front,back,-,-,hread⟩ := readWord_front h
  rw [hread] at hx
  by_cases hfront : Printable front
  · rw [if_pos hfront] at hx
    exact Option.some.inj hx ▸ hfront
  · rw [if_neg hfront] at hx
    cases hx

/-- What a refused word stands for is the value of no argument. -/
theorem readWord_refused {w : Text} (h : SearchWord w) (hw : readWord w=none) :
    ¬Printable (decodeWord w) := by
  obtain ⟨front,back,hdecode,-,hread⟩ := readWord_front h
  rw [hdecode,printable_append]
  rintro ⟨hfront,-⟩
  rw [hread,if_pos hfront] at hw
  cases hw

/-! All words. -/

/-- The words read are the decoded ones when none is refused and each is read in full. -/
theorem words_read_iff {words : List Text} (h : ∀ w∈words,SearchWord w) (k : Nat) :
    (words.filterMap readWord).take k=(words.map decodeWord).take k ↔
      ∀ w∈words.take k,readWord w=some (decodeWord w) := by
  induction words generalizing k with
  | nil => simp
  | cons w words ih =>
    cases k with
    | zero => simp
    | succ k =>
      have hw := h w List.mem_cons_self
      have hlater : ∀ v∈words,SearchWord v := fun v hv => h v (List.mem_cons_of_mem w hv)
      rw [List.map_cons,List.take_succ_cons,List.take_succ_cons,List.forall_mem_cons]
      cases hread : readWord w with
      | none =>
        rw [List.filterMap_cons_none hread]
        refine ⟨fun heq => ?_,fun hall => (by cases hall.1)⟩
        have hmem : decodeWord w∈words.filterMap readWord :=
          List.mem_of_mem_take (heq ▸ List.mem_cons_self)
        obtain ⟨v,hv,hval⟩ := List.mem_filterMap.mp hmem
        exact absurd (readWord_printable (hlater v hv) hval) (readWord_refused hw hread)
      | some x =>
        rw [List.filterMap_cons_some hread,List.take_succ_cons,List.cons.injEq,ih hlater,
          Option.some.injEq]

/-- The arguments are the decoded words exactly when no word that has room holds a question
mark or an escape of what is not printable. -/
theorem indexedArgs_iff (pathname q : Text) (aargv : Nat → Option Text) (hq : 61∉q)
    (hwords : ∀ w∈searchWords q,SearchWord w) : ArgsDecoded pathname q aargv ↔
      ∀ w∈(searchWords q).take (cgiArgcMax-1),63∉w ∧ Printable (decodeWord w) := by
  have hfilled := createArgv_filled pathname hq aargv
  have hread : ArgsDecoded pathname q aargv ↔
      ((searchWords q).filterMap readWord).take (cgiArgcMax-1)=
        ((searchWords q).map decodeWord).take (cgiArgcMax-1) :=
    ⟨fun hdecoded => hfilled.args_eq hdecoded,fun heq => by rw [ArgsDecoded,← heq]; exact hfilled⟩
  rw [hread,words_read_iff hwords]
  have hword : ∀ w∈(searchWords q).take (cgiArgcMax-1),
      (readWord w=some (decodeWord w) ↔ 63∉w ∧ Printable (decodeWord w)) :=
    fun w hw => readWord_iff (hwords w (List.mem_of_mem_take hw))
  exact ⟨fun hall w hw => (hword w hw).mp (hall w hw),fun hall w hw => (hword w hw).mpr (hall w hw)⟩

theorem indexedArgs_plus : ArgsDecoded (str "/cgi-bin/find") (str "a+b%2Bc") (fun _ => none) ↔
    ∀ w∈(searchWords (str "a+b%2Bc")).take (cgiArgcMax-1),63∉w ∧ Printable (decodeWord w) := by
  refine indexedArgs_iff _ _ _ (by decide +kernel) fun w hw => ?_
  have hmem : w=str "a" ∨ w=str "b%2Bc" := by
    have hwords : searchWords (str "a+b%2Bc")=[str "a",str "b%2Bc"] := by decide +kernel
    rw [hwords] at hw
    simpa using hw
  rcases hmem with rfl|rfl
  · exact ⟨by decide +kernel,(Percent.wellFormed_plain (by decide +kernel)).mpr Percent.wellFormed_nil⟩
  · refine ⟨by decide +kernel,(Percent.wellFormed_plain (by decide +kernel)).mpr ?_⟩
    refine (Percent.wellFormed_escape (fun a b h => ?_)).mpr ⟨by decide +kernel,?_⟩
    · obtain ⟨c,hc⟩ := Option.isSome_iff_exists.mp h
      obtain ⟨x,y,ha,hb,-,-⟩ := escapedByte_eq hc
      exact ⟨(hexVal_ne (by rw [ha]; rfl)).1,(hexVal_ne (by rw [hb]; rfl)).1⟩
    · exact (Percent.wellFormed_plain (by decide +kernel)).mpr Percent.wellFormed_nil

/-- The question mark of a word ends it. -/
theorem indexedArgs_question : 61∉str "a?b" ∧ (∀ w∈searchWords (str "a?b"),SearchWord w) ∧
    createArgv (str "/cgi-bin/find") (some (str "a?b")) (fun _ => none) 1=some (str "a") ∧
    ¬ArgsDecoded (str "/cgi-bin/find") (str "a?b") fun _ => none := by
  have hfilled := createArgv_filled (str "/cgi-bin/find") (show 61∉str "a?b" by decide +kernel) fun _ => none
  have hread : ((searchWords (str "a?b")).filterMap readWord).take (cgiArgcMax-1)=[str "a"] := by
    decide +kernel
  rw [hread] at hfilled
  refine ⟨by decide +kernel,fun w hw => ?_,hfilled.holds 0 (by decide +kernel),fun hdecoded => ?_⟩
  · rw [show searchWords (str "a?b")=[str "a?b"] by decide +kernel,List.mem_singleton] at hw
    subst hw
    refine ⟨by decide +kernel,?_⟩
    exact (Percent.wellFormed_plain (by decide +kernel)).mpr ((Percent.wellFormed_plain (by decide +kernel)).mpr
      ((Percent.wellFormed_plain (by decide +kernel)).mpr Percent.wellFormed_nil))
  · exact absurd (hfilled.args_eq hdecoded) (by decide +kernel)

end Crotalus
