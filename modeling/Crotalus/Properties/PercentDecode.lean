import Crotalus.Framework.Chunked
import Crotalus.Framework.Percent
import Crotalus.Server.Uri

namespace Crotalus

/-! The grammar of `unescape_uri`. -/

/-- The character that two hexadecimal digits stand for, when it is a printable one. -/
def escapeChar (a b : Byte) : Option Byte :=
  (Chunked.hexVal a).bind fun x => (Chunked.hexVal b).bind fun y =>
    if 32 ≤ 16*x+y ∧ 16*x+y ≤ 126 then some (UInt8.ofNat (16*x+y)) else none

/-- The URI in front of its first `?` or `#`. -/
def pathPart (uri : Text) : Text := uri.takeWhile fun b => b≠63 && b≠35

def WellEscaped (uri : Text) : Prop := Percent.WellFormed 37 escapeChar (pathPart uri)

/-- The path without its escapes, and the text behind the first `?`. -/
def uriParts (uri : Text) : Text × Option Text :=
  (Percent.decode 37 escapeChar (pathPart uri),queryBehind uri)

/-- The URIs of the grammar are accepted, no others, and they are taken apart as it says. -/
def DecodesByGrammar (uri : Text) : Prop :=
  ((unescapeUri uri).isSome=true ↔ WellEscaped uri) ∧
    (WellEscaped uri → unescapeUri uri=some (uriParts uri))

/-! One escape. -/

theorem hexVal_hexValue {c : Byte} {d : Nat} (h : Chunked.hexVal c=some d) :
    hexValue c=d ∧ d < 16 := by
  have hall : ∀ n < 256,(Chunked.hexVal (UInt8.ofNat n)).all
      (fun d : Nat => decide (hexValue (UInt8.ofNat n)=d ∧ d < 16))=true := by decide +kernel
  have hc := hall c.toNat c.toNat_lt
  rw [UInt8.ofNat_toNat,h] at hc
  exact of_decide_eq_true hc

theorem hexVal_ne {c : Byte} (h : (Chunked.hexVal c).isSome=true) : c≠37 ∧ c≠63 ∧ c≠35 := by
  refine ⟨?_,?_,?_⟩ <;> rintro rfl <;> exact absurd h (by decide)

theorem hexToDecimal_hex {a b : Byte} {x y : Nat} (ha : Chunked.hexVal a=some x)
    (hb : Chunked.hexVal b=some y) : hexToDecimal a b=((16*x+y : Nat) : Int).bmod 256 := by
  rw [hexToDecimal,(hexVal_hexValue ha).1,(hexVal_hexValue hb).1]
  refine congrArg (Int.bmod · 256) ?_
  push_cast
  omega

/-- On digits the macro gives their value, and what is above 127 turns negative. -/
theorem escapeChar_hex {a b : Byte} {x y : Nat} (ha : Chunked.hexVal a=some x)
    (hb : Chunked.hexVal b=some y) : escapeChar a b=
      if hexToDecimal a b < 32 ∨ hexToDecimal a b > 126 then none
      else some (UInt8.ofNat (hexToDecimal a b).toNat) := by
  have hx := (hexVal_hexValue ha).2
  have hy := (hexVal_hexValue hb).2
  rw [hexToDecimal_hex ha hb,escapeChar,ha,hb,Option.bind_some,Option.bind_some]
  by_cases hlow : 16*x+y < 128
  · have hv : ((16*x+y : Nat) : Int).bmod 256=(16*x+y : Nat) := by
      rw [Int.bmod_def]
      omega
    rw [hv,Int.toNat_natCast]
    by_cases hok : 32 ≤ 16*x+y ∧ 16*x+y ≤ 126
    · rw [if_pos hok,if_neg (by omega)]
    · rw [if_neg hok,if_pos (by omega)]
  · have hv : ((16*x+y : Nat) : Int).bmod 256=(16*x+y : Nat)-256 := by
      rw [Int.bmod_def]
      omega
    rw [hv,if_neg (by omega),if_pos (by omega)]

theorem escapeChar_digits {a b : Byte} (h : (escapeChar a b).isSome=true) :
    (Chunked.hexVal a).isSome=true ∧ (Chunked.hexVal b).isSome=true := by
  unfold escapeChar at h
  cases ha : Chunked.hexVal a with
  | none => rw [ha] at h; cases h
  | some x =>
    cases hb : Chunked.hexVal b with
    | none => rw [ha,hb] at h; cases h
    | some y => exact ⟨rfl,rfl⟩

theorem escapeChar_ne {a b : Byte} (h : (escapeChar a b).isSome=true) : a≠37 ∧ b≠37 :=
  ⟨(hexVal_ne (escapeChar_digits h).1).1,(hexVal_ne (escapeChar_digits h).2).1⟩

/-! The escapes as the loop reads them. -/

/-- The two characters behind each `%` that the loop comes to; `none` where the string ends
in front of them. -/
def escapesRead : Text → List (Option (Byte × Byte))
  | [] => []
  | c::s =>
    if c=37 then
      match s with
      | a::b::s => some (a,b)::escapesRead s
      | _ => [none]
    else if c=63 ∨ c=35 then []
    else escapesRead s

/-- The test that the loop makes. -/
def inRange (p : Byte × Byte) : Bool := 32 ≤ hexToDecimal p.1 p.2 ∧ hexToDecimal p.1 p.2 ≤ 126

def isHexPair (p : Byte × Byte) : Bool :=
  (Chunked.hexVal p.1).isSome && (Chunked.hexVal p.2).isSome

theorem pathPart_cons {c : Byte} (h63 : c≠63) (h35 : c≠35) (s : Text) :
    pathPart (c::s)=c::pathPart s :=
  List.takeWhile_cons_of_pos (by simp [h63,h35])

theorem pathPart_stop {c : Byte} (h : c=63 ∨ c=35) (s : Text) : pathPart (c::s)=[] := by
  refine List.takeWhile_cons_of_neg ?_
  rcases h with rfl|rfl <;> decide

/-- A URI that starts with an escape follows the grammar if the escape does and the rest. -/
theorem wellEscaped_escape {a b : Byte} {s : Text} :
    WellEscaped (37::a::b::s) ↔ (escapeChar a b).isSome=true ∧ WellEscaped s := by
  unfold WellEscaped
  rw [pathPart_cons (by decide) (by decide)]
  constructor
  · intro h
    obtain ⟨c,d,rest,heq,hchar⟩ := h.two
    have hpre : c::d::rest<+:a::b::s := heq ▸ List.takeWhile_prefix _
    obtain ⟨hca,htail⟩ := List.cons_prefix_cons.mp hpre
    obtain ⟨hdb,-⟩ := List.cons_prefix_cons.mp htail
    subst hca hdb
    obtain ⟨ha,hb⟩ := escapeChar_digits hchar
    rw [pathPart_cons (hexVal_ne ha).2.1 (hexVal_ne ha).2.2,
      pathPart_cons (hexVal_ne hb).2.1 (hexVal_ne hb).2.2] at h
    exact (Percent.wellFormed_escape fun _ _ => escapeChar_ne).mp h
  · rintro ⟨hchar,h⟩
    obtain ⟨ha,hb⟩ := escapeChar_digits hchar
    rw [pathPart_cons (hexVal_ne ha).2.1 (hexVal_ne ha).2.2,
      pathPart_cons (hexVal_ne hb).2.1 (hexVal_ne hb).2.2]
    exact (Percent.wellFormed_escape fun _ _ => escapeChar_ne).mpr ⟨hchar,h⟩

theorem not_wellEscaped_short {s : Text} (hs : s.length < 2) : ¬WellEscaped (37::s) := by
  unfold WellEscaped
  rw [pathPart_cons (by decide) (by decide)]
  intro h
  obtain ⟨c,d,rest,heq,-⟩ := h.two
  have hle := (List.takeWhile_prefix (p := fun b : Byte => b≠63 && b≠35) (l := s)).length_le
  rw [show s.takeWhile _=pathPart s from rfl,heq,List.length_cons,List.length_cons] at hle
  omega

theorem wellEscaped_plain {c : Byte} (h37 : c≠37) (h63 : c≠63) (h35 : c≠35) {s : Text} :
    WellEscaped (c::s) ↔ WellEscaped s := by
  unfold WellEscaped
  rw [pathPart_cons h63 h35]
  exact Percent.wellFormed_plain h37

theorem wellEscaped_stop {c : Byte} (h : c=63 ∨ c=35) (s : Text) : WellEscaped (c::s) := by
  unfold WellEscaped
  rw [pathPart_stop h]
  exact Percent.wellFormed_nil

/-- A URI, by what the loop meets first. -/
inductive UriCases : Text → Prop
  | nil : UriCases []
  | escape (a b : Byte) (s : Text) : UriCases s → UriCases (37::a::b::s)
  | short (s : Text) : s.length < 2 → UriCases (37::s)
  | stop (c : Byte) (s : Text) : c=63 ∨ c=35 → UriCases (c::s)
  | plain (c : Byte) (s : Text) : c≠37 → c≠63 → c≠35 → UriCases s → UriCases (c::s)

theorem uriCases (n : Nat) (uri : Text) (hn : uri.length ≤ n) : UriCases uri := by
  induction n generalizing uri with
  | zero =>
    rw [List.eq_nil_of_length_eq_zero (Nat.le_zero.mp hn)]
    exact .nil
  | succ n ih =>
    match uri with
    | [] => exact .nil
    | c::s =>
      rw [List.length_cons] at hn
      by_cases h37 : c=37
      · subst h37
        match s with
        | [] => exact .short [] (by decide)
        | [a] => exact .short [a] (by simp)
        | a::b::s =>
          rw [List.length_cons,List.length_cons] at hn
          exact .escape a b s (ih s (by omega))
      by_cases hstop : c=63 ∨ c=35
      · exact .stop c s hstop
      · rw [not_or] at hstop
        exact .plain c s h37 hstop.1 hstop.2 (ih s (by omega))

/-! The loop, piece by piece. -/

theorem unescapeUri_escape (a b : Byte) (s : Text) :
    unescapeUri (37::a::b::s)=if inRange (a,b) then
      (unescapeUri s).map fun r => (UInt8.ofNat (hexToDecimal a b).toNat::r.1,r.2) else none := by
  simp only [unescapeUri,if_true]
  by_cases hin : 32 ≤ hexToDecimal a b ∧ hexToDecimal a b ≤ 126
  · rw [if_neg (by omega),inRange,decide_eq_true hin,if_pos rfl]
  · rw [if_pos (by omega),inRange,decide_eq_false hin,if_neg Bool.false_ne_true]

theorem unescapeUri_short {s : Text} (hs : s.length < 2) : unescapeUri (37::s)=none := by
  match s with
  | [] => rfl
  | [a] => rfl

theorem unescapeUri_plain {c : Byte} (h37 : c≠37) (h63 : c≠63) (h35 : c≠35) (s : Text) :
    unescapeUri (c::s)=(unescapeUri s).map fun r => (c::r.1,r.2) := by
  match s with
  | [] => simp only [unescapeUri,if_neg h37,if_neg h63,if_neg h35]
  | [a] => simp only [unescapeUri,if_neg h37,if_neg h63,if_neg h35]
  | a::b::s => simp only [unescapeUri,if_neg h37,if_neg h63,if_neg h35]

theorem queryBehind_cons {c : Byte} (h : c≠63) (s : Text) :
    queryBehind (c::s)=queryBehind s := by
  rw [queryBehind,List.dropWhile_cons_of_pos (by simpa using h)]
  rfl

theorem unescapeUri_stop {c : Byte} (h : c=63 ∨ c=35) (s : Text) :
    unescapeUri (c::s)=some ([],queryBehind (c::s)) := by
  rcases h with rfl|rfl
  · match s with
    | [] => rfl
    | [a] => rfl
    | a::b::s => rfl
  · rw [queryBehind_cons (by decide)]
    match s with
    | [] => rfl
    | [a] => rfl
    | a::b::s => rfl

theorem escapesRead_plain {c : Byte} (h37 : c≠37) (h63 : c≠63) (h35 : c≠35) (s : Text) :
    escapesRead (c::s)=escapesRead s := by
  match s with
  | [] => simp only [escapesRead,if_neg h37,h63,h35,or_self,if_false]
  | [a] => simp only [escapesRead,if_neg h37,h63,h35,or_self,if_false]
  | a::b::s => simp only [escapesRead,if_neg h37,h63,h35,or_self,if_false]

theorem escapesRead_stop {c : Byte} (h : c=63 ∨ c=35) (s : Text) : escapesRead (c::s)=[] := by
  rcases h with rfl|rfl
  · match s with
    | [] => rfl
    | [a] => rfl
    | a::b::s => rfl
  · match s with
    | [] => rfl
    | [a] => rfl
    | a::b::s => rfl

theorem escapesRead_short {s : Text} (hs : s.length < 2) : escapesRead (37::s)=[none] := by
  match s with
  | [] => rfl
  | [a] => rfl

/-- The loop accepts what passes its test at every escape. -/
theorem unescapeUri_isSome (uri : Text) :
    (unescapeUri uri).isSome=true ↔ ∀ o∈escapesRead uri,o.any inRange=true := by
  induction uriCases uri.length uri (Nat.le_refl _) with
  | nil => exact ⟨fun _ _ h => absurd h List.not_mem_nil,fun _ => rfl⟩
  | escape a b s _ ih =>
    rw [unescapeUri_escape,show escapesRead (37::a::b::s)=some (a,b)::escapesRead s from rfl,
      List.forall_mem_cons,Option.any_some,← ih]
    cases inRange (a,b) with
    | true => simp
    | false => simp
  | short s hs =>
    rw [unescapeUri_short hs,escapesRead_short hs]
    simp
  | stop c s h =>
    rw [unescapeUri_stop h,escapesRead_stop h]
    simp
  | plain c s h37 h63 h35 _ ih =>
    rw [unescapeUri_plain h37 h63 h35,escapesRead_plain h37 h63 h35,Option.isSome_map]
    exact ih

theorem escapeChar_isSome (a b : Byte) :
    (escapeChar a b).isSome=true ↔ inRange (a,b)=true ∧ isHexPair (a,b)=true := by
  constructor
  · intro h
    obtain ⟨ha,hb⟩ := escapeChar_digits h
    obtain ⟨x,hx⟩ := Option.isSome_iff_exists.mp ha
    obtain ⟨y,hy⟩ := Option.isSome_iff_exists.mp hb
    rw [escapeChar_hex hx hy] at h
    refine ⟨decide_eq_true ?_,by rw [isHexPair,ha,hb]; rfl⟩
    change 32 ≤ hexToDecimal a b ∧ hexToDecimal a b ≤ 126
    split at h
    · cases h
    · omega
  · rintro ⟨hin,hhex⟩
    obtain ⟨ha,hb⟩ : (Chunked.hexVal a).isSome=true ∧ (Chunked.hexVal b).isSome=true :=
      Bool.and_eq_true _ _ ▸ hhex
    obtain ⟨x,hx⟩ := Option.isSome_iff_exists.mp ha
    obtain ⟨y,hy⟩ := Option.isSome_iff_exists.mp hb
    have hrange : 32 ≤ hexToDecimal a b ∧ hexToDecimal a b ≤ 126 := of_decide_eq_true hin
    rw [escapeChar_hex hx hy,if_neg (by omega)]
    rfl

/-- The grammar asks for hexadecimal digits besides. -/
theorem wellEscaped_iff (uri : Text) : WellEscaped uri ↔
    ∀ o∈escapesRead uri,o.any inRange=true ∧ o.any isHexPair=true := by
  induction uriCases uri.length uri (Nat.le_refl _) with
  | nil => exact ⟨fun _ _ h => absurd h List.not_mem_nil,fun _ => Percent.wellFormed_nil⟩
  | escape a b s _ ih =>
    rw [wellEscaped_escape,show escapesRead (37::a::b::s)=some (a,b)::escapesRead s from rfl,
      List.forall_mem_cons,Option.any_some,Option.any_some,escapeChar_isSome,ih]
  | short s hs =>
    rw [escapesRead_short hs]
    refine ⟨fun h => absurd h (not_wellEscaped_short hs),fun h => ?_⟩
    exact absurd (h none List.mem_cons_self).1 Bool.false_ne_true
  | stop c s h =>
    rw [escapesRead_stop h]
    exact ⟨fun _ _ h => absurd h List.not_mem_nil,fun _ => wellEscaped_stop h s⟩
  | plain c s h37 h63 h35 _ ih =>
    rw [wellEscaped_plain h37 h63 h35,escapesRead_plain h37 h63 h35]
    exact ih

theorem unescapeUri_wellEscaped {uri : Text} (h : WellEscaped uri) :
    unescapeUri uri=some (uriParts uri) := by
  induction uriCases uri.length uri (Nat.le_refl _) with
  | nil => rfl
  | escape a b s _ ih =>
    obtain ⟨hchar,hs⟩ := wellEscaped_escape.mp h
    obtain ⟨hin,-⟩ := (escapeChar_isSome a b).mp hchar
    obtain ⟨ha,hb⟩ := escapeChar_digits hchar
    obtain ⟨x,hx⟩ := Option.isSome_iff_exists.mp ha
    obtain ⟨y,hy⟩ := Option.isSome_iff_exists.mp hb
    have hrange : 32 ≤ hexToDecimal a b ∧ hexToDecimal a b ≤ 126 := of_decide_eq_true hin
    have hdecoded : escapeChar a b=some (UInt8.ofNat (hexToDecimal a b).toNat) := by
      rw [escapeChar_hex hx hy,if_neg (by omega)]
    rw [unescapeUri_escape,if_pos hin,ih hs,Option.map_some,uriParts,uriParts,
      pathPart_cons (by decide) (by decide),
      pathPart_cons (hexVal_ne ha).2.1 (hexVal_ne ha).2.2,
      pathPart_cons (hexVal_ne hb).2.1 (hexVal_ne hb).2.2,Percent.decode_escape,hdecoded,
      queryBehind_cons (by decide),queryBehind_cons (hexVal_ne ha).2.1,
      queryBehind_cons (hexVal_ne hb).2.1]
    rfl
  | short s hs => exact absurd h (not_wellEscaped_short hs)
  | stop c s hstop =>
    rw [unescapeUri_stop hstop,uriParts,pathPart_stop hstop]
    rfl
  | plain c s h37 h63 h35 _ ih =>
    rw [unescapeUri_plain h37 h63 h35,ih ((wellEscaped_plain h37 h63 h35).mp h),Option.map_some,
      uriParts,uriParts,pathPart_cons h63 h35,Percent.decode_plain h37,queryBehind_cons h63]

/-- Decoding follows the grammar exactly when the loop meets a value out of range or nothing
but hexadecimal digits. -/
theorem unescapeUri_grammar (uri : Text) : DecodesByGrammar uri ↔
    ((∀ o∈escapesRead uri,o.any inRange=true) → ∀ o∈escapesRead uri,o.any isHexPair=true) := by
  rw [DecodesByGrammar,and_iff_left fun h => unescapeUri_wellEscaped h,unescapeUri_isSome,
    wellEscaped_iff]
  constructor
  · exact fun hiff hrange o ho => (hiff.mp hrange o ho).2
  · intro hhex
    exact ⟨fun hrange o ho => ⟨hrange o ho,hhex hrange o ho⟩,fun h o ho => (h o ho).1⟩

/-- The colon is no digit, and is counted as ten. -/
theorem unescapeUri_colon : unescapeUri (str "/%2:")=some (str "/*",none) ∧
    ¬WellEscaped (str "/%2:") := by
  refine ⟨by decide,fun h => ?_⟩
  have hread : escapesRead (str "/%2:")=[some (50,58)] := rfl
  have hall := wellEscaped_iff (str "/%2:") |>.mp h (some (50,58))
  rw [hread] at hall
  exact absurd (hall List.mem_cons_self).2 (by decide)

end Crotalus
