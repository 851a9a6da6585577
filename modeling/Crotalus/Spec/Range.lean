import Crotalus.Server.Range

namespace Crotalus

/-! Byte ranges as the protocol has them, over the markers of `range_parse`. -/

/-- `first-last`, `first-` and `-suffix`. -/
inductive RangeSpec where
  | firstLast (a b : Nat)
  | first (a : Nat)
  | suffix (n : Nat)
  deriving DecidableEq, Repr

/-- How `range_parse` records it: -1 stands for the number that is absent. -/
def RangeSpec.toRange : RangeSpec → Range
  | .firstLast a b => ⟨a, b⟩
  | .first a => ⟨a, minusOne⟩
  | .suffix n => ⟨minusOne, n⟩

/-- The bytes it selects of a file of `size` bytes; `none` when it is not satisfiable. -/
def RangeSpec.resolve (size : Nat) : RangeSpec → Option Range
  | .firstLast a b => if a ≤ b ∧ a < size then some ⟨a, min b (size - 1)⟩ else none
  | .first a => if a < size then some ⟨a, size - 1⟩ else none
  | .suffix n => if 0 < n then some ⟨size - min n size, size - 1⟩ else none

/-- The specs that `ranges_fixup` resolves so. A suffix must be shorter than the file. The
last position 2^32-1 is taken for the marker, which only a longer file shows; and a first
position 2^64-1 is the marker of a suffix. -/
def RangeSpec.Clear (size : Nat) : RangeSpec → Prop
  | .firstLast a b =>
    ¬(b = 2^32 - 1 ∧ 2^32 < size ∧ a < size) ∧ ¬(a = minusOne ∧ 0 < b ∧ 1 < size)
  | .first a => ¬(a = minusOne ∧ 1 < size)
  | .suffix n => n < size ∧ ¬(n = 2^32 - 1 ∧ 2^32 < size)

instance (size : Nat) : ∀ s : RangeSpec, Decidable (s.Clear size)
  | .firstLast a b => inferInstanceAs (Decidable
      (¬(b = 2^32 - 1 ∧ 2^32 < size ∧ a < size) ∧ ¬(a = minusOne ∧ 0 < b ∧ 1 < size)))
  | .first a => inferInstanceAs (Decidable ¬(a = minusOne ∧ 1 < size))
  | .suffix n => inferInstanceAs (Decidable (n < size ∧ ¬(n = 2^32 - 1 ∧ 2^32 < size)))

/-! The grammar of a list of ranges. -/

def Digits (d : Text) : Prop := ∀ c ∈ d, isDigit c = true
def Spaces (w : Text) : Prop := ∀ c ∈ w, isSpace c = true
def isSep (c : Byte) : Bool := isSpace c || c = 44
def Seps (s : Text) : Prop := ∀ c ∈ s, isSep c = true

/-- The text of one range: digits, white space, a hyphen, white space, digits. -/
structure SpecText where
  d1 : Text
  w1 : Text
  w2 : Text
  d2 : Text
  deriving DecidableEq, Repr

def SpecText.text (q : SpecText) : Text := q.d1 ++ q.w1 ++ 45 :: (q.w2 ++ q.d2)

structure SpecText.Clean (q : SpecText) : Prop where
  d1 : Digits q.d1
  w1 : Spaces q.w1
  w2 : Spaces q.w2
  d2 : Digits q.d2

/-- One of the numbers is there. -/
def SpecText.Numbered (q : SpecText) : Prop := q.d1 ≠ [] ∨ q.d2 ≠ []

/-- The range it writes, when a number is there. -/
def SpecText.spec (q : SpecText) : RangeSpec :=
  if q.d1 = [] then .suffix (digitsValue q.d2)
  else if q.d2 = [] then .first (digitsValue q.d1)
  else .firstLast (digitsValue q.d1) (digitsValue q.d2)

/-- The text starts with a separator or is over. -/
def SepHead (t : Text) : Prop := ∀ c ∈ t.head?, isSep c = true

/-- Behind its white space the text starts with a comma or is over. -/
def CommaHead (t : Text) : Prop := ∀ c ∈ (t.dropWhile isSpace).head?, c = 44

/-- A list of ranges, separators between any two and where else they stand; `ok` says which
ranges the text behind them allows. -/
inductive SpecList (ok : SpecText → Text → Prop) : Text → List SpecText → Prop where
  | done {s : Text} : Seps s → SpecList ok s []
  | spec {s : Text} {q : SpecText} {rest : Text} {qs : List SpecText} : Seps s → q.Clean →
      ok q rest → SepHead rest → SpecList ok rest qs → SpecList ok (s ++ q.text ++ rest) (q :: qs)

/-- The protocol's list. -/
def RangeList : Text → List SpecText → Prop := SpecList fun q _ => q.Numbered

/-- The list that the scan of `range_parse` recognizes: a range need have no number at all,
but one that ends with its hyphen stands before a comma or at the end. -/
def ScannedList : Text → List SpecText → Prop :=
  SpecList fun q rest => q.d2 = [] → CommaHead rest

/-- No number of the text is 2^64-1 or more. -/
def NumbersFit (t : Text) : Prop :=
  ∀ x d y, t = x ++ d ++ y → Digits d → digitsValue d < minusOne

/-- Two hyphens with at most white space and then digits between them. -/
def Crossed (t : Text) : Prop :=
  ∃ x w d y, Spaces w ∧ Digits d ∧ t = x ++ 45 :: (w ++ d ++ 45 :: y)

/-- What the scan records: the number modulo 2^64, or the marker. -/
def SpecText.stored (q : SpecText) : Range :=
  ⟨if q.d1 = [] then minusOne else u64 (digitsValue q.d1),
    if q.d2 = [] then minusOne else u64 (digitsValue q.d2)⟩

/-- Both numbers are 2^32-1, the value the scan compares with. -/
def SpecText.Refused (q : SpecText) : Prop :=
  q.stored.start = q.stored.stop ∧ q.stored.start = 2^32 - 1

instance (q : SpecText) : Decidable q.Refused := inferInstanceAs (Decidable (_ ∧ _))

end Crotalus
