import Crotalus.Server.Defs

namespace Crotalus

/-! Text helpers of the C library. -/

def lowerByte (b : Byte) : Byte := if 65 ≤ b ∧ b ≤ 90 then b + 32 else b
def upperByte (b : Byte) : Byte := if 97 ≤ b ∧ b ≤ 122 then b - 32 else b
def isDigit (b : Byte) : Bool := 48 ≤ b ∧ b ≤ 57
def isSpace (b : Byte) : Bool := b = 32 ∨ (9 ≤ b ∧ b ≤ 13)

def strcaseEq (s t : Text) : Bool := s.map lowerByte = t.map lowerByte

/-- `!strncasecmp(s, t, n)` for a `t` of length `n`. -/
def strncaseEq (s t : Text) : Bool := strcaseEq (s.take t.length) t

/-- `!memcmp(s, t, n)` for a literal `t` of length `n` compared with its terminator. -/
def startsWith (s t : Text) : Bool := s.take t.length = t

/-- `strstr`: position of the first occurrence. -/
def strstr (pat : Text) : Text → Option Nat
  | [] => if pat = [] then some 0 else none
  | b :: s => if startsWith (b :: s) pat then some 0 else (strstr pat s).map (· + 1)

def strchr (b : Byte) (s : Text) : Option Nat := s.findIdx? (· = b)

/-- `strrchr`: position of the last occurrence. -/
def strrchr (b : Byte) : Text → Option Nat
  | [] => none
  | c :: s => ((strrchr b s).map (· + 1)).or (if c = b then some 0 else none)

/-- The loop of `simple_itoa`: decimal digits, least significant first. Its buffer holds
21 of them. -/
def digitsRev : Nat → Nat → Text
  | 0, _ => []
  | k + 1, i =>
    let d := UInt8.ofNat (48 + i % 10)
    if i / 10 = 0 then [d] else d :: digitsRev k (i / 10)

/-- `simple_itoa` takes an `unsigned int`. -/
def simpleItoa (i : Nat) : Text := (digitsRev 21 (u32 i)).reverse

def digitsValue (s : Text) : Nat := s.foldl (fun v b => v * 10 + (b.toNat - 48)) 0

/-- `atoi` of a string that starts with a digit: the leading digits saturated to `long`,
reduced to `int`. -/
def atoi (s : Text) : Int := i32 (min (digitsValue (s.takeWhile isDigit)) (2^63 - 1))

def boaAtoi (s : Text) : Int :=
  match s with
  | [] => -1
  | b :: _ =>
    if !isDigit b then -1
    else if atoi s < 0 then -1
    else if (simpleItoa (atoi s).toNat).take s.length = s then atoi s
    else -1

/-- `to_upper`: header names become parts of environment variable names. -/
def toUpper (s : Text) : Text := s.map fun b => if b = 45 then 95 else upperByte b

def strlower (s : Text) : Text := s.map lowerByte

/-! Dates. -/

/-- The fields of `struct tm` that the code reads; `year` counts from 1900. -/
structure Tm where
  sec : Int
  min : Int
  hour : Int
  mday : Int
  mon : Int
  year : Int
  wday : Int
  deriving DecidableEq, Repr

def dayTab : List Text := [str "Sun,", str "Mon,", str "Tue,", str "Wed,", str "Thu,",
  str "Fri,", str "Sat,"]

def monthTab : List Text := [str "Jan ", str "Feb ", str "Mar ", str "Apr ", str "May ",
  str "Jun ", str "Jul ", str "Aug ", str "Sep ", str "Oct ", str "Nov ", str "Dec "]

def twoDigits (n : Int) : Text :=
  [UInt8.ofNat (48 + n.toNat / 10), UInt8.ofNat (48 + n.toNat % 10)]

def rfc822TimeBuf (t : Tm) : Text :=
  dayTab.getD t.wday.toNat [] ++ [32] ++ twoDigits t.mday ++ [32] ++
    monthTab.getD t.mon.toNat [] ++ (digitsRev 21 (1900 + t.year).toNat).reverse ++ [32] ++
    twoDigits t.hour ++ [58] ++ twoDigits t.min ++ [58] ++ twoDigits t.sec ++ str " GMT"

def month2int (m : Text) : Int :=
  let c := m.getD 0 0
  if c = 65 then (if m.getD 1 0 = 112 then 3 else 7)
  else if c = 68 then 11
  else if c = 70 then 1
  else if c = 74 then
    (if m.getD 1 0 = 97 then 0 else if m.getD 2 0 = 110 then 5 else 6)
  else if c = 77 then (if m.getD 2 0 = 114 then 2 else 4)
  else if c = 78 then 10
  else if c = 79 then 9
  else if c = 83 then 8
  else -1

/-- `%d` of `sscanf`. -/
def scanInt (s : Text) : Option (Int × Text) :=
  let s := s.dropWhile isSpace
  let neg := s.head? = some 45
  let s := if s.head? = some 45 ∨ s.head? = some 43 then s.drop 1 else s
  let ds := s.takeWhile isDigit
  if ds = [] then none
  else
    let v : Int := min (digitsValue ds) (2^63 - 1)
    some (i32 (if neg then -v else v), s.drop ds.length)

/-- `%ks` of `sscanf`. -/
def scanWord (k : Nat) (s : Text) : Option (Text × Text) :=
  let w := ((s.dropWhile isSpace).take k).takeWhile fun b => !isSpace b
  if w = [] then none else some (w, (s.dropWhile isSpace).drop w.length)

def scanChar (b : Byte) : Text → Option Text
  | c :: s => if c = b then some s else none
  | [] => none

/-- `%d:%d:%d`. -/
def scanClock (s : Text) : Option ((Int × Int × Int) × Text) := do
  let (h, s) ← scanInt s
  let (m, s) ← scanInt (← scanChar 58 s)
  let (x, s) ← scanInt (← scanChar 58 s)
  return ((h, m, x), s)

/-- `"%d < sep>%ks < sep>%d %d:%d:%d GMT"`, the separator a blank or a hyphen. -/
def scanDayFirst (sep : Text → Option Text) (k : Nat) (s : Text) : Option (Text × Tm) := do
  let (d, s) ← scanInt s
  let (m, s) ← scanWord k (← sep s)
  let (y, s) ← scanInt (← sep s)
  let ((hh, mm, ss), _) ← scanClock s
  return (m, ⟨ss, mm, hh, d, 0, y, 0⟩)

/-- `"%3s %d %d:%d:%d %d"`. -/
def scanMonthFirst (s : Text) : Option (Text × Tm) := do
  let (m, s) ← scanWord 3 s
  let (d, s) ← scanInt s
  let ((hh, mm, ss), s) ← scanClock s
  let (y, _) ← scanInt s
  return (m, ⟨ss, mm, hh, d, 0, y, 0⟩)

def dateToTm (cmtime : Text) : Option Tm :=
  let rest := cmtime.dropWhile (· ≠ 32)
  if rest = [] then none
  else
    match (scanDayFirst some 3 rest).or ((scanDayFirst (scanChar 45) 3 rest).or
        ((scanMonthFirst rest).or (scanDayFirst some 10 cmtime))) with
    | none => none
    | some (m, t) =>
      let y := if t.year < 70 then t.year + 100 else t.year
      let y := if y > 1900 then y - 1900 else y
      let t := { t with mon := month2int m, year := y }
      if t.mon = -1 ∨ t.sec < 0 ∨ t.sec > 59 ∨ t.min < 0 ∨ t.min > 59 ∨ t.hour < 0 ∨
          t.hour > 23 ∨ t.mday < 1 ∨ t.mday > 31 ∨ t.mon < 0 ∨ t.mon > 11 ∨
          t.year < 70 ∨ t.year > 120 then none
      else some t

/-- -1 for an unreadable date, 1 when the file is newer, 0 otherwise. -/
def modifiedSince (fileGmt : Tm) (ifModifiedSince : Text) : Int :=
  match dateToTm ifModifiedSince with
  | none => -1
  | some p =>
    if fileGmt.year ≠ p.year then (if fileGmt.year > p.year then 1 else 0)
    else if fileGmt.mon ≠ p.mon then (if fileGmt.mon > p.mon then 1 else 0)
    else if fileGmt.mday ≠ p.mday then (if fileGmt.mday > p.mday then 1 else 0)
    else if fileGmt.hour ≠ p.hour then (if fileGmt.hour > p.hour then 1 else 0)
    else if fileGmt.min ≠ p.min then (if fileGmt.min > p.min then 1 else 0)
    else if fileGmt.sec ≠ p.sec then (if fileGmt.sec > p.sec then 1 else 0)
    else 0

end Crotalus
