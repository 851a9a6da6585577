import Crotalus.Server.State

namespace Crotalus

/-! URI and host name handling of `util.c`, and the MIME lookup of `cr_hash.c`. -/

/-- The loop of `clean_pathname`. The flag is set behind a `/`, where whole segments are
dropped; the number counts the bytes of such a segment still to pass over. -/
def cleanLoop : Nat → Bool → Text → Text
  | _, _, [] => []
  | k + 1, b, _ :: s => cleanLoop k b s
  | 0, true, c :: s =>
    if c = 47 then cleanLoop 0 true s
    else if c = 46 ∧ s.take 1 = [47] then cleanLoop 1 true s
    else if c = 46 ∧ s.take 2 = [46, 47] then cleanLoop 2 true s
    else c :: cleanLoop 0 false s
  | 0, false, c :: s => if c = 47 then 47 :: cleanLoop 0 true s else c :: cleanLoop 0 false s

def cleanPathname (pathname : Text) : Text := cleanLoop 0 false pathname

/-- A `char` as an `int`. -/
def charInt (c : Byte) : Int := if c < 128 then c.toNat else c.toNat - 256

/-- One operand of `HEX_TO_DECIMAL`. -/
def hexValue (c : Byte) : Int :=
  if charInt c ≥ 65 then (c &&& 0xdf).toNat - 65 + 10 else charInt c - 48

/-- `HEX_TO_DECIMAL` stored in a `char`. -/
def hexToDecimal (c d : Byte) : Int := (hexValue c * 16 + hexValue d).bmod 256

/-- The search of `unescape_uri` for a query string behind a fragment. -/
def queryBehind (s : Text) : Option Text :=
  match s.dropWhile (· ≠ 63) with
  | [] => none
  | _ :: q => some q

/-- Decoded path and query string; `none` is the error return. -/
def unescapeUri : Text → Option (Text × Option Text)
  | [] => some ([], none)
  | c :: s =>
    if c = 37 then
      match s with
      | a :: b :: s =>
        let v := hexToDecimal a b
        if v < 32 ∨ v > 126 then none
        else (unescapeUri s).map fun (path, q) => (UInt8.ofNat v.toNat :: path, q)
      | _ => none
    else if c = 63 then some ([], some s)
    else if c = 35 then some ([], queryBehind s)
    else (unescapeUri s).map fun (path, q) => (c :: path, q)

def isAlnumHost (b : Byte) : Bool := (65 ≤ b ∧ b ≤ 90) ∨ (97 ≤ b ∧ b ≤ 122) ∨ isDigit b

/-- Interior characters of a host name; the flag is `period_ok`. -/
def hostInterior : Bool → Text → Bool
  | _, [] => true
  | ok, c :: s =>
    if isAlnumHost c || c = 45 then hostInterior true s
    else if c = 46 && ok then hostInterior false s
    else false

def checkHost (r : Text) : Int :=
  match r with
  | [] => -1
  | c :: s =>
    if !isAlnumHost c then -1
    else if r.length > 63 then -1
    else if !hostInterior false s then -1
    else if !isAlnumHost (r.getLastD 0) then -1
    else r.length

def getMimeType (e : Config) (filename : Text) : Text :=
  match strrchr 46 filename with
  | none => e.defaultType
  | some i =>
    let extension := filename.drop (i + 1)
    if extension = [] then e.defaultType
    else ((e.mimeHashtable.find? fun kv => kv.1 = extension).map (·.2)).getD e.defaultType

end Crotalus
