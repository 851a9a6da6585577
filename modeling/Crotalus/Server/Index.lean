import Crotalus.Server.Buffer

namespace Crotalus

/-! The page of a directory: `escape.c`, `escape_string` and `index_directory`. -/

/-- The characters `build_needs_escape` leaves alone. -/
def unescaped : Text :=
  str "ABCDEFGHIJKLMNOPQRSTUVWXYZabcdefghijklmnopqrstuvwxyz0123456789-_.!~*'():@&=+$,/?"

/-- `NEEDS_ESCAPE_MASK` is an `int`, which the table's `unsigned long` extends with its sign. -/
def needsEscapeMask (c : Nat) : BitVec 32 := 1#32 <<< (c % 32)

/-- The table of `build_needs_escape`, of which each word holds the bits of 32 characters. -/
def buildNeedsEscape : Nat → BitVec 64 :=
  unescaped.foldl (fun table c => fun w =>
      if c < 128 ∧ w = c.toNat / 32 then table w &&& (~~~needsEscapeMask c.toNat).signExtend 64
      else table w)
    fun _ => BitVec.allOnes 64

/-- `needs_escape` as it reads the table. -/
def needsEscapeBit (c : Byte) : Bool :=
  128 ≤ c || buildNeedsEscape (c.toNat / 32) &&& (needsEscapeMask c.toNat).signExtend 64 ≠ 0

def escapeByte (c : Byte) : Text :=
  if needsEscapeBit c then [37, hexDigit (c.toNat / 16), hexDigit (c.toNat % 16)] else [c]

/-- `escape_string` without a buffer: it makes room for the result, which an empty string
does not ask for. -/
def escapeStringNew (inp : Text) : Option Text :=
  if inp = [] then none else some (inp.flatMap escapeByte)

/-- The line of a directory entry. -/
def indexEntry (name : Text) : Text :=
  if name = str "." then []
  else if name = str ".." then str " [DIR] <A HREF=\"../\">Parent Directory</A>\n"
  else
    match escapeStringNew name with
    | none => []
    | some escname => str " <A HREF=\"" ++ escname ++ str "\">" ++ name ++ str "</A>\n"

/-- The page `index_directory` writes for a URI. -/
def indexPage (requestUri : Text) (names : List Text) : Text :=
  str "<HTML><HEAD>\n<TITLE>Index of " ++ requestUri ++ str "</TITLE>\n</HEAD>\n\n" ++
    str "<BODY>\n\n<H2>Index of " ++ requestUri ++ str "</H2>\n\n<PRE>\n" ++
    names.flatMap indexEntry ++ str "</PRE>\n\n</BODY>\n</HTML>\n"

end Crotalus
