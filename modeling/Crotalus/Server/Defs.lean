import Mathlib.Algebra.Ring.Int.Defs
import Mathlib.Algebra.Ring.Nat
import Mathlib.Data.List.Basic

namespace Crotalus

abbrev Byte := UInt8

/-- C strings, without their terminator. -/
abbrev Text := List Byte

def str (s : String) : Text := s.toList.map fun c => UInt8.ofNat c.toNat

def crlf : Text := [13, 10]

def bufferSize : Nat := 4096
def clientStreamSize : Nat := 8192
def maxHeaderLength : Nat := 1024
def maxPathLength : Nat := 4096
def maxFileMmap : Nat := 100 * 1024
def cgiEnvMax : Nat := 100
def requestTimeout : Nat := 60

/-- Unsigned and signed narrowing of C integer assignments. -/
def u32 (n : Nat) : Nat := n % 2^32
def u64 (n : Nat) : Nat := n % 2^64
def i32 (n : Int) : Int := n.bmod (2^32)

/-- The `unsigned long` that `-1` becomes. -/
def minusOne : Nat := 2^64 - 1

inductive Status where
  | readHeader | oneCr | oneLf | twoCr
  | bodyRead | bodyWrite
  | write
  | buffPoll | buffRead | buffWrite
  | pipeRead | pipeWrite
  | ioshuffle
  | done
  | timedOut
  | dead
  deriving DecidableEq, Repr

/-- Position in `enum REQ_STATUS`; the code compares statuses by it. -/
def Status.rank : Status → Nat
  | .readHeader => 0 | .oneCr => 1 | .oneLf => 2 | .twoCr => 3
  | .bodyRead => 4 | .bodyWrite => 5
  | .write => 6
  | .buffPoll => 7 | .buffRead => 8 | .buffWrite => 9
  | .pipeRead => 10 | .pipeWrite => 11
  | .ioshuffle => 12
  | .done => 13
  | .timedOut => 14
  | .dead => 15

/-- `status > DONE`. -/
def Status.over (s : Status) : Bool := Status.rank .done < s.rank

/-! `sanitize_request` zeroes the enumerations below, and zero names no enumerator of
the version, the method and the CGI type: `unset` stands for it. -/

inductive Version where
  | unset | http09 | http10 | http11
  deriving DecidableEq, Repr

inductive Method where
  | unset | get | head | put | post
  deriving DecidableEq, Repr

inductive CgiType where
  | unset | nph | exec | work | php
  deriving DecidableEq, Repr

inductive KaStatus where
  | inactive | active | stopped
  deriving DecidableEq, Repr

inductive CgiStatus where
  | parse | buffer | done
  deriving DecidableEq, Repr

inductive Errno where
  | again | intr | connReset | pipe | noEnt | acces | perm | noMem | noSpc | inval | other
  deriving DecidableEq, Repr

structure Range where
  start : Nat
  stop : Nat
  deriving DecidableEq, Repr

inductive FilterKind where
  | deflate | gzip
  deriving DecidableEq, Repr

inductive MimeHandler where
  | cgi | php | gzip
  deriving DecidableEq, Repr

/-- `mime_t`. No definition of the table has a post or a put handler. -/
structure Mime where
  type : Text
  ext : Text
  head : Option MimeHandler
  get : Option MimeHandler
  isEncode : Bool
  isInline : Bool
  deriving DecidableEq, Repr

inductive FileKind where
  | dir | reg | special
  deriving DecidableEq, Repr

/-- What `stat` reports of a file, and its contents. -/
structure File where
  kind : FileKind
  size : Nat
  mtime : Nat
  dev : Nat
  ino : Nat
  bytes : List Byte
  deriving DecidableEq, Repr

/-- The file as a mapping of its size shows it: zero behind the end of what it contains. -/
def File.mapped (f : File) : List Byte :=
  f.bytes ++ List.replicate (f.size - f.bytes.length) 0

/-- Where `header_line` and `header_end` point. -/
inductive Area where
  | stream | buffer
  deriving DecidableEq, Repr

end Crotalus
