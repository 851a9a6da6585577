import Crotalus.Server.Response

namespace Crotalus

/-! `range.c`. -/

inductive RangeMode where
  | initial | startnum | gap1 | gap2 | stopnum
  deriving DecidableEq, Repr

inductive RangeCode where
  | digit | white | comma | hyphen | null | other
  deriving DecidableEq, Repr

/-- First action of a table entry: push or disable an end of the range. -/
inductive RangeAct where
  | none | pb | pe | db | de
  deriving DecidableEq, Repr

/-- Second action: abort or submit. -/
inductive RangeVerdict where
  | none | ar | sr
  deriving DecidableEq, Repr

def rangeCode (c : Byte) : RangeCode :=
  if isDigit c then .digit
  else if isSpace c then .white
  else if c = 44 then .comma
  else if c = 45 then .hyphen
  else .other

/-- The table of `range_parse`. -/
def stable : RangeMode → RangeCode → RangeAct × RangeVerdict × RangeMode
  | .initial, .digit => (.pb, .none, .startnum)
  | .initial, .white => (.none, .none, .initial)
  | .initial, .comma => (.none, .none, .initial)
  | .initial, .hyphen => (.db, .none, .gap2)
  | .initial, .null => (.none, .none, .initial)
  | .initial, .other => (.none, .ar, .initial)
  | .startnum, .digit => (.pb, .none, .startnum)
  | .startnum, .white => (.none, .none, .gap1)
  | .startnum, .hyphen => (.none, .none, .gap2)
  | .startnum, _ => (.none, .ar, .initial)
  | .gap1, .white => (.none, .none, .gap1)
  | .gap1, .hyphen => (.none, .none, .gap2)
  | .gap1, _ => (.none, .ar, .initial)
  | .gap2, .digit => (.pe, .none, .stopnum)
  | .gap2, .white => (.none, .none, .gap2)
  | .gap2, .comma => (.de, .sr, .initial)
  | .gap2, .null => (.de, .sr, .initial)
  | .gap2, _ => (.none, .ar, .initial)
  | .stopnum, .digit => (.pe, .none, .stopnum)
  | .stopnum, .white => (.none, .sr, .initial)
  | .stopnum, .comma => (.none, .sr, .initial)
  | .stopnum, .null => (.none, .sr, .initial)
  | .stopnum, _ => (.none, .ar, .initial)

structure RangeScan where
  mode : RangeMode
  start : Nat
  stop : Nat
  added : List Range
  deriving DecidableEq, Repr

def RangeAct.run (c : Byte) : RangeAct → RangeScan → RangeScan
  | .none, s => s
  | .pb, s => { s with start := u64 (s.start * 10 + (c.toNat - 48)) }
  | .db, s => { s with start := minusOne }
  | .pe, s => { s with stop := u64 (s.stop * 10 + (c.toNat - 48)) }
  | .de, s => { s with stop := minusOne }

/-- One character of the scan; `none` aborts it. The test for a range without numbers
compares with an `unsigned int` -1. -/
def rangeStep (code : RangeCode) (c : Byte) (s : RangeScan) : Option RangeScan :=
  let (act, verdict, mode) := stable s.mode code
  let s := act.run c s
  match verdict with
  | .ar => none
  | .none => some { s with mode := mode }
  | .sr =>
    if s.start = s.stop ∧ s.start = 2^32 - 1 then none
    else some ⟨mode, 0, 0, s.added ++ [⟨s.start, s.stop⟩]⟩

def rangeScan : Text → RangeScan → Option RangeScan
  | [], s => rangeStep .null 0 s
  | c :: cs, s => (rangeStep (rangeCode c) c s).bind (rangeScan cs)

/-- `range_add` of several ranges. -/
def Request.rangeAdd (r : Request) (rs : List Range) : Request :=
  { r with ranges := r.ranges ++ rs, numranges := r.numranges + rs.length }

/-- `range_abort`: a single range that flags the error. -/
def Request.rangeAbort (r : Request) : Request := { r with ranges := [⟨0, minusOne⟩] }

/-- Ranges the scan submits before it ends or is aborted. -/
def rangeCount : Text → RangeScan → Nat
  | [], s => s.added.length
  | c :: cs, s =>
    match rangeStep (rangeCode c) c s with
    | some t => rangeCount cs t
    | none => s.added.length

/-- An aborted scan leaves the count of what it had added before. -/
def Request.rangeParse (r : Request) (value : Text) : Request × Bool :=
  if !strncaseEq value (str "bytes=") then (r, false)
  else
    let s0 : RangeScan := ⟨.initial, 0, 0, []⟩
    match rangeScan (value.drop 6) s0 with
    | some s => (r.rangeAdd s.added, true)
    | none =>
      ({ r with numranges := r.numranges + rangeCount (value.drop 6) s0 }.rangeAbort, false)

/-- The loop body of `ranges_fixup` for a file of `filesize` bytes; `none` drops the range. -/
def rangeFixup (filesize : Nat) (r : Range) : Option Range :=
  let stop := if r.stop = 2^32 - 1 ∨ r.stop ≥ filesize then filesize - 1 else r.stop
  let r : Range :=
    if r.start = minusOne then ⟨u64 (filesize + 2^64 - stop), filesize - 1⟩ else ⟨r.start, stop⟩
  if r.start ≥ 2^63 ∨ r.start > r.stop then none else some r

def rangesLeft (filesize : Nat) (rs : List Range) : List Range :=
  if filesize = 0 then [] else rs.filterMap (rangeFixup filesize)

def rangesFixup (e : Config) : Srv Bool := do
  modReq fun r => { r with ranges := rangesLeft r.filesize r.ranges }
  if (← getReq).ranges = [] then
    sendRInvalidRange e
    return false
  else return true

end Crotalus
