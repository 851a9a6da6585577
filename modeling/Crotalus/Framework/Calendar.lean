import Mathlib.Algebra.Ring.Nat
import Mathlib.Data.List.Basic

namespace Calendar

/-! The Gregorian calendar from 1970 on, and the seconds it counts. -/

def leap (year : Nat) : Bool := year%4=0 ∧ (year%100≠0 ∨ year%400=0)

def yearLength (year : Nat) : Nat := if leap year then 366 else 365

def monthLengths (year : Nat) : List Nat :=
  [31,if leap year then 29 else 28,31,30,31,30,31,31,30,31,30,31]

/-- The days of the first `n` years. -/
def yearDays : Nat → Nat
  | 0 => 0
  | n+1 => yearDays n+yearLength (1970+n)

/-- The days of a year in front of a month. -/
def monthDays (year month : Nat) : Nat := ((monthLengths year).take month).sum

/-- A date and a time of day; months count from 0, days from 1. -/
structure Moment where
  year : Nat
  month : Nat
  day : Nat
  hour : Nat
  minute : Nat
  second : Nat
  deriving DecidableEq,Repr

structure Moment.Valid (x : Moment) : Prop where
  year : 1970 ≤ x.year
  month : x.month < 12
  day : 1 ≤ x.day ∧ x.day ≤ (monthLengths x.year).getD x.month 0
  hour : x.hour < 24
  minute : x.minute < 60
  second : x.second < 60

/-- The days since 1970. -/
def Moment.dayNumber (x : Moment) : Nat :=
  yearDays (x.year-1970)+monthDays x.year x.month+(x.day-1)

def Moment.seconds (x : Moment) : Nat :=
  ((x.dayNumber*24+x.hour)*60+x.minute)*60+x.second

theorem monthDays_year (year : Nat) : monthDays year 12=yearLength year := by
  unfold monthDays monthLengths yearLength
  cases leap year <;> rfl

theorem monthDays_succ {year month : Nat} (h : month < 12) :
    monthDays year (month+1)=monthDays year month+(monthLengths year).getD month 0 := by
  have hlen : month < (monthLengths year).length := h
  rw [monthDays,List.take_succ_eq_append_getElem hlen,List.sum_append,List.sum_singleton,
    List.getD_eq_getElem?_getD,List.getElem?_eq_getElem hlen]
  rfl

theorem monthDays_mono (year : Nat) {m n : Nat} (h : m ≤ n) (hn : n ≤ 12) :
    monthDays year m ≤ monthDays year n := by
  induction n with
  | zero => exact Nat.le_of_eq (by rw [Nat.le_zero.mp h])
  | succ n ih =>
    rcases Nat.lt_or_eq_of_le h with hlt|rfl
    · rw [monthDays_succ (by omega)]
      exact Nat.le_add_right_of_le (ih (by omega) (by omega))
    · exact Nat.le_refl _

theorem yearDays_mono {m n : Nat} (h : m ≤ n) : yearDays m ≤ yearDays n := by
  induction n with
  | zero => exact Nat.le_of_eq (by rw [Nat.le_zero.mp h])
  | succ n ih =>
    rcases Nat.lt_or_eq_of_le h with hlt|rfl
    · exact Nat.le_add_right_of_le (ih (by omega))
    · exact Nat.le_refl _

/-- The day is one of its month. -/
theorem Moment.Valid.in_month {x : Moment} (h : x.Valid) :
    monthDays x.year x.month+(x.day-1) < monthDays x.year (x.month+1) := by
  have hday := h.day
  rw [monthDays_succ h.month]
  omega

/-- The day is one of its year. -/
theorem Moment.Valid.in_year {x : Moment} (h : x.Valid) :
    x.dayNumber < yearDays (x.year-1970+1) := by
  have hmonth := h.in_month
  have hle := monthDays_mono x.year (show x.month+1 ≤ 12 from h.month) (Nat.le_refl 12)
  rw [monthDays_year] at hle
  have hyear : 1970+(x.year-1970)=x.year := by
    have := h.year
    omega
  rw [yearDays,hyear,Moment.dayNumber]
  omega

section Order

variable {x y : Moment} (hx : x.Valid) (hy : y.Valid)

include hx

theorem dayNumber_lt_of_year (h : x.year < y.year) : x.dayNumber < y.dayNumber := by
  have hin := hx.in_year
  have hle := yearDays_mono (m := x.year-1970+1) (n := y.year-1970) (by have := hx.year; omega)
  have hday : yearDays (y.year-1970) ≤ y.dayNumber := by
    rw [Moment.dayNumber,Nat.add_assoc]
    exact Nat.le_add_right _ _
  omega

include hy

theorem dayNumber_lt_of_month (hyear : x.year=y.year) (h : x.month < y.month) :
    x.dayNumber < y.dayNumber := by
  have hin := hx.in_month
  have hle := monthDays_mono x.year (show x.month+1 ≤ y.month from h)
    (Nat.le_of_lt hy.month)
  rw [Moment.dayNumber,Moment.dayNumber,← hyear]
  omega

omit hy in
theorem dayNumber_lt_of_day (hyear : x.year=y.year) (hmonth : x.month=y.month)
    (h : x.day < y.day) : x.dayNumber < y.dayNumber := by
  have hday := hx.day
  rw [Moment.dayNumber,Moment.dayNumber,hyear,hmonth]
  omega

end Order

/-- The earlier of two times is the one that is less in the first field they differ in. -/
inductive Moment.Before (x y : Moment) : Prop
  | year : x.year < y.year → Before x y
  | month : x.year=y.year → x.month < y.month → Before x y
  | day : x.year=y.year → x.month=y.month → x.day < y.day → Before x y
  | hour : x.dayNumber=y.dayNumber → x.hour < y.hour → Before x y
  | minute : x.dayNumber=y.dayNumber → x.hour=y.hour → x.minute < y.minute → Before x y
  | second : x.dayNumber=y.dayNumber → x.hour=y.hour → x.minute=y.minute →
      x.second < y.second → Before x y

theorem Moment.Before.seconds_lt {x y : Moment} (h : x.Before y) (hx : x.Valid) (hy : y.Valid) :
    x.seconds < y.seconds := by
  have hclock := And.intro hx.hour (And.intro hx.minute hx.second)
  have hlater : x.dayNumber < y.dayNumber → x.seconds < y.seconds := by
    intro hday
    unfold Moment.seconds
    omega
  cases h with
  | year h => exact hlater (dayNumber_lt_of_year hx h)
  | month hyear h => exact hlater (dayNumber_lt_of_month hx hy hyear h)
  | day hyear hmonth h => exact hlater (dayNumber_lt_of_day hx hyear hmonth h)
  | hour hday h =>
    unfold Moment.seconds
    omega
  | minute hday hhour h =>
    unfold Moment.seconds
    omega
  | second hday hhour hminute h =>
    unfold Moment.seconds
    omega

/-- The first second of a year. -/
def newYear (year : Nat) : Moment := ⟨year,0,1,0,0,0⟩

theorem seconds_lt_newYear {x : Moment} (hx : x.Valid) {year : Nat} (hyear : 1970 ≤ year) :
    x.seconds < (newYear year).seconds ↔ x.year < year := by
  have hstart : (newYear year).dayNumber=yearDays (year-1970) := by
    simp only [Moment.dayNumber,newYear,monthDays,List.take_zero,List.sum_nil,Nat.sub_self,
      Nat.add_zero]
  have hin := hx.in_year
  have hclock := And.intro hx.hour (And.intro hx.minute hx.second)
  have hseconds : (newYear year).seconds=(((newYear year).dayNumber*24+0)*60+0)*60+0 := rfl
  have h1970 := hx.year
  have hfrom : yearDays (x.year-1970) ≤ x.dayNumber := by
    rw [Moment.dayNumber,Nat.add_assoc]
    exact Nat.le_add_right _ _
  rw [hseconds,hstart,Moment.seconds]
  constructor
  · intro h
    by_contra hge
    have hle := yearDays_mono (m := year-1970) (n := x.year-1970) (by omega)
    omega
  · intro h
    have hle := yearDays_mono (m := x.year-1970+1) (n := year-1970) (by omega)
    omega

end Calendar
