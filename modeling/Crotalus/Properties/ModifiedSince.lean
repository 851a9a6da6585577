import Crotalus.Framework.Calendar
import Crotalus.Server.Response
import Crotalus.Spec.Decimal
import Crotalus.Spec.Sys
import Mathlib.Data.List.TakeWhile

namespace Crotalus

open Calendar

/-! What `rfc822_time_buf` writes, read by `date_to_tm`. -/

def tmOf (x : Moment) (wday : Nat) : Tm where
  sec := x.second
  min := x.minute
  hour := x.hour
  mday := x.day
  mon := x.month
  year := (x.year : Int)-1900
  wday := wday

/-- The fields are those of the time `s`. -/
def IsUtc (s : Nat) (t : Tm) : Prop :=
  ∃ x wday,x.Valid ∧ x.seconds=s ∧ wday < 7 ∧ t=tmOf x wday

section Scan

variable {t rest : Text} {n : Nat}

theorem digit_bounds {c : Byte} (h : isDigit c=true) : 48 ≤ c.toNat ∧ c.toNat ≤ 57 := by
  have hc := of_decide_eq_true h
  exact ⟨UInt8.le_iff_toNat_le.mp hc.1,UInt8.le_iff_toNat_le.mp hc.2⟩

theorem digit_notSpace {c : Byte} (h : isDigit c=true) : isSpace c=false := by
  have hc := digit_bounds h
  refine decide_eq_false fun hspace => ?_
  rcases hspace with rfl|hspace
  · exact absurd hc (by decide)
  · have h13 : c.toNat ≤ 13 := UInt8.le_iff_toNat_le.mp hspace.2
    omega

theorem scanInt_decimal (ht : IsDecimal t n) (hn : n < 2^31)
    (hrest : rest.head?.any isDigit=false) : scanInt (t++rest)=some ((n : Int),rest) := by
  obtain ⟨c,t',rfl⟩ := List.exists_cons_of_ne_nil ht.nonempty
  have hc : isDigit c=true := ht.digits c List.mem_cons_self
  have hbounds := digit_bounds hc
  have h45 : c≠45 := by
    rintro rfl
    exact absurd hbounds (by decide)
  have h43 : c≠43 := by
    rintro rfl
    exact absurd hbounds (by decide)
  have hskip : (c::t'++rest).dropWhile isSpace=c::t'++rest := by
    rw [List.cons_append,List.dropWhile_cons_of_neg (by rw [digit_notSpace hc]; decide)]
  have htake : (c::t'++rest).takeWhile isDigit=c::t' := by
    rw [List.takeWhile_append_of_pos ht.digits]
    cases rest with
    | nil => exact List.append_nil _
    | cons d rest =>
      have hd : isDigit d=false := hrest
      rw [List.takeWhile_cons_of_neg (by rw [hd]; decide),List.append_nil]
  have hhead : (c::t'++rest).head?=some c := rfl
  simp only [scanInt,hskip,hhead,Option.some.injEq,h45,h43,or_self,if_false,htake,ht.value,
    List.drop_left]
  rw [if_neg (List.cons_ne_nil _ _)]
  have hmin : min (n : Int) (2^63-1)=n := by omega
  rw [hmin,i32_of_lt hn]

theorem scanInt_blank (s : Text) : scanInt (32::s)=scanInt s := rfl

theorem twoDigits_decimal (hn : n < 100) : IsDecimal (twoDigits n) n := by
  have happ := (isDecimal_digit (show n/10 < 10 by omega)).append (Nat.mod_lt n (by decide : 0 < 10))
  have heq : n/10*10+n%10=n := by omega
  rw [heq] at happ
  exact happ

theorem scanInt_two (hn : n < 100) (hrest : rest.head?.any isDigit=false) :
    scanInt (twoDigits n++rest)=some ((n : Int),rest) :=
  scanInt_decimal (twoDigits_decimal hn) (by omega) hrest

theorem scanClock_printed {h m x : Nat} (hh : h < 100) (hm : m < 100) (hx : x < 100)
    (hrest : rest.head?.any isDigit=false) :
    scanClock (twoDigits h++58::(twoDigits m++58::(twoDigits x++rest)))=
      some (((h : Int),(m : Int),(x : Int)),rest) := by
  rw [scanClock,scanInt_two hh rfl]
  simp only [Option.bind_eq_bind,Option.bind_some,scanChar,if_true]
  rw [scanInt_two hm rfl]
  simp only [Option.bind_some,if_true]
  rw [scanInt_two hx hrest]
  rfl

/-- The three letters of a month, in front of its blank. -/
def monthName (m : Nat) : Text := (monthTab.getD m []).take 3

theorem month2int_name : ∀ m < 12,month2int (monthName m)=m := by decide

theorem scanWord_month {m : Nat} (hm : m < 12) (s : Text) :
    scanWord 3 (32::(monthTab.getD m []++s))=some (monthName m,32::s) := by
  have hcases : m=0 ∨ m=1 ∨ m=2 ∨ m=3 ∨ m=4 ∨ m=5 ∨ m=6 ∨ m=7 ∨ m=8 ∨ m=9 ∨ m=10 ∨ m=11 := by
    omega
  rcases hcases with rfl|rfl|rfl|rfl|rfl|rfl|rfl|rfl|rfl|rfl|rfl|rfl <;> rfl

end Scan

section Printed

variable {x : Moment} {wday : Nat}

theorem rfc822TimeBuf_eq (x : Moment) (wday : Nat) : rfc822TimeBuf (tmOf x wday)=
    dayTab.getD wday []++32::(twoDigits x.day++32::(monthTab.getD x.month []++
      ((digitsRev 21 x.year).reverse++32::(twoDigits x.hour++58::(twoDigits x.minute++
        58::(twoDigits x.second++str " GMT")))))) := by
  have hyear : (1900+(tmOf x wday).year).toNat=x.year := by
    change ((1900 : Int)+((x.year : Int)-1900)).toNat=x.year
    omega
  rw [rfc822TimeBuf,hyear]
  simp only [List.append_assoc,List.cons_append,List.nil_append]
  rfl

theorem skip_weekday (hw : wday < 7) (s : Text) :
    (dayTab.getD wday []++32::s).dropWhile (· ≠32)=32::s := by
  have hcases : wday=0 ∨ wday=1 ∨ wday=2 ∨ wday=3 ∨ wday=4 ∨ wday=5 ∨ wday=6 := by omega
  rcases hcases with rfl|rfl|rfl|rfl|rfl|rfl|rfl <;> rfl

theorem monthLength_le (year month : Nat) : (monthLengths year).getD month 0 ≤ 31 := by
  have hall : ∀ n∈monthLengths year,n ≤ 31 := by
    unfold monthLengths
    cases leap year <;> decide
  rw [List.getD_eq_getElem?_getD]
  cases hget : (monthLengths year)[month]? with
  | none => exact Nat.zero_le _
  | some n => exact hall n (List.mem_of_getElem? hget)

/-- The first of the four formats reads it. -/
theorem scanDayFirst_printed (hx : x.Valid) (hy : x.year < 10000) :
    scanDayFirst some 3 (32::(twoDigits x.day++32::(monthTab.getD x.month []++
      ((digitsRev 21 x.year).reverse++32::(twoDigits x.hour++58::(twoDigits x.minute++
        58::(twoDigits x.second++str " GMT")))))))=
      some (monthName x.month,⟨x.second,x.minute,x.hour,x.day,0,x.year,0⟩) := by
  have hday : x.day < 100 := by
    have hle := monthLength_le x.year x.month
    have hd := hx.day
    omega
  have hhour : x.hour < 100 := Nat.lt_trans hx.hour (by decide)
  have hminute : x.minute < 100 := Nat.lt_trans hx.minute (by decide)
  have hsecond : x.second < 100 := Nat.lt_trans hx.second (by decide)
  have hyear : IsDecimal (digitsRev 21 x.year).reverse x.year :=
    digitsRev_decimal (k := 20) (by omega)
  rw [scanDayFirst,scanInt_blank,scanInt_two hday rfl]
  simp only [Option.bind_eq_bind,Option.bind_some]
  rw [scanWord_month hx.month]
  simp only [Option.bind_some]
  rw [scanInt_blank,scanInt_decimal hyear (by omega) rfl]
  simp only [Option.bind_some]
  rw [show ∀ s,scanClock (32::s)=scanClock s from fun _ => rfl,
    scanClock_printed hhour hminute hsecond (by decide)]
  rfl

/-- The date comes back when its year is accepted. -/
theorem dateToTm_printed (hx : x.Valid) (hw : wday < 7) (hy : x.year < 10000) :
    dateToTm (rfc822TimeBuf (tmOf x wday))=if x.year ≤ 2020 then some (tmOf x 0) else none := by
  have hmonth : month2int (monthName x.month)=x.month := month2int_name x.month hx.month
  have hday := hx.day
  have hle := monthLength_le x.year x.month
  rw [rfc822TimeBuf_eq,dateToTm,skip_weekday hw,if_neg (List.cons_ne_nil _ _),
    scanDayFirst_printed hx hy,Option.some_or]
  dsimp only
  have h1970 := hx.year
  have hhour := hx.hour
  have hminute := hx.minute
  have hsecond := hx.second
  have hmon := hx.month
  have hadd : (if (x.year : Int) < 70 then (x.year : Int)+100 else x.year)=x.year :=
    if_neg (by omega)
  have hsub : (if (x.year : Int) > 1900 then (x.year : Int)-1900 else x.year)=x.year-1900 :=
    if_pos (by omega)
  rw [hmonth,hadd,hsub]
  by_cases hlate : x.year ≤ 2020
  · rw [if_pos hlate,if_neg (by omega)]
    rfl
  · rw [if_neg hlate,if_pos (by omega)]

end Printed

theorem tmOf_fields (x : Moment) (w : Nat) : (tmOf x w).year=(x.year : Int)-1900 ∧
    (tmOf x w).mon=x.month ∧ (tmOf x w).mday=x.day ∧ (tmOf x w).hour=x.hour ∧
    (tmOf x w).min=x.minute ∧ (tmOf x w).sec=x.second := ⟨rfl,rfl,rfl,rfl,rfl,rfl⟩

/-- The comparison of the fields is that of the times. -/
theorem modifiedSince_read {x y : Moment} {w : Nat} {h : Text} (hx : x.Valid) (hy : y.Valid)
    (hread : dateToTm h=some (tmOf y 0)) :
    modifiedSince (tmOf x w) h=if y.seconds < x.seconds then 1 else 0 := by
  have hnewer : y.Before x → (1 : Int)=if y.seconds < x.seconds then 1 else 0 :=
    fun hb => (if_pos (hb.seconds_lt hy hx)).symm
  have holder : x.Before y → (0 : Int)=if y.seconds < x.seconds then 1 else 0 :=
    fun hb => (if_neg (Nat.not_lt.mpr (Nat.le_of_lt (hb.seconds_lt hx hy)))).symm
  have hequal : x.seconds=y.seconds → (0 : Int)=if y.seconds < x.seconds then 1 else 0 :=
    fun heq => (if_neg (by omega)).symm
  generalize (if y.seconds < x.seconds then (1 : Int) else 0)=flag at hnewer holder hequal ⊢
  have hfx := tmOf_fields x w
  have hfy := tmOf_fields y 0
  rw [modifiedSince,hread]
  dsimp only
  by_cases hyear : x.year=y.year
  swap
  · rw [if_pos (by omega)]
    split
    · exact hnewer (.year (by omega))
    · exact holder (.year (by omega))
  rw [if_neg (by omega)]
  by_cases hmonth : x.month=y.month
  swap
  · rw [if_pos (by omega)]
    split
    · exact hnewer (.month hyear.symm (by omega))
    · exact holder (.month hyear (by omega))
  rw [if_neg (by omega)]
  by_cases hday : x.day=y.day
  swap
  · rw [if_pos (by omega)]
    split
    · exact hnewer (.day hyear.symm hmonth.symm (by omega))
    · exact holder (.day hyear hmonth (by omega))
  rw [if_neg (by omega)]
  have hnumber : x.dayNumber=y.dayNumber := by
    rw [Moment.dayNumber,Moment.dayNumber,hyear,hmonth,hday]
  by_cases hhour : x.hour=y.hour
  swap
  · rw [if_pos (by omega)]
    split
    · exact hnewer (.hour hnumber.symm (by omega))
    · exact holder (.hour hnumber (by omega))
  rw [if_neg (by omega)]
  by_cases hminute : x.minute=y.minute
  swap
  · rw [if_pos (by omega)]
    split
    · exact hnewer (.minute hnumber.symm hhour.symm (by omega))
    · exact holder (.minute hnumber hhour (by omega))
  rw [if_neg (by omega)]
  by_cases hsecond : x.second=y.second
  swap
  · rw [if_pos (by omega)]
    split
    · exact hnewer (.second hnumber.symm hhour.symm hminute.symm (by omega))
    · exact holder (.second hnumber hhour hminute (by omega))
  rw [if_neg (by omega)]
  exact hequal (by rw [Moment.seconds,Moment.seconds,hnumber,hhour,hminute,hsecond])

/-- A date that the server printed is compared correctly exactly when it is before 2021. -/
theorem modifiedSince_printed (e : Config) (now s t : Nat) (hs : IsUtc s (e.gmtime s))
    (ht : IsUtc t (e.gmtime t)) (hpos : 1 ≤ t) (hdigits : t < (newYear 10000).seconds) :
    modifiedSince (e.gmtime s) (rfc822 e now t)=(if t < s then 1 else 0) ↔
      t < (newYear 2021).seconds := by
  obtain ⟨x,w,hx,rfl,-,hxs⟩ := hs
  obtain ⟨y,w',hy,rfl,hw',hyt⟩ := ht
  have hyear : y.year < 10000 := (seconds_lt_newYear hy (by decide)).mp hdigits
  have hprinted : dateToTm (rfc822 e now y.seconds)=
      if y.year ≤ 2020 then some (tmOf y 0) else none := by
    rw [rfc822,if_neg (by omega),hyt]
    exact dateToTm_printed hy hw' hyear
  rw [seconds_lt_newYear hy (by decide),hxs]
  by_cases hearly : y.year ≤ 2020
  · rw [if_pos hearly] at hprinted
    rw [modifiedSince_read hx hy hprinted]
    exact iff_of_true rfl (by omega)
  · rw [if_neg hearly] at hprinted
    rw [modifiedSince,hprinted]
    refine iff_of_false ?_ (by omega)
    dsimp only
    split
    · decide
    · decide

/-- The last second of 2020, by a clock that knows it only. -/
def lastOf2020 : Config where
  gmtime _ := tmOf ⟨2020,11,31,23,59,59⟩ 4

theorem lastOf2020_utc : IsUtc 1609459199 (lastOf2020.gmtime 1609459199) :=
  ⟨⟨2020,11,31,23,59,59⟩,4,⟨by decide,by decide,by decide,by decide,by decide,by decide⟩,
    by decide,by decide,rfl⟩

theorem modifiedSince_printed_2020 :
    modifiedSince (lastOf2020.gmtime 1609459199) (rfc822 lastOf2020 0 1609459199)=
        (if 1609459199 < 1609459199 then 1 else 0) ↔
      1609459199 < (newYear 2021).seconds :=
  modifiedSince_printed lastOf2020 0 1609459199 1609459199 lastOf2020_utc lastOf2020_utc
    (by decide) (Nat.lt_trans (by decide) ((seconds_lt_newYear (x := newYear 2021)
      ⟨by decide,by decide,by decide,by decide,by decide,by decide⟩ (by decide)).mpr (by decide)))

def firstOf2021 : Config where
  gmtime _ := tmOf (newYear 2021) 5

/-- Its own Last-Modified date of 2021 is unreadable to the server. -/
theorem modifiedSince_2021 : IsUtc 1609459200 (firstOf2021.gmtime 1609459200) ∧
    rfc822 firstOf2021 0 1609459200=str "Fri, 01 Jan 2021 00:00:00 GMT" ∧
    modifiedSince (firstOf2021.gmtime 1609459200) (rfc822 firstOf2021 0 1609459200)=-1 :=
  ⟨⟨newYear 2021,5,⟨by decide,by decide,by decide,by decide,by decide,by decide⟩,by decide,
    by decide,rfl⟩,by decide,by decide⟩

end Crotalus
