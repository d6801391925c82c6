import GgLib.DateCalendar

/-! `toUtcTime` and `fromUtcTime`: between a `time_t` and the fields of its date and time in UTC.
A conversion to `int` that does not hold the value is undefined here. -/
namespace GgLib

open CheckedInt

namespace UtcTime

def kSecondsPerDay : CInt := 24*60*60

def fillHMS (seconds : BitVec 32) (utc : Tm) : Tm :=
  let minutes := seconds/60
  { utc with
    tm_sec := (seconds%60).toNat
    tm_min := (minutes%60).toNat
    tm_hour := (minutes/60).toNat }

/-- `struct tm utc{}` with its `tm_zone`. -/
def zeroTm : Tm := ⟨0,0,0,0,0,0,0,0,0,0,.literal (text "GMT")⟩

/-- A negative remainder is repaired. -/
def repair (seconds days : CInt) : Option (CInt × CInt) :=
  seconds.value.map fun s => if s < 0 then (seconds+kSecondsPerDay,days-1) else (seconds,days)

def toUtcTime (secondsSinceEpoch : TimeT) (yday : Bool) : Option Tm := do
  let (seconds,days) ← repair (secondsSinceEpoch%kSecondsPerDay.toRange).toRange
    (secondsSinceEpoch/kSecondsPerDay.toRange).toRange
  let utc := fillHMS (BitVec.ofInt 32 (← seconds.value)) zeroTm
  let date : Date := ⟨days+Date.kJulianDayOf1970_01_01⟩
  let ymd := date.yearMonthDay
  let tm_year ← (ymd.year-1900).value
  let tm_mon ← (ymd.month-1).value
  let tm_mday ← ymd.day.value
  let tm_wday ← date.weekDay.value
  let utc := { utc with tm_year, tm_mon, tm_mday, tm_wday }
  if yday then
    let startOfYear := Date.ofYearMonthDay ymd.year 1 1
    let tm_yday ← (date.julianDay-startOfYear.julianDay).value
    return { utc with tm_yday }
  else return utc

def fromUtcTime (year month day hour minute seconds : CInt) : TimeT :=
  let date := Date.ofYearMonthDay year month day
  let secondsInDay := hour*3600+minute*60+seconds
  let days : TimeT := (date.julianDay-Date.kJulianDayOf1970_01_01).toRange
  days*kSecondsPerDay.toRange+secondsInDay.toRange

def fromUtcTm (utc : Tm) : TimeT :=
  fromUtcTime (ofInt utc.tm_year+1900) (ofInt utc.tm_mon+1) (ofInt utc.tm_mday)
    (ofInt utc.tm_hour) (ofInt utc.tm_min) (ofInt utc.tm_sec)

theorem kSecondsPerDay_eq : kSecondsPerDay = ofInt 86400 := by decide

theorem kJulianDayOf1970_01_01_eq : Date.kJulianDayOf1970_01_01 = ofInt 2440588 := by decide

theorem truncated (t : ℤ) : t.tdiv 86400 = t/86400 ∧ t.tmod 86400 = t%86400 ∨
    t.tdiv 86400 = t/86400+1 ∧ t.tmod 86400 = t%86400-86400 := by
  rw [Int.tdiv_eq_ediv,Int.tmod_eq_emod]
  by_cases h : 0 ≤ t ∨ (86400 : ℤ) ∣ t
  · rw [if_pos h,if_pos h]
    exact .inl ⟨Int.add_zero _,Int.sub_zero _⟩
  · rw [if_neg h,if_neg h]
    exact .inr ⟨rfl,rfl⟩

theorem repair_eq {t : ℤ} (hlow : -40000000000000 ≤ t) (hhigh : t ≤ 40000000000000) :
    repair ((ofInt t : TimeT)%kSecondsPerDay.toRange).toRange ((ofInt t : TimeT)/kSecondsPerDay.toRange).toRange =
      some (ofInt (t%86400),ofInt (t/86400)) := by
  have htrunc := truncated t
  rw [kSecondsPerDay_eq,toRange_ofInt (by decide),ofInt_tmod (by omega) (by decide) (by decide) (by omega),
    ofInt_tdiv (by omega) (by decide) (by decide),toRange_ofInt (by omega),toRange_ofInt (by omega),repair,
    value_ofInt (by omega),kSecondsPerDay_eq,ofNat_eq,ofInt_add (by omega) (by decide),
    ofInt_sub (by omega) (by decide)]
  rcases htrunc with ⟨hdiv,hmod⟩ | ⟨hdiv,hmod⟩ <;> rw [hdiv,hmod]
  · rw [Option.map_some,if_neg (by omega)]
  · rw [Option.map_some,if_pos (by omega)]
    congr 3 <;> omega

theorem fillHMS_eq {s : ℤ} (hlow : 0 ≤ s) (hhigh : s < 86400) (utc : Tm) :
    fillHMS (BitVec.ofInt 32 s) utc = { utc with tm_sec := s%60, tm_min := s/60%60, tm_hour := s/3600 } := by
  obtain ⟨n,rfl⟩ := Int.eq_ofNat_of_zero_le hlow
  have hn : (BitVec.ofInt 32 n).toNat = n := by
    rw [BitVec.toNat_ofInt]
    omega
  have hmin : (BitVec.ofInt 32 n/60).toNat = n/60 := by
    rw [BitVec.toNat_udiv,hn]
    rfl
  simp only [fillHMS,BitVec.toNat_umod,BitVec.toNat_udiv,hn]
  congr 1
  simp
  omega

def newYear (year : ℤ) : CivilDate := ⟨year,1,1,first_month,first_day year⟩

theorem days_range {date : CivilDate} (hlow : -4000 ≤ date.year) (hhigh : date.year ≤ 1000000) :
    -2400000 ≤ date.days ∧ date.days ≤ 400000000 := by
  have hbounds := date.days_bounds hlow hhigh
  omega

theorem weekDay_eq {days : ℤ} (hlow : -2440588 ≤ days) (hhigh : days ≤ 400000000) :
    (Date.mk (ofInt (days+2440588))).weekDay = ofInt ((days+4)%7) := by
  rw [Date.weekDay,Date.kDaysPerWeek,ofNat_eq,ofNat_eq,ofInt_add (by omega) (by decide),
    ofInt_tmod (by omega) (by decide) (by decide),Int.tmod_eq_emod_of_nonneg (by omega)]
  · congr 1
    omega
  · rw [Int.tdiv_eq_ediv_of_nonneg (by omega)]
    omega

/-- The fields of a time with this date. -/
def fields (t : ℤ) (date : CivilDate) (yday : Bool) : Tm where
  tm_sec := t%86400%60
  tm_min := t%86400/60%60
  tm_hour := t%86400/3600
  tm_mday := date.day
  tm_mon := date.month-1
  tm_year := date.year-1900
  tm_wday := (t/86400+4)%7
  tm_yday := if yday then date.days-(newYear date.year).days else 0
  tm_isdst := 0
  tm_gmtoff := 0
  tm_zone := .literal (text "GMT")

theorem toUtcTime_eq {t : ℤ} {date : CivilDate} (hdate : date.days = t/86400) (hlow : -4000 ≤ date.year)
    (hhigh : date.year ≤ 1000000) (yday : Bool) : toUtcTime (ofInt t) yday = some (fields t date yday) := by
  have hrange := days_range hlow hhigh
  have hrangeNew := days_range (show -4000 ≤ (newYear date.year).year from hlow) hhigh
  have hmonth := date.month_range
  have hday := date.day_range
  have hlength := monthLength_bounds date.year date.month
  have hymd := date.getYearMonthDay_eq (by omega) hhigh
  have hnew : getJulianDay (ofInt date.year) 1 1 = ofInt ((newYear date.year).days+2440588) :=
    (newYear date.year).julianDay_eq (show -4799 ≤ date.year by omega) (show date.year ≤ 1000001 by omega)
  rw [hdate] at hymd hrange
  have hseconds : (ofInt (t%86400) : CInt).value = some (t%86400) := value_ofInt (by omega)
  have hjulian : (ofInt (t/86400) : CInt)+Date.kJulianDayOf1970_01_01 = ofInt (t/86400+2440588) := by
    rw [kJulianDayOf1970_01_01_eq,ofInt_add (by omega) (by decide)]
  have hyear : ((ofInt date.year : CInt)-1900).value = some (date.year-1900) := by
    rw [ofNat_eq,ofInt_sub (by omega) (by decide),value_ofInt (by omega)]
  have hmon : ((ofInt date.month : CInt)-1).value = some (date.month-1) := by
    rw [ofNat_eq,ofInt_sub (by omega) (by decide),value_ofInt (by omega)]
  have hmday : (ofInt date.day : CInt).value = some date.day := value_ofInt (by omega)
  have hwday : (ofInt ((t/86400+4)%7) : CInt).value = some ((t/86400+4)%7) := value_ofInt (by omega)
  have hyday : ((ofInt (t/86400+2440588) : CInt)-ofInt ((newYear date.year).days+2440588)).value =
      some (date.days-(newYear date.year).days) := by
    rw [ofInt_sub (by omega) (by omega),value_ofInt (by omega)]
    congr 1
    omega
  rw [toUtcTime,repair_eq (by omega) (by omega)]
  simp only [Option.bind_eq_bind,Option.bind_some,hseconds,hjulian,Date.yearMonthDay,hymd,hyear,hmon,hmday,
    weekDay_eq (show -2440588 ≤ t/86400 by omega) hrange.2,hwday,fillHMS_eq (show 0 ≤ t%86400 by omega)
    (show t%86400 < 86400 by omega),Date.ofYearMonthDay,hnew,hyday]
  cases yday <;> rfl

def IsTime (hour minute seconds : ℤ) : Prop :=
  (0 ≤ hour ∧ hour ≤ 23) ∧ (0 ≤ minute ∧ minute ≤ 59) ∧ (0 ≤ seconds ∧ seconds ≤ 59)

theorem fromUtcTime_eq {date : CivilDate} (hlow : -4000 ≤ date.year) (hhigh : date.year ≤ 1000000)
    {hour minute seconds : ℤ} (htime : IsTime hour minute seconds) :
    fromUtcTime (ofInt date.year) (ofInt date.month) (ofInt date.day) (ofInt hour) (ofInt minute) (ofInt seconds) =
      ofInt (date.days*86400+(hour*3600+minute*60+seconds)) := by
  obtain ⟨hhour,hminute,hseconds⟩ := htime
  have hrange := days_range hlow hhigh
  have hjulian : (Date.ofYearMonthDay (ofInt date.year) (ofInt date.month) (ofInt date.day)).julianDay =
      ofInt (date.days+2440588) := date.julianDay_eq (by omega) (by omega)
  have hday : (ofInt hour : CInt)*3600+ofInt minute*60+ofInt seconds = ofInt (hour*3600+minute*60+seconds) := by
    simp (disch := omega) only [ofNat_eq,ofInt_mul,ofInt_add]
  have hdays : (ofInt (date.days+2440588) : CInt)-Date.kJulianDayOf1970_01_01 = ofInt date.days := by
    rw [kJulianDayOf1970_01_01_eq,ofInt_sub (by omega) (by decide)]
    congr 1
    omega
  simp only [fromUtcTime,hjulian,hday,hdays]
  rw [toRange_ofInt (by omega),toRange_ofInt (by omega),kSecondsPerDay_eq,toRange_ofInt (by decide),
    ofInt_mul (by omega) (by decide),ofInt_add (by omega) (by omega)]

/-- The fields are those of the time, in their ranges; 1970-01-01 is a Thursday. -/
structure Shows (t : ℤ) (date : CivilDate) (yday : Bool) (utc : Tm) : Prop where
  tm_sec : 0 ≤ utc.tm_sec ∧ utc.tm_sec ≤ 59
  tm_min : 0 ≤ utc.tm_min ∧ utc.tm_min ≤ 59
  tm_hour : 0 ≤ utc.tm_hour ∧ utc.tm_hour ≤ 23
  time : utc.tm_hour*3600+utc.tm_min*60+utc.tm_sec = t%86400
  tm_year : utc.tm_year+1900 = date.year
  tm_mon : 0 ≤ utc.tm_mon ∧ utc.tm_mon ≤ 11 ∧ utc.tm_mon+1 = date.month
  tm_mday : 1 ≤ utc.tm_mday ∧ utc.tm_mday ≤ monthLength (utc.tm_year+1900) (utc.tm_mon+1) ∧ utc.tm_mday = date.day
  tm_wday : utc.tm_wday = (t/86400+4)%7
  tm_yday : yday = true → utc.tm_yday = date.days-(newYear date.year).days

theorem fields_show {t : ℤ} {date : CivilDate} (yday : Bool) : Shows t date yday (fields t date yday) where
  tm_sec := by
    dsimp only [fields]
    omega
  tm_min := by
    dsimp only [fields]
    omega
  tm_hour := by
    dsimp only [fields]
    omega
  time := by
    dsimp only [fields]
    omega
  tm_year := Int.sub_add_cancel _ _
  tm_mon := by
    have hmonth := date.month_range
    dsimp only [fields]
    omega
  tm_mday := by
    dsimp only [fields]
    rw [Int.sub_add_cancel,Int.sub_add_cancel]
    exact ⟨date.day_range.1,date.day_range.2,rfl⟩
  tm_wday := rfl
  tm_yday := by
    rintro rfl
    rfl

theorem fromUtcTm_fields {t : ℤ} {date : CivilDate} (hdate : date.days = t/86400) (hlow : -4000 ≤ date.year)
    (hhigh : date.year ≤ 1000000) (yday : Bool) : fromUtcTm (fields t date yday) = ofInt t := by
  have hmonth := date.month_range
  have hyear : (ofInt (date.year-1900) : CInt)+1900 = ofInt date.year := by
    rw [ofNat_eq,ofInt_add (by omega) (by decide),Int.sub_add_cancel]
  have hmon : (ofInt (date.month-1) : CInt)+1 = ofInt date.month := by
    rw [ofNat_eq,ofInt_add (by omega) (by decide),Int.sub_add_cancel]
  have htime : IsTime (t%86400/3600) (t%86400/60%60) (t%86400%60) := by
    refine ⟨?_,?_,?_⟩ <;> omega
  rw [fromUtcTm,fields,hyear,hmon,fromUtcTime_eq hlow hhigh htime,hdate]
  congr 1
  omega

def first : CivilDate := newYear (-4000)
def last : CivilDate := CivilDate.last

/-- For every time of the years from -4000 to 1000000 in UTC: `toUtcTime` gives its fields, and
`fromUtcTime` the time back. For every date and time of these years: `fromUtcTime` gives a time
with these fields. Nothing is undefined on the way. -/
theorem utc_bijection :
    (∀ (t : ℤ) (yday : Bool), first.days*86400 ≤ t → t < (last.days+1)*86400 →
      ∃ (date : CivilDate) (utc : Tm), date.days = t/86400 ∧ -4000 ≤ date.year ∧ date.year ≤ 1000000 ∧
        toUtcTime (ofInt t) yday = some utc ∧ Shows t date yday utc ∧ (fromUtcTm utc).value = some t) ∧
    ∀ (date : CivilDate) (hour minute seconds : ℤ) (yday : Bool), -4000 ≤ date.year → date.year ≤ 1000000 →
      IsTime hour minute seconds → ∃ (t : ℤ) (utc : Tm),
        (fromUtcTime (ofInt date.year) (ofInt date.month) (ofInt date.day) (ofInt hour) (ofInt minute)
          (ofInt seconds)).value = some t ∧ toUtcTime (ofInt t) yday = some utc ∧
        utc.tm_year+1900 = date.year ∧ utc.tm_mon+1 = date.month ∧ utc.tm_mday = date.day ∧
        utc.tm_hour = hour ∧ utc.tm_min = minute ∧ utc.tm_sec = seconds := by
  constructor
  · intro t yday hfirst hlast
    obtain ⟨date,hdays,hlow,hhigh⟩ := CivilDate.exists_between (show first.days ≤ t/86400 by omega)
      (show t/86400 ≤ last.days by omega)
    have hrange := days_range hlow hhigh
    refine ⟨date,_,hdays,hlow,hhigh,toUtcTime_eq hdays hlow hhigh yday,fields_show yday,?_⟩
    rw [fromUtcTm_fields hdays hlow hhigh,value_ofInt (by omega)]
  · intro date hour minute seconds yday hlow hhigh htime
    have hrange := days_range hlow hhigh
    obtain ⟨hhour,hminute,hseconds⟩ := id htime
    have hdays : date.days = (date.days*86400+(hour*3600+minute*60+seconds))/86400 := by omega
    refine ⟨_,_,?_,toUtcTime_eq hdays hlow hhigh yday,Int.sub_add_cancel _ _,Int.sub_add_cancel _ _,rfl,?_,?_,?_⟩
    · rw [fromUtcTime_eq hlow hhigh htime,value_ofInt (by omega)]
    · dsimp only [fields]
      omega
    · dsimp only [fields]
      omega
    · dsimp only [fields]
      omega

end UtcTime
end GgLib
