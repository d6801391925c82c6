import GgLib.StringView
import Mathlib.Data.Int.Notation

/-! `struct tm`, `gmtime_r` and `timegm` on the proleptic Gregorian calendar. A year of the
computation starts in March, so that the leap day is its last; an era is 400 years. -/
namespace GgLib

/-- Where `tm_zone` points to. -/
inductive ZonePtr
  | literal (name : List Byte)
  | abbreviation (arrbIdx : ℕ)
  deriving DecidableEq, Repr

structure Tm where
  tm_sec : ℤ
  tm_min : ℤ
  tm_hour : ℤ
  tm_mday : ℤ
  tm_mon : ℤ
  tm_year : ℤ
  tm_wday : ℤ
  tm_yday : ℤ
  tm_isdst : ℤ
  tm_gmtoff : ℤ
  tm_zone : ZonePtr
  deriving DecidableEq, Repr

namespace CalendarTime

def kSecondsPerDay : ℤ := 24*60*60

/-- The days from 1970-01-01 to a day of a month from 1 to 12. -/
def daysFromCivil (year month day : ℤ) : ℤ :=
  let y := if month ≤ 2 then year-1 else year
  let yearOfEra := y%400
  let dayOfYear := (153*(if 2 < month then month-3 else month+9)+2)/5+day-1
  y/400*146097+(yearOfEra*365+yearOfEra/4-yearOfEra/100+dayOfYear)-719468

variable (days : ℤ)

/-- The day of its era, from 0000-03-01. -/
def dayOfEra : ℤ := (days+719468)%146097

/-- The last century of an era has a day more. -/
def century : ℤ := min (dayOfEra days/36524) 3

def dayOfCentury : ℤ := dayOfEra days-36524*century days

def quad : ℤ := dayOfCentury days/1461

/-- The last year of four has a day more. -/
def yearOfQuad : ℤ := min (dayOfCentury days%1461/365) 3

def yearOfEra : ℤ := 100*century days+4*quad days+yearOfQuad days

def dayOfYear : ℤ := dayOfCentury days%1461-365*yearOfQuad days

def monthOfYear : ℤ := (5*dayOfYear days+2)/153

def civilDay : ℤ := dayOfYear days-(153*monthOfYear days+2)/5+1

def civilMonth : ℤ := if monthOfYear days < 10 then monthOfYear days+3 else monthOfYear days-9

def civilYear : ℤ := yearOfEra days+(days+719468)/146097*400+if civilMonth days ≤ 2 then 1 else 0

def gmtime_r (seconds : ℤ) : Tm :=
  let days := seconds/kSecondsPerDay
  let secondOfDay := seconds%kSecondsPerDay
  { tm_sec := secondOfDay%60
    tm_min := secondOfDay/60%60
    tm_hour := secondOfDay/3600
    tm_mday := civilDay days
    tm_mon := civilMonth days-1
    tm_year := civilYear days-1900
    tm_wday := (days+4)%7
    tm_yday := days-daysFromCivil (civilYear days) 1 1
    tm_isdst := 0
    tm_gmtoff := 0
    tm_zone := .literal (text "GMT") }

/-- `timegm` takes any month, day, hour, minute and second. -/
def timegm (tm : Tm) : ℤ :=
  (daysFromCivil (tm.tm_year+1900+tm.tm_mon/12) (tm.tm_mon%12+1) 1+tm.tm_mday-1)*kSecondsPerDay+
    tm.tm_hour*3600+tm.tm_min*60+tm.tm_sec

theorem dayOfEra_bounds : 0 ≤ dayOfEra days ∧ dayOfEra days < 146097 :=
  ⟨Int.emod_nonneg _ (by decide),Int.emod_lt_of_pos _ (by decide)⟩

theorem century_bounds : 0 ≤ century days ∧ century days ≤ 3 := by
  obtain ⟨hlow,-⟩ := dayOfEra_bounds days
  rw [century]
  omega

theorem dayOfCentury_bounds : 0 ≤ dayOfCentury days ∧ dayOfCentury days < 36525 := by
  obtain ⟨hlow,hhigh⟩ := dayOfEra_bounds days
  rw [dayOfCentury,century]
  omega

theorem quad_bounds : 0 ≤ quad days ∧ quad days ≤ 24 := by
  obtain ⟨hlow,hhigh⟩ := dayOfCentury_bounds days
  rw [quad]
  omega

theorem yearOfQuad_bounds : 0 ≤ yearOfQuad days ∧ yearOfQuad days ≤ 3 := by
  rw [yearOfQuad]
  omega

theorem dayOfYear_bounds : 0 ≤ dayOfYear days ∧ dayOfYear days < 366 := by
  rw [dayOfYear,yearOfQuad]
  omega

theorem monthOfYear_bounds : 0 ≤ monthOfYear days ∧ monthOfYear days ≤ 11 := by
  obtain ⟨hlow,hhigh⟩ := dayOfYear_bounds days
  rw [monthOfYear]
  omega

theorem dayOfEra_eq : dayOfEra days =
    yearOfEra days*365+yearOfEra days/4-yearOfEra days/100+dayOfYear days := by
  obtain ⟨hclow,hchigh⟩ := century_bounds days
  obtain ⟨hqlow,hqhigh⟩ := quad_bounds days
  obtain ⟨hylow,hyhigh⟩ := yearOfQuad_bounds days
  have hfour : yearOfEra days/4 = 25*century days+quad days := by
    rw [yearOfEra]
    omega
  have hhundred : yearOfEra days/100 = century days := by
    rw [yearOfEra]
    omega
  rw [hfour,hhundred,yearOfEra,dayOfYear]
  have hday : dayOfCentury days = 1461*quad days+dayOfCentury days%1461 := by
    rw [quad]
    omega
  have hera : dayOfEra days = 36524*century days+dayOfCentury days := by
    rw [dayOfCentury]
    omega
  omega

theorem daysFromCivil_civil (day : ℤ) :
    daysFromCivil (civilYear days) (civilMonth days) day = days-civilDay days+day := by
  obtain ⟨hmlow,hmhigh⟩ := monthOfYear_bounds days
  obtain ⟨hclow,hchigh⟩ := century_bounds days
  obtain ⟨hqlow,hqhigh⟩ := quad_bounds days
  obtain ⟨hylow,hyhigh⟩ := yearOfQuad_bounds days
  have hyear : 0 ≤ yearOfEra days ∧ yearOfEra days < 400 := by
    rw [yearOfEra]
    omega
  have hmonth : (if 2 < civilMonth days then civilMonth days-3 else civilMonth days+9) = monthOfYear days := by
    rw [civilMonth]
    split <;> split <;> omega
  have hmarch : (if civilMonth days ≤ 2 then civilYear days-1 else civilYear days) =
      yearOfEra days+(days+719468)/146097*400 := by
    rw [civilYear]
    split <;> omega
  have hera := dayOfEra_eq days
  rw [dayOfEra] at hera
  simp only [daysFromCivil,hmonth,hmarch]
  have hof : (yearOfEra days+(days+719468)/146097*400)%400 = yearOfEra days := by omega
  have hdiv : (yearOfEra days+(days+719468)/146097*400)/400 = (days+719468)/146097 := by omega
  rw [hof,hdiv,civilDay]
  omega

theorem civilMonth_bounds : 1 ≤ civilMonth days ∧ civilMonth days ≤ 12 := by
  obtain ⟨hlow,hhigh⟩ := monthOfYear_bounds days
  rw [civilMonth]
  split <;> omega

theorem timegm_gmtime_r (seconds tm_isdst tm_gmtoff : ℤ) (tm_zone : ZonePtr) :
    timegm { gmtime_r seconds with tm_isdst, tm_gmtoff, tm_zone } = seconds := by
  obtain ⟨hlow,hhigh⟩ := civilMonth_bounds (seconds/kSecondsPerDay)
  have hmon : (civilMonth (seconds/kSecondsPerDay)-1)%12+1 = civilMonth (seconds/kSecondsPerDay) := by omega
  have hcarry : (civilMonth (seconds/kSecondsPerDay)-1)/12 = 0 := by omega
  have hyear : civilYear (seconds/kSecondsPerDay)-1900+1900+0 = civilYear (seconds/kSecondsPerDay) := by omega
  simp only [timegm,gmtime_r,hmon,hcarry,hyear,daysFromCivil_civil]
  have hday : kSecondsPerDay = 86400 := rfl
  rw [hday]
  omega

example : gmtime_r 951827696 = ⟨56,34,12,29,1,100,2,59,0,0,.literal (text "GMT")⟩ := by decide

end CalendarTime
end GgLib
