import GgLib.Date
import GgLib.CivilDate

/-! The Julian day numbers of `Date` count the dates of the Gregorian calendar, and nothing is
undefined on the way. -/
namespace GgLib

open CheckedInt

namespace YearMonthDay

def values (ymd : YearMonthDay) : Option (ℤ × ℤ × ℤ) :=
  match ymd.year.value, ymd.month.value, ymd.day.value with
  | some year, some month, some day => some (year,month,day)
  | _, _, _ => none

end YearMonthDay

namespace CivilDate

def julianDay (date : CivilDate) : CInt :=
  getJulianDay (ofInt date.year) (ofInt date.month) (ofInt date.day)

theorem julianDay_eq (date : CivilDate) (hlow : -4799 ≤ date.year) (hhigh : date.year ≤ 1000001) :
    date.julianDay = ofInt (date.days+2440588) := by
  obtain ⟨hmlow,hmhigh⟩ := date.month_range
  obtain ⟨hdlow,hdhigh⟩ := date.day_range
  have hlength := (monthLength_bounds date.year date.month).2
  obtain ⟨hM0,hM11,-⟩ := date.marchDay_bounds
  obtain ⟨a,ha⟩ : ∃ a, (14-date.month)/12 = a := ⟨_,rfl⟩
  have hyear : date.year+4800-a = date.marchYear+4800 := by
    rw [marchYear]
    split <;> omega
  have hmonth : date.month+12*a-3 = date.marchMonth := by
    rw [marchMonth]
    split <;> omega
  have hY : 0 ≤ date.marchYear+4800 ∧ date.marchYear ≤ 1000001 := by
    rw [marchYear]
    split <;> omega
  simp (disch := omega) only [julianDay,getJulianDay,ofNat_eq,ofInt_add,ofInt_sub,ofInt_mul,ofInt_div,ha,hyear,hmonth]
  rw [date.days_eq,marchDay]
  congr 1
  omega

/-- The century, the year of the century and the day of the year, taken out of a count of days. -/
theorem centuryParts {Y e a : ℤ} (he0 : 0 ≤ e) (he : e ≤ 365) (hleap : e = 365 → IsLeap (Y+1))
    (ha : a = Y*365+Y/4-Y/100+Y/400+e) :
    (4*a+3)/146097 = Y/100 ∧ a-Y/100*146097/4 = Y%100*365+Y%100/4+e := by
  obtain ⟨q,t,u,v,ht,hu,hv,hparts⟩ : ∃ q t u v : ℤ, (0 ≤ t ∧ t ≤ 3) ∧ (0 ≤ u ∧ u ≤ 24) ∧ (0 ≤ v ∧ v ≤ 3) ∧
      Y = 400*q+100*t+4*u+v :=
    ⟨Y/400,Y%400/100,Y%100/4,Y%4,by omega,by omega,by omega,by omega⟩
  have hfour : Y/4 = 100*q+25*t+u := by omega
  have hhundred : Y/100 = 4*q+t := by omega
  have hera : Y/400 = q := by omega
  have hrest : Y%100 = 4*u+v := by omega
  have hquad : (4*u+v)/4 = u := by omega
  -- a day 365 is in a year before a leap year
  have hlast : e = 365 → v = 3 ∧ (u < 24 ∨ t = 3) := by
    intro h
    have hyear := hleap h
    simp only [IsLeap] at hyear
    omega
  rw [hrest,hhundred,hquad]
  rw [hfour,hhundred,hera,hparts] at ha
  omega

theorem yearParts {r e : ℤ} (he0 : 0 ≤ e) (he : e ≤ 365) (hleap : e = 365 → (r+1)%4 = 0) :
    (4*(r*365+r/4+e)+3)/1461 = r ∧ r*365+r/4+e-1461*r/4 = e := by
  omega

theorem getYearMonthDay_parts {j C c r e M : ℤ} (hj : 0 ≤ j+32044 ∧ j+32044 ≤ 400000000)
    (hb : (4*(j+32044)+3)/146097 = C) (hc : j+32044-C*146097/4 = c) (hd : (4*c+3)/1461 = r) (he : c-1461*r/4 = e)
    (hM : (5*e+2)/153 = M) (hC : 0 ≤ C ∧ C ≤ 10048) (hr : 0 ≤ r ∧ r ≤ 99) (he' : 0 ≤ e ∧ e ≤ 365) :
    getYearMonthDay (ofInt j) =
      ⟨ofInt (C*100+r-4800+M/10),ofInt (M+3-12*(M/10)),ofInt (e-(153*M+2)/5+1)⟩ := by
  have hc' : 0 ≤ c ∧ c ≤ 36890 := by omega
  have hM' : 0 ≤ M ∧ M ≤ 11 := by omega
  simp (disch := omega) only [getYearMonthDay,ofNat_eq,ofInt_add,ofInt_sub,ofInt_mul,ofInt_div,hb,hc,hd,he,hM]

theorem getYearMonthDay_eq (date : CivilDate) (hlow : -4799 ≤ date.year) (hhigh : date.year ≤ 1000000) :
    getYearMonthDay (ofInt (date.days+2440588)) = ⟨ofInt date.year,ofInt date.month,ofInt date.day⟩ := by
  obtain ⟨hM0,hM11,he0,he365,hM,hleap⟩ := date.marchDay_bounds
  have hmonths := date.month_range
  have hdays := date.days_eq
  have hY : -4800 ≤ date.marchYear ∧ date.marchYear ≤ 1000000 := by
    rw [marchYear]
    split <;> omega
  obtain ⟨Y,hYear⟩ : ∃ Y, date.marchYear+4800 = Y := ⟨_,rfl⟩
  have hleapY : date.marchDay = 365 → IsLeap (Y+1) := by
    intro h
    have hl := hleap h
    simp only [IsLeap] at hl ⊢
    omega
  have hfour : Y/4 = date.marchYear/4+1200 := by omega
  have hhundred : Y/100 = date.marchYear/100+48 := by omega
  have hera : Y/400 = date.marchYear/400+12 := by omega
  obtain ⟨hb,hc⟩ := centuryParts (Y := Y) (a := date.days+2440588+32044) he0 he365 hleapY (by omega)
  obtain ⟨hd,he⟩ := yearParts (r := Y%100) he0 he365 (by
    intro h
    have hl := hleapY h
    simp only [IsLeap] at hl
    omega)
  rw [getYearMonthDay_parts (by omega) hb hc hd he hM (by omega) (by omega) ⟨he0,he365⟩]
  have hday : date.marchDay-(153*date.marchMonth+2)/5+1 = date.day := by
    rw [marchDay]
    omega
  have hmonth : date.marchMonth+3-12*(date.marchMonth/10) = date.month := by
    rw [marchMonth]
    split <;> omega
  have hyear : Y/100*100+Y%100-4800+date.marchMonth/10 = date.year := by
    have hYY : Y/100*100+Y%100-4800 = date.marchYear := by omega
    rw [hYY,marchYear,marchMonth]
    split <;> omega
  rw [hday,hmonth,hyear]

def first : CivilDate := ⟨-4799,1,1,first_month,first_day _⟩
def last : CivilDate := ⟨1000000,12,31,last_month,last_day _⟩

theorem days_range {date : CivilDate} (hlow : -4799 ≤ date.year) (hhigh : date.year ≤ 1000001) :
    -3000000 ≤ date.days ∧ date.days ≤ 400000000 := by
  have hbounds := date.days_bounds hlow hhigh
  omega

theorem next_year (date : CivilDate) : date.next.year = date.year ∨ date.next.year = date.year+1 := by
  rw [next]
  split
  · exact .inl rfl
  · split
    · exact .inl rfl
    · exact .inr rfl

theorem values_eq {date : CivilDate} (hlow : -4799 ≤ date.year) (hhigh : date.year ≤ 1000000) :
    (getYearMonthDay (ofInt (date.days+2440588))).values = some (date.year,date.month,date.day) := by
  have hmonth := date.month_range
  have hday := date.day_range
  have hlength := monthLength_bounds date.year date.month
  rw [getYearMonthDay_eq date hlow hhigh]
  simp only [YearMonthDay.values,value_ofInt (show -0x80000000 ≤ date.year ∧ date.year ≤ 0x7fffffff by omega),
    value_ofInt (show -0x80000000 ≤ date.month ∧ date.month ≤ 0x7fffffff by omega),
    value_ofInt (show -0x80000000 ≤ date.day ∧ date.day ≤ 0x7fffffff by omega)]

theorem julianDay_next {date : CivilDate} (hlow : -4799 ≤ date.year) (hhigh : date.year ≤ 1000000) :
    date.next.julianDay = ofInt (date.days+1+2440588) := by
  have hyear := date.next_year
  rw [julianDay_eq date.next (by omega) (by omega),next_days]

/-- For every date from the year -4799 to 1000000, with nothing undefined in `getJulianDay` and
`getYearMonthDay`: the date is read back from its Julian day, and the next date is that of the
next day. So every Julian day from the first of these dates to the last is that of its date. -/
theorem julianDay_gregorian :
    (∀ date : CivilDate, -4799 ≤ date.year → date.year ≤ 1000000 → ∃ j, date.julianDay.value = some j ∧
      (getYearMonthDay date.julianDay).values = some (date.year,date.month,date.day) ∧
      date.next.julianDay.value = some (j+1)) ∧
    ∀ low high j : ℤ, first.julianDay.value = some low → last.julianDay.value = some high → low ≤ j → j ≤ high →
      ∃ year month day, getYearMonthDay (ofInt j) = ⟨year,month,day⟩ ∧
        (getJulianDay year month day).value = some j := by
  have hvalue : ∀ date : CivilDate, -4799 ≤ date.year → date.year ≤ 1000000 →
      date.julianDay.value = some (date.days+2440588) := by
    intro date hlow hhigh
    have hrange := days_range hlow (by omega)
    rw [julianDay_eq date hlow (by omega),value_ofInt (by omega)]
  refine ⟨fun date hlow hhigh => ⟨date.days+2440588,hvalue date hlow hhigh,?_,?_⟩,?_⟩
  · rw [julianDay_eq date hlow (by omega),values_eq hlow hhigh]
  · have hrange := days_range hlow (by omega)
    rw [julianDay_next hlow hhigh,value_ofInt (by omega)]
    congr 1
    omega
  · intro low high j hlow hhigh hj hj'
    have hfirst := hvalue first (by decide) (by decide)
    have hlast := hvalue last (by decide) (by decide)
    cases hlow.symm.trans hfirst
    cases hhigh.symm.trans hlast
    obtain ⟨date,hdays,hyear,hyear'⟩ := exists_between (show first.days ≤ j-2440588 by omega)
      (show j-2440588 ≤ last.days by omega)
    have hj : j = date.days+2440588 := by omega
    subst hj
    exact ⟨_,_,_,getYearMonthDay_eq date hyear hyear',hvalue date hyear hyear'⟩

example : (Date.ofYearMonthDay 2022 6 13).julianDay = 2459744 := by decide

end CivilDate
end GgLib
