import GgLib.CalendarTime

/-! The proleptic Gregorian calendar: its dates one after another, and the days between them. -/
namespace GgLib

def IsLeap (year : ℤ) : Prop := year%4 = 0 ∧ (year%100 ≠ 0 ∨ year%400 = 0)

instance (year : ℤ) : Decidable (IsLeap year) := inferInstanceAs (Decidable (_ ∧ _))

def monthLength (year month : ℤ) : ℤ :=
  if month = 2 then if IsLeap year then 29 else 28
  else if month = 4 ∨ month = 6 ∨ month = 9 ∨ month = 11 then 30 else 31

theorem monthLength_bounds (year month : ℤ) : 28 ≤ monthLength year month ∧ monthLength year month ≤ 31 := by
  rw [monthLength]
  split
  · split <;> omega
  · split <;> omega

theorem first_month : (1 : ℤ) ≤ 1 ∧ (1 : ℤ) ≤ 12 := by decide
theorem last_month : (1 : ℤ) ≤ 12 ∧ (12 : ℤ) ≤ 12 := by decide

theorem first_day (year : ℤ) : (1 : ℤ) ≤ 1 ∧ 1 ≤ monthLength year 1 := by
  have hbounds := monthLength_bounds year 1
  omega

theorem last_day (year : ℤ) : (1 : ℤ) ≤ 31 ∧ 31 ≤ monthLength year 12 := ⟨by decide,Int.le_refl _⟩

/-- A date of the proleptic Gregorian calendar. -/
structure CivilDate where
  year : ℤ
  month : ℤ
  day : ℤ
  month_range : 1 ≤ month ∧ month ≤ 12
  day_range : 1 ≤ day ∧ day ≤ monthLength year month

namespace CivilDate

/-- The next calendar day. -/
def next (date : CivilDate) : CivilDate :=
  if hday : date.day < monthLength date.year date.month then
    ⟨date.year,date.month,date.day+1,date.month_range,by have hrange := date.day_range; omega⟩
  else if hmonth : date.month < 12 then
    ⟨date.year,date.month+1,1,by have hrange := date.month_range; omega,
      by have hbounds := monthLength_bounds date.year (date.month+1); omega⟩
  else ⟨date.year+1,1,1,first_month,first_day _⟩

def days (date : CivilDate) : ℤ := CalendarTime.daysFromCivil date.year date.month date.day

def marchYear (date : CivilDate) : ℤ := if date.month ≤ 2 then date.year-1 else date.year

def marchMonth (date : CivilDate) : ℤ := if date.month ≤ 2 then date.month+9 else date.month-3

def marchDay (date : CivilDate) : ℤ := (153*date.marchMonth+2)/5+date.day-1

theorem days_eq (date : CivilDate) :
    date.days = date.marchYear*365+date.marchYear/4-date.marchYear/100+date.marchYear/400+date.marchDay-719468 := by
  have hmonth : (if 2 < date.month then date.month-3 else date.month+9) = date.marchMonth := by
    rw [marchMonth]
    split <;> split <;> omega
  have hyear : (if date.month ≤ 2 then date.year-1 else date.year) = date.marchYear := rfl
  simp only [days,CalendarTime.daysFromCivil,hmonth,hyear,marchDay]
  omega

/-- The month follows from the day of the year, and only a leap year has its last day. -/
theorem marchDay_bounds (date : CivilDate) :
    0 ≤ date.marchMonth ∧ date.marchMonth ≤ 11 ∧ 0 ≤ date.marchDay ∧ date.marchDay ≤ 365 ∧
      (5*date.marchDay+2)/153 = date.marchMonth ∧ (date.marchDay = 365 → IsLeap (date.marchYear+1)) := by
  obtain ⟨year,month,day,⟨hlow,hhigh⟩,hday,hlast⟩ := date
  have hmonths : month = 1 ∨ month = 2 ∨ month = 3 ∨ month = 4 ∨ month = 5 ∨ month = 6 ∨ month = 7 ∨ month = 8 ∨
      month = 9 ∨ month = 10 ∨ month = 11 ∨ month = 12 := by omega
  by_cases hleap : IsLeap year
  · rcases hmonths with rfl | rfl | rfl | rfl | rfl | rfl | rfl | rfl | rfl | rfl | rfl | rfl <;>
      simp [marchMonth,marchDay,marchYear,monthLength,hleap] at hlast ⊢ <;> omega
  · rcases hmonths with rfl | rfl | rfl | rfl | rfl | rfl | rfl | rfl | rfl | rfl | rfl | rfl <;>
      simp [marchMonth,marchDay,marchYear,monthLength,hleap] at hlast ⊢ <;> omega

theorem days_bounds (date : CivilDate) {low high : ℤ} (hlow : low ≤ date.year) (hhigh : date.year ≤ high) :
    (low-1)*365+(low-1)/4-(low-1)/100+(low-1)/400-719468 ≤ date.days ∧
      date.days ≤ high*365+high/4-high/100+high/400-719103 := by
  obtain ⟨-,-,hfirst,hlast,-,-⟩ := date.marchDay_bounds
  have hyear : low-1 ≤ date.marchYear ∧ date.marchYear ≤ high := by
    rw [marchYear]
    split <;> omega
  rw [days_eq]
  constructor <;> omega

theorem march_days (year : ℤ) :
    CalendarTime.daysFromCivil year 3 1 = CalendarTime.daysFromCivil year 2 (monthLength year 2)+1 := by
  by_cases hleap : IsLeap year <;> simp only [monthLength,hleap,CalendarTime.daysFromCivil] <;> rw [IsLeap] at hleap
  · simp
    omega
  · simp
    omega

theorem next_days (date : CivilDate) : date.next.days = date.days+1 := by
  obtain ⟨year,month,day,⟨hlow,hhigh⟩,hday,hlast⟩ := date
  rw [next]
  dsimp only
  split
  · simp only [days,CalendarTime.daysFromCivil]
    omega
  · rename_i hend
    obtain rfl : day = monthLength year month := by omega
    split
    · by_cases hfebruary : month = 2
      · subst hfebruary
        exact march_days year
      · have hmonths : month = 1 ∨ month = 3 ∨ month = 4 ∨ month = 5 ∨ month = 6 ∨ month = 7 ∨ month = 8 ∨
            month = 9 ∨ month = 10 ∨ month = 11 := by omega
        rcases hmonths with rfl | rfl | rfl | rfl | rfl | rfl | rfl | rfl | rfl | rfl <;>
          simp [days,CalendarTime.daysFromCivil,monthLength] <;> omega
    · obtain rfl : month = 12 := by omega
      simp [days,CalendarTime.daysFromCivil,monthLength]
      omega

theorem days_lt_of_year_lt {date date' : CivilDate} (h : date.year < date'.year) : date.days < date'.days := by
  have hyear : date.marchYear = date.year-1 ∧ date.marchDay ≤ 365 ∨
      date.marchYear = date.year ∧ date.marchDay ≤ 305 := by
    have hmonth := date.month_range
    have hday := date.day_range
    have hlength := monthLength_bounds date.year date.month
    have hlast := (marchDay_bounds date).2.2.2.1
    rw [marchYear]
    split
    · exact .inl ⟨rfl,hlast⟩
    · refine .inr ⟨rfl,?_⟩
      rw [marchDay,marchMonth]
      split <;> omega
  have hyear' : date'.marchYear = date'.year-1 ∧ 306 ≤ date'.marchDay ∨
      date'.marchYear = date'.year ∧ 0 ≤ date'.marchDay := by
    have hmonth := date'.month_range
    have hday := date'.day_range
    have hfirst := (marchDay_bounds date').2.2.1
    rw [marchYear]
    split
    · refine .inl ⟨rfl,?_⟩
      rw [marchDay,marchMonth]
      split <;> omega
    · exact .inr ⟨rfl,hfirst⟩
  rw [days_eq,days_eq]
  rcases hyear with ⟨hyear,hday⟩ | ⟨hyear,hday⟩ <;> rcases hyear' with ⟨hyear',hday'⟩ | ⟨hyear',hday'⟩ <;>
    rw [hyear,hyear'] <;> omega

theorem exists_days (first : CivilDate) (n : ℕ) : ∃ date : CivilDate, date.days = first.days+n := by
  induction n with
  | zero => exact ⟨first,by omega⟩
  | succ n ih =>
    obtain ⟨date,hdate⟩ := ih
    refine ⟨date.next,?_⟩
    rw [next_days,hdate]
    omega

theorem exists_between {first last : CivilDate} {n : ℤ} (hlow : first.days ≤ n) (hhigh : n ≤ last.days) :
    ∃ date : CivilDate, date.days = n ∧ first.year ≤ date.year ∧ date.year ≤ last.year := by
  obtain ⟨date,hdate⟩ := exists_days first (n-first.days).toNat
  have hdays : date.days = n := by omega
  refine ⟨date,hdays,?_,?_⟩
  · by_contra hlt
    have hless := days_lt_of_year_lt (Int.lt_of_not_ge hlt)
    omega
  · by_contra hlt
    have hless := days_lt_of_year_lt (Int.lt_of_not_ge hlt)
    omega

end CivilDate
end GgLib
