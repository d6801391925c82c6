import GgLib.DateCalendar
import GgLib.LogFileErrors
import GgLib.TextOrder
import GgLib.TimerQueue

/-! Texts of times and dates: they sort as bytes in the order of time, and so do the files of a log. -/
namespace GgLib

open CalendarTime PositionalNumeral TextOrder

theorem padded_eq {n : ℤ} (h : 0 ≤ n) (w : ℕ) :
    padded 48 w n = List.replicate (w-(text (toString n.natAbs)).length) 48++text (toString n.natAbs) := by
  rw [padded,if_pos rfl,if_neg (not_lt.mpr h),List.nil_append,List.length_nil,Nat.sub_zero]

theorem padded_digit {n : ℤ} (h : 0 ≤ n) (w : ℕ) : ∀ b ∈ padded 48 w n, 48 ≤ b.toNat ∧ b.toNat < 58 := by
  intro b hb
  rw [padded_eq h] at hb
  rcases List.mem_append.mp hb with hb | hb
  · rw [List.eq_of_mem_replicate hb]
    decide
  · have hdigit : ∀ d < 10, 48 ≤ (UInt8.ofNat (Nat.digitChar d).toNat).toNat ∧
        (UInt8.ofNat (Nat.digitChar d).toNat).toNat < 58 := by decide
    obtain ⟨ds,hds,hchars⟩ := exists_canonical (by decide : 1 < 10) n.natAbs
    rw [text_toString,hchars,List.map_map] at hb
    obtain ⟨d,hd,rfl⟩ := List.mem_map.mp hb
    exact hdigit d (hds.bounded d hd)

theorem length_padded_of_lt {w : ℕ} (hw : 0 < w) {n : ℤ} (hlow : 0 ≤ n) (hhigh : n < 10^w) :
    (padded 48 w n).length = w := by
  have hcast : ((10^w : ℕ) : ℤ) = (10 : ℤ)^w := by push_cast; rfl
  have hlen := (Nat.length_toDigits_le_iff (n:=n.natAbs) (by decide : 1 < 10) hw).mpr (by omega)
  rw [padded_eq hlow,List.length_append,List.length_replicate,text_toString,List.length_map]
  omega

theorem padded_fixedWidth : FixedWidth (padded 48) where
  length w n hw hlow hhigh := length_padded_of_lt hw hlow hhigh
  lt w m n hw hlow hlt hhigh := by
    have hm := padded_digit hlow w
    have hn := padded_digit (Int.le_trans hlow (Int.le_of_lt hlt)) w
    refine lt_of_value_lt (g:=fun b => b.toNat-48) (show 1 < 10 by decide) ?_ ?_ ?_ ?_ ?_ ?_
    · rw [length_padded_of_lt hw hlow (by omega),length_padded_of_lt hw (by omega) hhigh]
    · intro b hb
      have := hm b hb
      omega
    · intro b hb
      have := hn b hb
      omega
    · intro a ha b hb hab
      apply UInt8.lt_iff_toNat_lt.mpr
      omega
    · intro a ha b hb hab
      have := hm a ha
      have := hn b hb
      apply UInt8.toNat_inj.mp
      omega
    · have hvm := LogFile.digitsOf_padded w hlow
      have hvn := LogFile.digitsOf_padded w (show 0 ≤ n by omega)
      rw [LogFile.digitsOf] at hvm hvn
      omega

namespace CalendarTime

variable {days days' : ℤ}

theorem isLeap_of_dayOfYear (h : dayOfYear days = 365) (hmonth : civilMonth days ≤ 2) : IsLeap (civilYear days) := by
  obtain ⟨hqlow,hqhigh⟩ := quad_bounds days
  have hofquad : dayOfCentury days%1461 = 1460 ∧ yearOfQuad days = 3 := by
    rw [dayOfYear,yearOfQuad] at h
    rw [yearOfQuad]
    omega
  have hyear : civilYear days = 100*century days+4*quad days+4+(days+719468)/146097*400 := by
    rw [civilYear,if_pos hmonth,yearOfEra,hofquad.2]
    omega
  -- The fourth year of the last four of a century is leap in its fourth century only.
  have hcentury : quad days = 24 → century days = 3 := by
    intro hquad
    have hdays : dayOfCentury days = 36524 := by
      rw [quad] at hquad
      omega
    have hera := (dayOfEra_bounds days).2
    rw [dayOfCentury] at hdays
    rw [century] at hdays ⊢
    omega
  rw [hyear,IsLeap]
  by_cases hquad : quad days = 24
  · rw [hcentury hquad,hquad]
    omega
  · omega

theorem civil_valid (days : ℤ) :
    1 ≤ civilDay days ∧ civilDay days ≤ monthLength (civilYear days) (civilMonth days) := by
  refine ⟨(LogFile.civilDay_bounds days).1,?_⟩
  obtain ⟨hlow,hhigh⟩ := dayOfYear_bounds days
  obtain ⟨hmlow,hmhigh⟩ := monthOfYear_bounds days
  have hmonth : monthOfYear days = (5*dayOfYear days+2)/153 := rfl
  by_cases hfebruary : monthOfYear days = 11
  · have htwo : civilMonth days = 2 := by
      rw [civilMonth,hfebruary]
      decide
    rw [htwo,monthLength,if_pos rfl,civilDay,hfebruary]
    by_cases hlast : dayOfYear days = 365
    · rw [if_pos (isLeap_of_dayOfYear hlast (by omega)),hlast]
      decide
    · split <;> omega
  · have hne : civilMonth days ≠ 2 := by
      rw [civilMonth]
      split <;> omega
    rw [monthLength,if_neg hne,civilDay,civilMonth]
    split <;> split <;> omega

def dateOf (days : ℤ) : CivilDate :=
  ⟨civilYear days,civilMonth days,civilDay days,civilMonth_bounds days,civil_valid days⟩

theorem dateOf_days (days : ℤ) : (dateOf days).days = days := by
  rw [CivilDate.days]
  show daysFromCivil (civilYear days) (civilMonth days) (civilDay days) = days
  rw [daysFromCivil_civil]
  omega

end CalendarTime

namespace CivilDate

def fields (date : CivilDate) : List ℤ := [date.year,date.month,date.day]

theorem days_lt_of_month_lt {date date' : CivilDate} (hyear : date.year = date'.year) (h : date.month < date'.month) :
    date.days < date'.days := by
  obtain ⟨hlow,hhigh,hfirst,hlast,hmonth,hleap⟩ := date.marchDay_bounds
  obtain ⟨hlow',hhigh',hfirst',hlast',hmonth',-⟩ := date'.marchDay_bounds
  have hrange := date.month_range
  rw [days_eq,days_eq]
  by_cases hsplit : date.month ≤ 2 ∧ 2 < date'.month
  · have hmarch : date.marchYear = date.year-1 := if_pos hsplit.1
    have hmarch' : date'.marchYear = date.year := by
      rw [marchYear,if_neg (by omega),hyear]
    rw [hmarch] at hleap ⊢
    rw [hmarch']
    by_cases hend : date.marchDay = 365
    · have hyearLeap := hleap hend
      rw [Int.sub_add_cancel,IsLeap] at hyearLeap
      omega
    · omega
  · have hmarch : date.marchYear = date'.marchYear := by
      rw [marchYear,marchYear,hyear]
      split <;> split <;> omega
    have hless : date.marchMonth < date'.marchMonth := by
      rw [marchMonth,marchMonth]
      split <;> split <;> omega
    rw [hmarch]
    omega

theorem fields_lt {date date' : CivilDate} (h : date.days < date'.days) : date.fields < date'.fields := by
  rcases lt_trichotomy date.year date'.year with hyear | hyear | hyear
  · exact .rel hyear
  · rcases lt_trichotomy date.month date'.month with hmonth | hmonth | hmonth
    · rw [fields,fields,hyear]
      exact .cons (.rel hmonth)
    · rw [days,days,hyear,hmonth,CalendarTime.daysFromCivil,CalendarTime.daysFromCivil] at h
      rw [fields,fields,hyear,hmonth]
      exact .cons (.cons (.rel (by omega)))
    · have := days_lt_of_month_lt hyear.symm hmonth
      omega
  · have := days_lt_of_year_lt hyear
    omega

theorem fields_lt_iff (date date' : CivilDate) : date.fields < date'.fields ↔
    date.year < date'.year ∨ date.year = date'.year ∧
      (date.month < date'.month ∨ date.month = date'.month ∧ date.day < date'.day) := by
  simp [fields,List.cons_lt_cons_iff]

end CivilDate

namespace CalendarTime

variable {s t : ℤ}

def dateTime (tm : Tm) : List ℤ :=
  [tm.tm_year+1900,tm.tm_mon+1,tm.tm_mday,tm.tm_hour,tm.tm_min,tm.tm_sec]

theorem dateTime_gmtime_r (t : ℤ) : dateTime (gmtime_r t) =
    (dateOf (t/86400)).fields++[t%86400/3600,t%86400/60%60,t%86400%60] := by
  simp [dateTime,gmtime_r,CivilDate.fields,dateOf,kSecondsPerDay]

theorem dateTime_lt (h : s < t) : dateTime (gmtime_r s) < dateTime (gmtime_r t) := by
  rw [dateTime_gmtime_r,dateTime_gmtime_r]
  rcases Int.lt_or_eq_of_le (Int.ediv_le_ediv (by decide : (0 : ℤ) < 86400) (Int.le_of_lt h)) with hday | hday
  · apply append_lt_append (show (dateOf (s/86400)).fields.length = (dateOf (t/86400)).fields.length from rfl)
    apply CivilDate.fields_lt
    rw [dateOf_days,dateOf_days]
    exact hday
  · rw [hday]
    apply List.append_left_lt
    rcases Int.lt_trichotomy (s%86400/3600) (t%86400/3600) with hhour | hhour | hhour
    · exact .rel hhour
    · rcases Int.lt_trichotomy (s%86400/60%60) (t%86400/60%60) with hmin | hmin | hmin
      · rw [hhour]
        exact .cons (.rel hmin)
      · rw [hhour,hmin]
        exact .cons (.cons (.rel (by omega)))
      · omega
    · omega

def kEndOfTexts : ℤ := 253402300800

theorem year_bounds (hlow : 0 ≤ t) (hhigh : t < kEndOfTexts) :
    1970 ≤ civilYear (t/86400) ∧ civilYear (t/86400) < 10000 := by
  have hdays := dateOf_days (t/86400)
  have hend : t < 253402300800 := hhigh
  constructor
  · by_contra hyear
    have hless : (dateOf (t/86400)).days < (CivilDate.mk 1970 1 1 first_month (first_day _)).days :=
      CivilDate.days_lt_of_year_lt (Int.not_le.mp hyear)
    have hfirst : (CivilDate.mk 1970 1 1 first_month (first_day _)).days = 0 := by decide
    omega
  · have hlast : (CivilDate.mk 10000 1 1 first_month (first_day _)).days = 2932897 := by decide
    have hless : (dateOf (t/86400)).year < 10000 ∨ (dateOf (t/86400)).year = 10000 ∧
        ((dateOf (t/86400)).month < 1 ∨ (dateOf (t/86400)).month = 1 ∧ (dateOf (t/86400)).day < 1) :=
      (CivilDate.fields_lt_iff _ ⟨10000,1,1,first_month,first_day _⟩).mp
        (CivilDate.fields_lt (by rw [hdays,hlast]; omega))
    have hmonth := (dateOf (t/86400)).month_range
    have hday := (dateOf (t/86400)).day_range
    have hyear : (dateOf (t/86400)).year < 10000 := by omega
    exact hyear

theorem fits_gmtime_r (hlow : 0 ≤ t) (hhigh : t < kEndOfTexts) (a b c d e f : List Byte) :
    Fits [(a,4),(b,2),(c,2),(d,2),(e,2),(f,2)] (dateTime (gmtime_r t)) := by
  obtain ⟨hyear,hyear'⟩ := year_bounds hlow hhigh
  obtain ⟨hmonth,hmonth'⟩ := civilMonth_bounds (t/86400)
  obtain ⟨hday,hday'⟩ := LogFile.civilDay_bounds (t/86400)
  rw [dateTime_gmtime_r]
  show Fits _ [civilYear (t/86400),civilMonth (t/86400),civilDay (t/86400),t%86400/3600,t%86400/60%60,t%86400%60]
  refine fits_cons (by decide) (by omega) (by omega) (fits_cons (by decide) (by omega) (by omega) (fits_cons (by decide)
    (by omega) (by omega) (fits_cons (by decide) (by omega) (by omega) (fits_cons (by decide) (by omega) (by omega)
    (fits_cons (by decide) (by omega) (by omega) .nil)))))

end CalendarTime

theorem padded_year {year : ℤ} (h : 1000 ≤ year) : padded 32 4 year = padded 48 4 year := by
  have hlen : ¬ (Nat.toDigits 10 year.natAbs).length ≤ 3 := by
    rw [Nat.length_toDigits_le_iff (by decide) (by decide)]
    omega
  have hgap : 4-(text (toString year.natAbs)).length = 0 := by
    rw [text_toString,List.length_map]
    omega
  rw [padded_eq (by omega),hgap,padded,if_neg (by decide),if_neg (by omega),List.length_nil,Nat.sub_zero,hgap]
  rfl

namespace LogFile

variable {basename : List Byte} {pid s t : ℤ}

def nameFormat : List (List Byte × ℕ) := [(text ".",4),([],2),([],2),(text "-",2),([],2),([],2)]

theorem timebuf_eq (tm : Tm) : timebuf tm = line (padded 48) nameFormat (dateTime tm) := by
  simp [timebuf,line,nameFormat,dateTime]

theorem fileName_lt (hlow : 0 ≤ s) (h : s < t) (hhigh : t < kEndOfTexts) :
    fileName basename pid s < fileName basename pid t := by
  rw [fileName,fileName,timebuf_eq,timebuf_eq]
  simp only [List.append_assoc]
  apply List.append_left_lt
  apply line_lt padded_fixedWidth
  · exact fits_gmtime_r hlow (by omega) _ _ _ _ _ _
  · exact fits_gmtime_r (by omega) hhigh _ _ _ _ _ _
  · exact dateTime_lt h

end LogFile

namespace Timestamp

/-- `toString`. -/
def toString (microSecondsSinceEpoch : ℤ) (simplify : Bool) : List Byte :=
  let seconds := microSecondsSinceEpoch.tdiv kMicroSecondsPerSecond
  let tm := gmtime_r seconds
  if simplify then
    padded 48 2 tm.tm_hour++text ":"++padded 48 2 tm.tm_min++text ":"++padded 48 2 tm.tm_sec
  else
    let microseconds := microSecondsSinceEpoch.tmod kMicroSecondsPerSecond
    padded 32 4 (tm.tm_year+1900)++padded 48 2 (tm.tm_mon+1)++padded 48 2 tm.tm_mday++text " "++
      padded 48 2 tm.tm_hour++text ":"++padded 48 2 tm.tm_min++text ":"++padded 48 2 tm.tm_sec++text "."++
      padded 48 6 microseconds

def textFormat : List (List Byte × ℕ) :=
  [([],4),([],2),([],2),(text " ",2),(text ":",2),(text ":",2),(text ".",6)]

variable {s t : ℤ}

theorem toString_eq (hlow : 0 ≤ t) (hhigh : t/1000000 < kEndOfTexts) :
    toString t false = line (padded 48) textFormat (dateTime (gmtime_r (t/1000000))++[t%1000000]) := by
  have hyear := (year_bounds (t:=t/1000000) (by omega) hhigh).1
  have htm : (gmtime_r (t/1000000)).tm_year+1900 = civilYear (t/1000000/86400) := by
    simp [gmtime_r,kSecondsPerDay]
  have hdiv : t.tdiv kMicroSecondsPerSecond = t/1000000 := Int.tdiv_eq_ediv_of_nonneg hlow
  have hmod : t.tmod kMicroSecondsPerSecond = t%1000000 := Int.tmod_eq_emod_of_nonneg hlow
  rw [toString,hdiv,hmod,padded_year (by rw [htm]; omega)]
  simp [line,textFormat,dateTime]

theorem fits_toString (hlow : 0 ≤ t) (hhigh : t/1000000 < kEndOfTexts) :
    Fits textFormat (dateTime (gmtime_r (t/1000000))++[t%1000000]) :=
  List.rel_append (fits_gmtime_r (by omega) hhigh [] [] [] (text " ") (text ":") (text ":"))
    (fits_cons (by decide) (by omega) (by omega) .nil)

theorem toString_lt (hlow : 0 ≤ s) (h : s < t) (hhigh : t/1000000 < kEndOfTexts) :
    toString s false < toString t false := by
  have hfields : dateTime (gmtime_r (s/1000000))++[s%1000000] < dateTime (gmtime_r (t/1000000))++[t%1000000] := by
    rcases Int.lt_or_eq_of_le (Int.ediv_le_ediv (by decide : (0 : ℤ) < 1000000) (Int.le_of_lt h)) with hsec | hsec
    · exact append_lt_append (by rfl) (dateTime_lt hsec) _ _
    · rw [hsec]
      apply List.append_left_lt
      exact .rel (by omega)
  rw [toString_eq hlow (by omega),toString_eq (by omega) hhigh]
  have := line_lt padded_fixedWidth (fits_toString hlow (by omega)) (fits_toString (by omega) hhigh) hfields [] []
  rwa [List.append_nil,List.append_nil] at this

theorem length_toString (hlow : 0 ≤ t) (hhigh : t/1000000 < kEndOfTexts) : (toString t false).length = 24 := by
  rw [toString_eq hlow hhigh,length_line padded_fixedWidth (fits_toString hlow hhigh)]
  rfl

end Timestamp

namespace Date

open CheckedInt

def toIsoString (date : Date) : Option (List Byte) :=
  date.yearMonthDay.values.map fun (year,month,day) =>
    padded 32 4 year++text "-"++padded 48 2 month++text "-"++padded 48 2 day

def isoFormat : List (List Byte × ℕ) := [([],4),(text "-",2),(text "-",2)]

variable {date date' : CivilDate}

theorem toIsoString_eq (hlow : 1000 ≤ date.year) (hhigh : date.year < 10000) :
    toIsoString ⟨date.julianDay⟩ = some (line (padded 48) isoFormat date.fields) := by
  simp only [toIsoString,yearMonthDay,date.julianDay_eq (by omega) (by omega)]
  rw [CivilDate.values_eq (by omega) (by omega),Option.map_some]
  simp [padded_year hlow,line,isoFormat,CivilDate.fields]

theorem fits_fields (date : CivilDate) (hlow : 1000 ≤ date.year) (hhigh : date.year < 10000) :
    Fits isoFormat date.fields := by
  have hmonth := date.month_range
  have hday := date.day_range
  have hlength := (monthLength_bounds date.year date.month).2
  exact fits_cons (by decide) (by omega) (by omega) (fits_cons (by decide) (by omega) (by omega) (fits_cons (by decide)
    (by omega) (by omega) .nil))

/-- The texts of the dates of the years 1000 to 9999 have ten bytes and sort as the dates. -/
theorem toIsoString_lt (hlow : 1000 ≤ date.year) (h : date.days < date'.days) (hhigh : date'.year < 10000) :
    ∃ iso iso', toIsoString ⟨date.julianDay⟩ = some iso ∧ toIsoString ⟨date'.julianDay⟩ = some iso' ∧ iso < iso' ∧
      iso.length = 10 ∧ iso'.length = 10 := by
  have hfields := CivilDate.fields_lt h
  have hyears : date.year ≤ date'.year := by
    rcases (CivilDate.fields_lt_iff _ _).mp hfields with hyear | ⟨hyear,-⟩ <;> omega
  have hfits := fits_fields date hlow (by omega)
  have hfits' := fits_fields date' (by omega) hhigh
  refine ⟨_,_,toIsoString_eq hlow (by omega),toIsoString_eq (by omega) hhigh,?_,?_,?_⟩
  · have := line_lt padded_fixedWidth hfits hfits' hfields [] []
    rwa [List.append_nil,List.append_nil] at this
  · rw [length_line padded_fixedWidth hfits]
    rfl
  · rw [length_line padded_fixedWidth hfits']
    rfl

end Date

/-- The texts of `Timestamp` up to the year 9999, and those of `Date` from the year 1000 on, have a fixed length and
sort as bytes in the order of time. -/
theorem texts_sort :
    (∀ s t : ℤ, 0 ≤ s → 0 ≤ t → s/1000000 < kEndOfTexts → t/1000000 < kEndOfTexts →
      (Timestamp.toString s false).length = 24 ∧
        (Timestamp.toString s false < Timestamp.toString t false ↔ s < t)) ∧
    ∀ date date' : CivilDate, 1000 ≤ date.year → date.year < 10000 → 1000 ≤ date'.year → date'.year < 10000 →
      ∃ iso iso', Date.toIsoString ⟨date.julianDay⟩ = some iso ∧ Date.toIsoString ⟨date'.julianDay⟩ = some iso' ∧
        iso.length = 10 ∧ (iso < iso' ↔ date.days < date'.days) := by
  have hirrefl (a : List Byte) : ¬ a < a := List.lt_irrefl a
  have hasymm {a b : List Byte} (hab : a < b) (hba : b < a) : False := List.lt_asymm hab hba
  constructor
  · intro s t hs ht hs' ht'
    refine ⟨Timestamp.length_toString hs hs',fun h => ?_,fun h => Timestamp.toString_lt hs h ht'⟩
    by_contra hle
    rcases Int.lt_or_eq_of_le (Int.not_lt.mp hle) with hlt | heq
    · exact hasymm h (Timestamp.toString_lt ht hlt hs')
    · rw [heq] at h
      exact hirrefl _ h
  · intro date date' hlow hhigh hlow' hhigh'
    have heq := Date.toIsoString_eq hlow hhigh
    have heq' := Date.toIsoString_eq hlow' hhigh'
    refine ⟨_,_,heq,heq',?_,fun h => ?_,fun h => ?_⟩
    · rw [length_line padded_fixedWidth (Date.fits_fields _ hlow hhigh)]
      rfl
    · by_contra hle
      rcases Int.lt_or_eq_of_le (Int.not_lt.mp hle) with hlt | hsame
      · obtain ⟨iso',iso,hiso',hiso,hless,-⟩ := Date.toIsoString_lt hlow' hlt hhigh
        cases hiso.symm.trans heq
        cases hiso'.symm.trans heq'
        exact hasymm h hless
      · have hjulian : date.julianDay = date'.julianDay := by
          rw [date.julianDay_eq (by omega) (by omega),date'.julianDay_eq (by omega) (by omega),hsame]
        rw [hjulian] at heq
        have hline := Option.some.inj (heq.symm.trans heq')
        rw [hline] at h
        exact hirrefl _ h
    · obtain ⟨iso,iso',hiso,hiso',hless,-⟩ := Date.toIsoString_lt hlow h hhigh'
      cases hiso.symm.trans heq
      cases hiso'.symm.trans heq'
      exact hless

/-- The last day of a century, the first of the next, and times in one second. -/
theorem texts_sort_century : Timestamp.toString 999999 false < Timestamp.toString 1000000 false ∧
    ∃ iso iso', Date.toIsoString ⟨(CivilDate.mk 1999 12 31 last_month (last_day _)).julianDay⟩ = some iso ∧
      Date.toIsoString ⟨(CivilDate.mk 2000 1 1 first_month (first_day _)).julianDay⟩ = some iso' ∧ iso < iso' := by
  obtain ⟨htimes,hdates⟩ := texts_sort
  refine ⟨(htimes 999999 1000000 (by decide) (by decide) (by decide) (by decide)).2.mpr (by decide),?_⟩
  obtain ⟨iso,iso',hiso,hiso',-,hless⟩ := hdates (CivilDate.mk 1999 12 31 last_month (last_day _))
    (CivilDate.mk 2000 1 1 first_month (first_day _)) (by decide) (by decide) (by decide) (by decide)
  exact ⟨iso,iso',hiso,hiso',hless.mpr (by decide)⟩

namespace LogFile

open LabelledSystem

variable {e : Setting} {l : LogFile} {before : List (List (List Byte))} {current : List (List Byte)}

theorem Filed.names_increasing (h : l.Filed e before current) (hlate : ∀ k, e.now k < kEndOfTexts) :
    l.opened.Pairwise fun f g => f.filename < g.filename := by
  have hdates := h.increasing
  rw [dates,List.pairwise_map] at hdates
  refine hdates.imp_of_mem fun {f g} hf hg hlt => ?_
  obtain ⟨hpos,hname⟩ := h.named (f.openedAt,f.filename) (List.mem_map_of_mem hf)
  obtain ⟨-,hname'⟩ := h.named (g.openedAt,g.filename) (List.mem_map_of_mem hg)
  have hlast : g.openedAt ≤ l.lastRoll := h.dates_le (g.openedAt,g.filename) (List.mem_map_of_mem hg)
  have hreading := h.lastRoll
  have hend := hlate (l.reads-1)
  rw [lastReading] at hreading
  dsimp only at hname hname' hpos hlt
  rw [hname,hname']
  exact fileName_lt (Int.le_of_lt hpos) hlt (by omega)

theorem whole_of_guards {files : List AppendFile} {parts : List (List (List Byte))}
    (h : List.Forall₂ AppendFile.Guards files parts) (hwhole : ∀ f ∈ files, f.err = 0) :
    files.flatMap AppendFile.content = parts.flatten.flatten := by
  induction h with
  | nil => rfl
  | cons hf _ ih =>
    rw [List.flatMap_cons,List.flatten_cons,List.flatten_append,hf.whole (hwhole _ (.head _)),
      ih fun g hg => hwhole g (.tail _ hg)]

/-- For every sequence of calls with any errors of `fopen` and `fwrite_unlocked`, under a positive clock that does not
go back and does not reach the year 10000: whoever sorts the files by their names has them in the order in which they
were opened, so that the records stand in them, each file up to its error, in the order of the calls. -/
theorem sorted_files_hold_records (e : Setting) (hticks : e.Ticks) (hlate : ∀ k, e.now k < kEndOfTexts)
    (labels : List Label) (hlabels : ∀ a ∈ labels, a.Ends) :
    ∃ l, exec (LogFile.step e) (create e) labels = some l ∧
      (l.opened.Pairwise fun f g => f.filename < g.filename) ∧
      ∀ files, files.Perm l.opened → files.Pairwise (fun f g => f.filename < g.filename) →
        ∃ parts, parts.flatten = labels.flatMap Label.loglines ∧ List.Forall₂ AppendFile.Guards files parts ∧
          ((∀ f ∈ files, f.err = 0) →
            files.flatMap AppendFile.content = (labels.flatMap Label.loglines).flatten) := by
  obtain ⟨l,before,current,hrun,hfiled,hrecords⟩ := filed_run hticks labels hlabels
  have hsorted := hfiled.names_increasing hlate
  refine ⟨l,hrun,hsorted,fun files hperm hfiles => ?_⟩
  have hasymm {f g : AppendFile} (hfg : f.filename < g.filename) (hgf : g.filename < f.filename) : f = g :=
    absurd hgf (List.lt_asymm hfg)
  obtain rfl : files = l.opened := hperm.eq_of_pairwise (fun f g _ _ => hasymm) hfiles hsorted
  refine ⟨before++[current],?_,hfiled.files,fun hwhole => ?_⟩
  · rw [List.flatten_append,List.flatten_singleton,hrecords]
  · have hcontent := whole_of_guards hfiled.files hwhole
    rw [hcontent,List.flatten_append,List.flatten_singleton,hrecords]

theorem sorted_files_hold_records_twoRecords :
    ∃ l, exec (LogFile.step lastSecond) (create lastSecond) twoRecords = some l ∧
      (l.opened.Pairwise fun f g => f.filename < g.filename) ∧ l.opened.flatMap AppendFile.content = text "abcdef" := by
  have hticks : lastSecond.Ticks := ⟨lastSecond_steady.monotone,lastSecond_steady.positive⟩
  have hlate : ∀ k, lastSecond.now k < kEndOfTexts := by
    intro k
    show (if k < 3 then 86399 else 86400 : ℤ)+0 < 253402300800
    split <;> decide
  obtain ⟨l,hrun,hsorted,hfiles⟩ := sorted_files_hold_records lastSecond hticks hlate twoRecords (by decide)
  have herr : (exec (LogFile.step lastSecond) (create lastSecond) twoRecords).map
      (fun l => l.opened.all fun f => f.err = 0) = some true := by
    decide
  rw [hrun,Option.map_some,Option.some.injEq,List.all_eq_true] at herr
  obtain ⟨-,-,-,hcontent⟩ := hfiles l.opened (.refl _) hsorted
  exact ⟨l,hrun,hsorted,hcontent fun f hf => of_decide_eq_true (herr f hf)⟩

end LogFile
end GgLib
