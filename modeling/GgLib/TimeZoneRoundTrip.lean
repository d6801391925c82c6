import GgLib.TimeZone

/-! Which local times `fromLocalTime` converts back: those that denote one instant, and of
those that denote two, only what an end of daylight time of one hour repeats. -/
namespace GgLib

open CalendarTime

namespace TimeZone
namespace Data

/-- The transitions are in order, in both times, and the indices are valid. -/
structure Valid (data : Data) : Prop where
  gmt : data.Increasing ⟨true⟩
  loc : data.Increasing ⟨false⟩
  indexed : data.Indexed

def SameClock (s s' : ℤ) : Prop :=
  (gmtime_r s).tm_hour = (gmtime_r s').tm_hour ∧ (gmtime_r s).tm_min = (gmtime_r s').tm_min

instance (s s' : ℤ) : Decidable (SameClock s s') := inferInstanceAs (Decidable (_ ∧ _))

/-- The type of the last transition up to the local time has the offset in force; or the offset
in force is that of daylight time, one hour more, and an hour later daylight time is over and
the clock shows the same. -/
def Resolves (data : Data) (t : ℤ) : Prop :=
  ∃ inForce picked later, data.typeAt ⟨true⟩ t = some inForce ∧
    data.typeAt ⟨false⟩ (t+inForce.gmtOffset) = some picked ∧ data.typeAt ⟨true⟩ (t+3600) = some later ∧
    (inForce.gmtOffset = picked.gmtOffset ∨
      inForce.gmtOffset = picked.gmtOffset+3600 ∧ inForce.isDst = true ∧ later.isDst = false ∧
        SameClock (t+3600+later.gmtOffset) (t+inForce.gmtOffset))

variable {data : Data}

theorem toLocalTime_eq (h : data.Valid) {t : ℤ} {localtime : Localtime}
    (htype : data.typeAt ⟨true⟩ t = some localtime) :
    data.toLocalTime t = some
      { gmtime_r (t+localtime.gmtOffset) with
        tm_isdst := if localtime.isDst then 1 else 0
        tm_gmtoff := localtime.gmtOffset
        tm_zone := .abbreviation localtime.arrbIdx } := by
  rw [toLocalTime,findLocalTime_eq h.gmt]
  show (data.typeAt ⟨true⟩ t).map _ = _
  rw [htype]
  rfl

/-- The search by local time finds the type it names, and the correction takes an hour off. -/
theorem fromLocalTime_toLocalTime (h : data.Valid) {t : ℤ} {inForce picked later : Localtime}
    (hinForce : data.typeAt ⟨true⟩ t = some inForce) (hpicked : data.typeAt ⟨false⟩ (t+inForce.gmtOffset) = some picked)
    (hlater : data.typeAt ⟨true⟩ (t+inForce.gmtOffset-picked.gmtOffset) = some later) :
    (data.toLocalTime t).bind data.fromLocalTime = some (t+inForce.gmtOffset-picked.gmtOffset-
      if inForce.isDst = true ∧ later.isDst = false ∧
        SameClock (t+inForce.gmtOffset-picked.gmtOffset+later.gmtOffset) (t+inForce.gmtOffset) then 3600 else 0) := by
  rw [toLocalTime_eq h hinForce,Option.bind_some,fromLocalTime]
  simp only [timegm_gmtime_r,findLocalTime_eq h.loc]
  show (data.typeAt ⟨false⟩ (t+inForce.gmtOffset)).bind _ = _
  rw [hpicked,Option.bind_some]
  cases hdst : inForce.isDst with
  | false => simp
  | true =>
    rw [toLocalTime_eq h hlater]
    have hflag : ((if later.isDst = true then (1 : ℤ) else 0) = 0) ↔ later.isDst = false := by
      cases later.isDst <;> simp
    have hset : (1 : ℤ) ≠ 0 := by decide
    simp only [hflag,if_true,if_pos hset,Option.map_some,SameClock,true_and]
    split
    · exact congrArg some (by omega)
    · exact congrArg some (by omega)

/-- A local time converts back exactly if its type resolves. -/
theorem fromLocalTime_toLocalTime_iff (h : data.Valid) (t : ℤ) :
    (data.toLocalTime t).bind data.fromLocalTime = some t ↔ data.Resolves t := by
  obtain ⟨inForce,hinForce⟩ := h.indexed.typeAt ⟨true⟩ t
  obtain ⟨picked,hpicked⟩ := h.indexed.typeAt ⟨false⟩ (t+inForce.gmtOffset)
  obtain ⟨tried,htried⟩ := h.indexed.typeAt ⟨true⟩ (t+inForce.gmtOffset-picked.gmtOffset)
  obtain ⟨later,hlater⟩ := h.indexed.typeAt ⟨true⟩ (t+3600)
  rw [fromLocalTime_toLocalTime h hinForce hpicked htried]
  have hresolves : data.Resolves t ↔ (inForce.gmtOffset = picked.gmtOffset ∨
      inForce.gmtOffset = picked.gmtOffset+3600 ∧ inForce.isDst = true ∧ later.isDst = false ∧
        SameClock (t+3600+later.gmtOffset) (t+inForce.gmtOffset)) := by
    constructor
    · rintro ⟨inForce',picked',later',hinForce',hpicked',hlater',hcase⟩
      obtain rfl := Option.some.inj (hinForce.symm.trans hinForce')
      obtain rfl := Option.some.inj (hpicked.symm.trans hpicked')
      obtain rfl := Option.some.inj (hlater.symm.trans hlater')
      exact hcase
    · exact fun hcase => ⟨inForce,picked,later,hinForce,hpicked,hlater,hcase⟩
  rw [hresolves,Option.some.injEq]
  by_cases hsame : inForce.gmtOffset = picked.gmtOffset
  · -- the type tried is the one in force itself
    have heq : t+inForce.gmtOffset-picked.gmtOffset = t := by omega
    rw [heq] at htried ⊢
    obtain rfl := Option.some.inj (hinForce.symm.trans htried)
    have hnot : ¬ (inForce.isDst = true ∧ inForce.isDst = false ∧
        SameClock (t+inForce.gmtOffset) (t+inForce.gmtOffset)) := by
      rintro ⟨hdst,hnot,-⟩
      rw [hdst] at hnot
      cases hnot
    rw [if_neg hnot,Int.sub_zero]
    simp only [hsame,true_or]
  by_cases hhour : inForce.gmtOffset = picked.gmtOffset+3600
  · have heq : t+inForce.gmtOffset-picked.gmtOffset = t+3600 := by omega
    rw [heq] at htried ⊢
    obtain rfl := Option.some.inj (hlater.symm.trans htried)
    constructor
    · intro hback
      split at hback
      · rename_i hcase
        exact .inr ⟨hhour,hcase⟩
      · omega
    · rintro (heq' | ⟨-,hcase⟩)
      · exact absurd heq' hsame
      · rw [if_pos hcase]
        omega
  · constructor
    · intro hback
      split at hback <;> omega
    · rintro (heq' | ⟨hhour',-⟩)
      · exact absurd heq' hsame
      · exact absurd hhour' hhour

/-- Daylight time of one hour, four hours west, ends at 10000. -/
def newYork : Data where
  transitions := [⟨0,-14400,1⟩,⟨10000,-8000,0⟩]
  localtimes := [⟨-18000,false,4⟩,⟨-14400,true,0⟩]
  abbreviation := text "EDT"++[0]++text "EST"++[0]
  zoneAbbr := []

theorem fromLocalTime_toLocalTime_iff_newYork : (newYork.toLocalTime 9000).bind newYork.fromLocalTime = some 9000 :=
  (fromLocalTime_toLocalTime_iff ⟨by decide,by decide,by decide,by decide⟩ 9000).mpr
    ⟨⟨-14400,true,0⟩,⟨-18000,false,4⟩,⟨-18000,false,4⟩,by decide,by decide,by decide,.inr (by decide)⟩

/-- Daylight time of half an hour, eleven hours east, ends at 10000. -/
def lordHowe : Data where
  transitions := [⟨0,39600,1⟩,⟨10000,47800,0⟩]
  localtimes := [⟨37800,false,5⟩,⟨39600,true,0⟩]
  abbreviation := text "LHDT"++[0]++text "LHST"++[0]
  zoneAbbr := []

theorem not_fromLocalTime_toLocalTime :
    ¬ ∀ data : Data, data.Valid → ∀ t : ℤ, (data.toLocalTime t).bind data.fromLocalTime = some t := by
  intro h
  have hback : (lordHowe.toLocalTime 9000).bind lordHowe.fromLocalTime = some 7200 := by decide +kernel
  rw [h lordHowe ⟨by decide,by decide,by decide,by decide⟩ 9000] at hback
  exact absurd hback (by decide)

end Data
end TimeZone
end GgLib
