import GgLib.CalendarTime
import GgLib.SortedSearch

/-! `TimeZone`: the transitions and the local time types of a zone, and the conversions. A result
`none` is an index outside of its vector, or an assertion that failed. -/
namespace GgLib

open SortedSearch CalendarTime

namespace TimeZone

structure Transition where
  gmttime : ℤ
  localtime : ℤ
  localtimeIdx : ℕ
  deriving DecidableEq, Repr

structure Localtime where
  gmtOffset : ℤ
  isDst : Bool
  arrbIdx : ℕ
  deriving DecidableEq, Repr

structure Comp where
  compareGmt : Bool

namespace Comp

variable (comp : Comp) (lhs rhs : Transition)

def less : Bool :=
  if comp.compareGmt then decide (lhs.gmttime < rhs.gmttime) else decide (lhs.localtime < rhs.localtime)

def equal : Bool :=
  if comp.compareGmt then decide (lhs.gmttime = rhs.gmttime) else decide (lhs.localtime = rhs.localtime)

def field (t : Transition) : ℤ := if comp.compareGmt then t.gmttime else t.localtime

theorem less_iff : comp.less lhs rhs = true ↔ comp.field lhs < comp.field rhs := by
  rw [less,field,field]
  split <;> exact decide_eq_true_iff

theorem equal_iff : comp.equal lhs rhs = true ↔ comp.field lhs = comp.field rhs := by
  rw [equal,field,field]
  split <;> exact decide_eq_true_iff

end Comp

/-- `zoneAbbr` is the label that `getZoneAbbr` keeps. -/
structure Data where
  transitions : List Transition
  localtimes : List Localtime
  abbreviation : List Byte
  zoneAbbr : List Byte
  deriving DecidableEq, Repr

def findLocalTime (data : Data) (sentry : Transition) (comp : Comp) : Option Localtime :=
  match data.transitions with
  | [] => data.localtimes.head?
  | front::_ =>
    if comp.less sentry front then data.localtimes.head?
    else
      let transI := lowerBound comp.less sentry data.transitions
      match data.transitions[transI]? with
      | some transition =>
        if comp.equal sentry transition then data.localtimes[transition.localtimeIdx]?
        else if transI = 0 then none
        else data.transitions[transI-1]?.bind fun before => data.localtimes[before.localtimeIdx]?
      | none => data.transitions.getLast?.bind fun back => data.localtimes[back.localtimeIdx]?

namespace Data

/-- The constructor with a fixed offset. -/
def fixed (eastOfUtc : ℤ) (name : List Byte) : Data where
  transitions := []
  localtimes := [⟨eastOfUtc,false,0⟩]
  abbreviation := name
  zoneAbbr := []

variable (data : Data)

def toLocalTime (seconds : ℤ) : Option Tm :=
  (findLocalTime data ⟨seconds,0,0⟩ ⟨true⟩).map fun localtime =>
    { gmtime_r (seconds+localtime.gmtOffset) with
      tm_isdst := if localtime.isDst then 1 else 0
      tm_gmtoff := localtime.gmtOffset
      tm_zone := .abbreviation localtime.arrbIdx }

def fromLocalTime (localTm : Tm) : Option ℤ :=
  let seconds := timegm localTm
  (findLocalTime data ⟨0,seconds,0⟩ ⟨false⟩).bind fun localtime =>
    if localTm.tm_isdst ≠ 0 then
      (data.toLocalTime (seconds-localtime.gmtOffset)).map fun tryTm =>
        let seconds :=
          if tryTm.tm_isdst = 0 ∧ tryTm.tm_hour = localTm.tm_hour ∧ tryTm.tm_min = localTm.tm_min then seconds-3600
          else seconds
        seconds-localtime.gmtOffset
    else some (seconds-localtime.gmtOffset)

/-- The C string at a place in `abbreviation`, whose end is a NUL too. -/
def abbreviationAt (arrbIdx : ℕ) : Option (List Byte) :=
  if arrbIdx ≤ data.abbreviation.length then some ((data.abbreviation.drop arrbIdx).takeWhile fun c => decide (c ≠ 0))
  else none

def labelAt (seconds : ℤ) : Option (List Byte) :=
  (findLocalTime data ⟨seconds,0,0⟩ ⟨true⟩).bind fun localtime => data.abbreviationAt localtime.arrbIdx

/-- With the `time(nullptr)` of the call: the label is computed once, or again when it is empty.
`findLocalTime` returns no null pointer. -/
def getZoneAbbr (now : ℤ) : Option (List Byte × Data) :=
  if data.zoneAbbr = [] then (data.labelAt now).map fun zoneAbbr => (zoneAbbr,{ data with zoneAbbr })
  else some (data.zoneAbbr,data)

/-- The indices are valid, and there is a type before the first transition. -/
structure Indexed : Prop where
  front : data.localtimes ≠ []
  types : ∀ t ∈ data.transitions, t.localtimeIdx < data.localtimes.length

def Increasing (comp : Comp) : Prop := data.transitions.Pairwise fun s t => comp.field s < comp.field t

instance (comp : Comp) : Decidable (data.Increasing comp) := inferInstanceAs (Decidable (List.Pairwise _ _))

/-- The type in force: that of the last transition up to a time, and else the first one. -/
def typeAt (comp : Comp) (time : ℤ) : Option Localtime :=
  match lastUpTo comp.field time data.transitions with
  | some transition => data.localtimes[transition.localtimeIdx]?
  | none => data.localtimes.head?

/-- In the order of the vector: a type is that of the last transition up to a time, or the first
one with every transition after the time. -/
inductive InForce (comp : Comp) (time : ℤ) (localtime : Localtime) : Prop
  | ofTransition (before : List Transition) (transition : Transition) (after : List Transition)
      (htransitions : data.transitions = before++transition::after) (hupTo : comp.field transition ≤ time)
      (hafter : ∀ t ∈ after, time < comp.field t)
      (htype : data.localtimes[transition.localtimeIdx]? = some localtime)
  | ofFront (hafter : ∀ t ∈ data.transitions, time < comp.field t) (htype : data.localtimes.head? = some localtime)

variable {data}

theorem typeAt_eq_some {comp : Comp} {time : ℤ} {localtime : Localtime} :
    data.typeAt comp time = some localtime ↔ data.InForce comp time localtime := by
  constructor
  · intro h
    rw [typeAt] at h
    cases hlast : lastUpTo comp.field time data.transitions with
    | some transition =>
      obtain ⟨before,after,htransitions,hupTo,hafter⟩ := lastUpTo_eq_some.mp hlast
      simp only [hlast] at h
      exact .ofTransition before transition after htransitions hupTo hafter h
    | none =>
      simp only [hlast] at h
      exact .ofFront (lastUpTo_eq_none.mp hlast) h
  · rintro (⟨before,transition,after,htransitions,hupTo,hafter,htype⟩ | ⟨hafter,htype⟩)
    · rw [typeAt,lastUpTo_eq_some.mpr ⟨before,after,htransitions,hupTo,hafter⟩]
      exact htype
    · rw [typeAt,lastUpTo_eq_none.mpr hafter]
      exact htype

theorem Indexed.typeAt (h : data.Indexed) (comp : Comp) (time : ℤ) :
    ∃ localtime, data.typeAt comp time = some localtime := by
  rw [Data.typeAt]
  cases hlast : lastUpTo comp.field time data.transitions with
  | some transition => exact ⟨_,List.getElem?_eq_getElem (h.types transition (mem_of_lastUpTo hlast).1)⟩
  | none => exact ⟨_,List.head?_eq_some_head h.front⟩

end Data

/-- The first transition is not after `sentry`, so the search does not end at it unless they are
equal, and there is one to step back to. -/
theorem lowerBound_behind_front {comp : Comp} {sentry front transition : Transition} {rest : List Transition}
    (hless : ¬ comp.less sentry front = true)
    (hfound : (front::rest)[lowerBound comp.less sentry (front::rest)]? = some transition)
    (hequal : ¬ comp.equal sentry transition = true) :
    lowerBound comp.less sentry (front::rest) ≠ 0 ∧
      lowerBound comp.less sentry (front::rest)-1 < (front::rest).length := by
  refine ⟨fun hzero => ?_,?_⟩
  · rw [hzero,List.getElem?_cons_zero] at hfound
    cases hfound
    rw [comp.less_iff,not_lt] at hless
    rw [comp.equal_iff] at hequal
    have hfront := (comp.less_iff front sentry).mpr (lt_of_le_of_ne hless (Ne.symm hequal))
    rw [lowerBound_cons hfront] at hzero
    cases hzero
  · obtain ⟨hk,-⟩ := List.getElem?_eq_some_iff.mp hfound
    omega

/-- A search in transitions that are in order finds the type in force, and does not step back
from the first one. -/
theorem findLocalTime_eq {data : Data} {comp : Comp} (hsorted : data.Increasing comp) (sentry : Transition) :
    findLocalTime data sentry comp = data.typeAt comp (comp.field sentry) := by
  rw [findLocalTime,Data.typeAt]
  cases htransitions : data.transitions with
  | nil => rfl
  | cons front rest =>
    rw [Data.Increasing,htransitions] at hsorted
    by_cases hless : comp.less sentry front = true
    · have hnone : lastUpTo comp.field (comp.field sentry) (front::rest) = none := by
        refine lastUpTo_eq_none.mpr fun t ht => ?_
        have hfront := (comp.less_iff sentry front).mp hless
        rcases List.mem_cons.mp ht with rfl | ht
        · exact hfront
        · exact lt_trans hfront ((List.pairwise_cons.mp hsorted).1 t ht)
      rw [hnone]
      exact if_pos hless
    · rw [lastUpTo_eq_lowerBound comp.less_iff hsorted sentry]
      simp only [if_neg hless]
      cases hfound : (front::rest)[lowerBound comp.less sentry (front::rest)]? with
      | none => simp only [List.getLast?_eq_some_getLast (List.cons_ne_nil front rest),Option.bind_some]
      | some transition =>
        by_cases hequal : comp.field transition = comp.field sentry
        · simp [hequal,(comp.equal_iff sentry transition).mpr hequal.symm]
        · have hne : comp.equal sentry transition = false := by
            rw [← Bool.not_eq_true,comp.equal_iff]
            exact fun h => hequal h.symm
          obtain ⟨hpos,hlt⟩ := lowerBound_behind_front hless hfound (by rw [hne]; exact Bool.false_ne_true)
          simp only [if_neg hequal,if_neg hpos,hne,List.getElem?_eq_getElem hlt,Bool.false_eq_true,if_false,
            Option.bind_some]

/-- In zone data with valid indices and transitions in order, the search ends with the one type in
force, and a step back stays in the vector. -/
theorem findLocalTime_inForce {data : Data} {comp : Comp} (hindexed : data.Indexed) (hsorted : data.Increasing comp)
    (sentry : Transition) :
    (∃ localtime, findLocalTime data sentry comp = some localtime) ∧
      (∀ localtime, findLocalTime data sentry comp = some localtime ↔
        data.InForce comp (comp.field sentry) localtime) ∧
      ∀ front transition, data.transitions.head? = some front → ¬ comp.less sentry front = true →
        data.transitions[lowerBound comp.less sentry data.transitions]? = some transition →
        ¬ comp.equal sentry transition = true →
        lowerBound comp.less sentry data.transitions ≠ 0 ∧
          lowerBound comp.less sentry data.transitions-1 < data.transitions.length := by
  rw [findLocalTime_eq hsorted]
  refine ⟨hindexed.typeAt comp _,fun localtime => Data.typeAt_eq_some,fun front transition hfront => ?_⟩
  obtain ⟨rest,htransitions⟩ := List.head?_eq_some_iff.mp hfront
  rw [htransitions]
  exact lowerBound_behind_front

/-- Two changes, the second of them to summer time. -/
def oneYear : Data where
  transitions := [⟨100,3700,0⟩,⟨200,7400,1⟩]
  localtimes := [⟨3600,false,0⟩,⟨7200,true,4⟩]
  abbreviation := []
  zoneAbbr := []

theorem oneYear_indexed : oneYear.Indexed := ⟨by decide,by decide⟩

theorem findLocalTime_inForce_oneYear :
    (∃ localtime, findLocalTime oneYear ⟨199,0,0⟩ ⟨true⟩ = some localtime) ∧
      (∀ localtime, findLocalTime oneYear ⟨199,0,0⟩ ⟨true⟩ = some localtime ↔
        oneYear.InForce ⟨true⟩ (Comp.field ⟨true⟩ ⟨199,0,0⟩) localtime) ∧
      ∀ front transition, oneYear.transitions.head? = some front → ¬ Comp.less ⟨true⟩ ⟨199,0,0⟩ front = true →
        oneYear.transitions[lowerBound (Comp.less ⟨true⟩) ⟨199,0,0⟩ oneYear.transitions]? = some transition →
        ¬ Comp.equal ⟨true⟩ ⟨199,0,0⟩ transition = true →
        lowerBound (Comp.less ⟨true⟩) ⟨199,0,0⟩ oneYear.transitions ≠ 0 ∧
          lowerBound (Comp.less ⟨true⟩) ⟨199,0,0⟩ oneYear.transitions-1 < oneYear.transitions.length :=
  findLocalTime_inForce oneYear_indexed (by decide) ⟨199,0,0⟩

end TimeZone
end GgLib
