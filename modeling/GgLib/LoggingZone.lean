import GgLib.Logging
import GgLib.LabelledSystem

/-! Which records have a time and a label of the zone set last: the text is kept until the second
of the thread changes, and the label until the thread sets a zone itself. -/
namespace GgLib

open LabelledSystem TimeZone CalendarTime

namespace Logging

variable {w w' : Logging}

/-- The time and the label are those of the zone set last, for the second of the record. -/
structure Record.Right (r : Record) : Prop where
  time : freshTime r.zone r.seconds = some r.time
  label : freshLabel r.zone r.seconds = some r.zoneAbbr

/-- The label of the zone this thread has set itself, when that was asked for its label. -/
def ThreadLocal.ownLabel (t : ThreadLocal) : Option (List Byte) :=
  match t.labelOf with
  | some (data,askedAt) => (data.labelAt askedAt).map fun zoneAbbr => zoneAbbr.take 15
  | none => some (text "GMT")

/-- The second is another one than that of the thread's text, or the text was computed in a zone
with the same time then; and the zone that the thread has set itself, GMT if none, had the
label that the zone set last has at this second. -/
def Agrees (w : Logging) (label : Label) : Prop :=
  match label with
  | .setTimeZone _ _ _ => True
  | .log thread microSecondsSinceEpoch =>
    let seconds := microSecondsSinceEpoch.tdiv kMicroSecondsPerSecond
    let t := w.threads thread
    (seconds ≠ t.t_lastSecond ∨
      ∃ zone, t.computedIn = some zone ∧ freshTime zone seconds = freshTime w.zone seconds) ∧
    t.ownLabel = freshLabel w.zone seconds

instance (w : Logging) (label : Label) : Decidable (w.Agrees label) :=
  match label with
  | .setTimeZone _ _ _ => isTrue trivial
  | .log thread micros =>
    let seconds := micros.tdiv kMicroSecondsPerSecond
    let zones := (w.threads thread).computedIn.toList
    decidable_of_iff
      ((seconds ≠ (w.threads thread).t_lastSecond ∨ ∃ zone ∈ zones, freshTime zone seconds = freshTime w.zone seconds) ∧
        (w.threads thread).ownLabel = freshLabel w.zone seconds) (by simp [Agrees,seconds,zones])

/-- What a thread keeps is what the last two fields say. -/
structure ThreadLocal.Traced (t : ThreadLocal) : Prop where
  time : ∀ zone, t.computedIn = some zone → freshTime zone t.t_lastSecond = some t.t_time
  blank : t.computedIn = none → t.t_time = []
  label : t.ownLabel = some t.t_zoneAbbr

/-- The label that a time zone keeps is the one of `askedAt`. -/
def Zone.Traced (zone : Zone) : Prop :=
  zone.data.zoneAbbr = [] ∨ zone.data.labelAt zone.askedAt = some zone.data.zoneAbbr

structure Traced (w : Logging) : Prop where
  threads : ∀ thread, (w.threads thread).Traced
  zones : ∀ zone ∈ w.zones, zone.Traced

theorem dateTime_ne_nil (tm_time : Tm) : dateTime tm_time ≠ [] := by
  simp [dateTime,text]

theorem freshTime_ne_nil (zone : Option Data) (seconds : ℤ) : freshTime zone seconds ≠ some [] := by
  cases zone with
  | some data =>
    intro h
    obtain ⟨tm,-,hnil⟩ := Option.map_eq_some_iff.mp h
    exact dateTime_ne_nil tm hnil
  | none => exact fun h => dateTime_ne_nil _ (Option.some.inj h)

theorem getZoneAbbr_traced {zone : Zone} (h : zone.Traced) {now : ℤ} {zoneAbbr : List Byte} {data : Data}
    (hget : zone.data.getZoneAbbr now = some (zoneAbbr,data)) :
    data.labelAt (if zone.data.zoneAbbr = [] then now else zone.askedAt) = some zoneAbbr ∧
      data.zoneAbbr = zoneAbbr := by
  rw [Data.getZoneAbbr] at hget
  split at hget
  · rename_i hempty
    obtain ⟨label,hlabel,heq⟩ := Option.map_eq_some_iff.mp hget
    cases heq
    rw [if_pos hempty]
    exact ⟨hlabel,rfl⟩
  · rename_i hkept
    cases hget
    rw [if_neg hkept]
    rcases h with hempty | hlabel
    · exact absurd hempty hkept
    · exact ⟨hlabel,rfl⟩

theorem setTimeZone_cases {thread zone : ℕ} {now : ℤ} (h : w.setTimeZone thread zone now = some w') :
    ∃ tz zoneAbbr data, w.zones[zone]? = some tz ∧ tz.data.getZoneAbbr now = some (zoneAbbr,data) ∧
      w' =
        { w with
          zones := w.zones.set zone ⟨data,if tz.data.zoneAbbr = [] then now else tz.askedAt⟩
          g_logTimeZone := some zone
          threads := Function.update w.threads thread
            { w.threads thread with
              t_zoneAbbr := zoneAbbr.take 15
              labelOf := some (data,if tz.data.zoneAbbr = [] then now else tz.askedAt) } } := by
  obtain ⟨tz,htz,h⟩ := Option.bind_eq_some_iff.mp h
  obtain ⟨⟨zoneAbbr,data⟩,hget,rfl⟩ := Option.map_eq_some_iff.mp h
  exact ⟨tz,zoneAbbr,data,htz,hget,rfl⟩

/-- A record has the text of its thread, computed if its second is another one. -/
theorem formatTime_cases {thread : ℕ} {micros : ℤ} (h : w.formatTime thread micros = some w') :
    ∃ t : ThreadLocal, w' =
        { w with
          threads := Function.update w.threads thread t
          records := w.records++[Record.mk t.t_time (micros.tmod kMicroSecondsPerSecond) t.t_zoneAbbr
            (micros.tdiv kMicroSecondsPerSecond) w.zone] } ∧
      t.t_zoneAbbr = (w.threads thread).t_zoneAbbr ∧ t.labelOf = (w.threads thread).labelOf ∧
      (micros.tdiv kMicroSecondsPerSecond ≠ (w.threads thread).t_lastSecond ∧ t.computedIn = some w.zone ∧
          t.t_lastSecond = micros.tdiv kMicroSecondsPerSecond ∧
          freshTime w.zone (micros.tdiv kMicroSecondsPerSecond) = some t.t_time ∨
        micros.tdiv kMicroSecondsPerSecond = (w.threads thread).t_lastSecond ∧ t = w.threads thread) := by
  rw [formatTime] at h
  split at h
  · rename_i hother
    obtain ⟨time,htime,h⟩ := Option.bind_eq_some_iff.mp h
    split at h <;> cases h
    exact ⟨_,rfl,rfl,rfl,.inl ⟨hother,rfl,rfl,htime⟩⟩
  · rename_i hsame
    cases h
    refine ⟨w.threads thread,?_,rfl,rfl,.inr ⟨not_not.mp hsame,rfl⟩⟩
    rw [Function.update_eq_self]

theorem step_traced {label : Label} (h : w.Traced) (hstep : step w label = some w') : w'.Traced := by
  cases label with
  | setTimeZone thread zone now =>
    obtain ⟨tz,zoneAbbr,data,htz,hget,rfl⟩ := setTimeZone_cases hstep
    have htraced := h.zones tz (List.mem_of_getElem? htz)
    obtain ⟨hlabel,hkept⟩ := getZoneAbbr_traced htraced hget
    refine ⟨fun other => ?_,fun zone' hzone' => ?_⟩
    · by_cases hother : other = thread
      · subst hother
        obtain ⟨htime,hblank,-⟩ := h.threads other
        simp only [Function.update_self]
        exact ⟨htime,hblank,congrArg (Option.map fun l : List Byte => l.take 15) hlabel⟩
      · simp only [Function.update_of_ne hother]
        exact h.threads other
    · rcases List.mem_or_eq_of_mem_set hzone' with hmem | rfl
      · exact h.zones zone' hmem
      · exact .inr (by rw [hlabel,hkept])
  | log thread micros =>
    obtain ⟨t,rfl,hzoneAbbr,hlabelOf,hcase⟩ := formatTime_cases hstep
    refine ⟨fun other => ?_,h.zones⟩
    by_cases hother : other = thread
    · subst hother
      simp only [Function.update_self]
      have hown : t.ownLabel = some t.t_zoneAbbr := by
        rw [ThreadLocal.ownLabel,hlabelOf,hzoneAbbr]
        exact (h.threads other).label
      rcases hcase with ⟨-,hcomputed,hlast,hfresh⟩ | ⟨-,rfl⟩
      · refine ⟨fun zone hzone => ?_,fun hnone => ?_,hown⟩
        · obtain rfl := Option.some.inj (hcomputed.symm.trans hzone)
          rw [hlast]
          exact hfresh
        · rw [hcomputed] at hnone
          cases hnone
      · exact h.threads other
    · simp only [Function.update_of_ne hother]
      exact h.threads other

/-- A record is right exactly if its step agrees. -/
theorem step_right {label : Label} (h : w.Traced) (hstep : step w label = some w') :
    (∀ r ∈ w'.records, r.Right) ↔ (∀ r ∈ w.records, r.Right) ∧ w.Agrees label := by
  cases label with
  | setTimeZone thread zone now =>
    obtain ⟨tz,zoneAbbr,data,-,-,rfl⟩ := setTimeZone_cases hstep
    exact (and_iff_left trivial).symm
  | log thread micros =>
    obtain ⟨t,rfl,hzoneAbbr,hlabelOf,hcase⟩ := formatTime_cases hstep
    have ht := h.threads thread
    simp only [List.forall_mem_append,List.forall_mem_singleton]
    refine and_congr_right fun _ => ?_
    have hlabel : freshLabel w.zone (micros.tdiv kMicroSecondsPerSecond) = some t.t_zoneAbbr ↔
        (w.threads thread).ownLabel = freshLabel w.zone (micros.tdiv kMicroSecondsPerSecond) := by
      rw [ht.label,hzoneAbbr]
      exact eq_comm
    have htime : freshTime w.zone (micros.tdiv kMicroSecondsPerSecond) = some t.t_time ↔
        (micros.tdiv kMicroSecondsPerSecond ≠ (w.threads thread).t_lastSecond ∨
          ∃ zone, (w.threads thread).computedIn = some zone ∧
            freshTime zone (micros.tdiv kMicroSecondsPerSecond) =
              freshTime w.zone (micros.tdiv kMicroSecondsPerSecond)) := by
      rcases hcase with ⟨hother,-,-,hfresh⟩ | ⟨hsame,rfl⟩
      · exact iff_of_true hfresh (.inl hother)
      · constructor
        · intro hfresh
          cases hcomputed : (w.threads thread).computedIn with
          | none =>
            rw [ht.blank hcomputed] at hfresh
            exact absurd hfresh (freshTime_ne_nil _ _)
          | some zone =>
            refine .inr ⟨zone,rfl,?_⟩
            rw [hfresh,hsame]
            exact ht.time zone hcomputed
        · rintro (hother | ⟨zone,hcomputed,heq⟩)
          · exact absurd hsame hother
          · rw [← heq,hsame]
            exact ht.time zone hcomputed
    exact ⟨fun hr => ⟨htime.mp hr.time,hlabel.mp hr.label⟩,fun ha => ⟨htime.mpr ha.1,hlabel.mpr ha.2⟩⟩

theorem start_traced (zones : List Data) : (start zones).Traced := by
  refine ⟨fun _ => ⟨?_,fun _ => rfl,rfl⟩,fun zone hzone => ?_⟩
  · intro zone hzone
    cases hzone
  · obtain ⟨data,-,rfl⟩ := List.mem_map.mp hzone
    exact .inl rfl

/-- Over all threads and every order of `setTimeZone` and log statements: time and label of each
record are those of the zone set last, for its second, exactly if each step agrees. -/
theorem records_right_iff {zones : List Data} {labels : List Label} (h : Run step (start zones) labels w) :
    (∀ r ∈ w.records, r.Right) ↔ Along step Agrees (start zones) labels := by
  have hnone : ∀ r ∈ (start zones).records, r.Right := fun r hr => by cases hr
  have hiff := h.iff_along (G:=fun w => ∀ r ∈ w.records, r.Right) (C:=Agrees)
    (fun _ _ _ hs hstep => step_traced hs hstep)
    (fun _ _ _ hs hstep => step_right hs hstep) (start_traced zones)
  rw [hiff]
  exact and_iff_right hnone

/-- A thread sets a zone and writes a record. -/
def setThenLog : List Label := [.setTimeZone 0 0 1640995100,.log 0 1640995200123456]

theorem records_right_iff_setThenLog :
    ∃ w, exec step (start [.fixed 28800 (text "CST")]) setThenLog = some w ∧
      w.records.map (fun r => (r.time,r.zoneAbbr)) = [(text "20220101 08:00:00",text "CST")] ∧
      ∀ r ∈ w.records, r.Right := by
  obtain ⟨w,hw⟩ : ∃ w, exec step (start [.fixed 28800 (text "CST")]) setThenLog = some w :=
    Option.isSome_iff_exists.mp (by decide +kernel)
  have hlast : (exec step (start [.fixed 28800 (text "CST")]) setThenLog).map
      (fun w => w.records.map fun r => (r.time,r.zoneAbbr)) =
      some [(text "20220101 08:00:00",text "CST")] := by decide +kernel
  rw [hw] at hlast
  exact ⟨w,hw,Option.some.inj hlast,(records_right_iff ((run_iff_exec _ _ _ _).mpr hw)).mpr (by decide +kernel)⟩

def logElsewhere : List Label := [.setTimeZone 0 0 1640995100,.log 1 1640995200123456]

theorem records_wrong :
    ¬ ∀ (zones : List Data) (labels : List Label) (w : Logging), Run step (start zones) labels w →
      ∀ r ∈ w.records, r.Right := by
  intro h
  obtain ⟨w,hw⟩ : ∃ w, exec step (start [.fixed 28800 (text "CST")]) logElsewhere = some w :=
    Option.isSome_iff_exists.mp (by decide +kernel)
  have hlast : (exec step (start [.fixed 28800 (text "CST")]) logElsewhere).map
      (fun w => w.records.map fun r => (freshLabel r.zone r.seconds,r.zoneAbbr)) =
      some [(some (text "CST"),text "GMT")] := by
    decide +kernel
  rw [hw] at hlast
  have hall := h [.fixed 28800 (text "CST")] logElsewhere w ((run_iff_exec _ _ _ _).mpr hw)
  have hrecords : w.records.map (fun r => (freshLabel r.zone r.seconds,r.zoneAbbr)) =
      [(some (text "CST"),text "GMT")] :=
    Option.some.inj hlast
  have hmem : (some (text "CST"),text "GMT") ∈ w.records.map fun r => (freshLabel r.zone r.seconds,r.zoneAbbr) := by
    rw [hrecords]
    exact .head _
  obtain ⟨r,hr,heq⟩ := List.mem_map.mp hmem
  obtain ⟨hfresh,habbr⟩ := Prod.mk.inj heq
  have hlabel := (hall r hr).label
  rw [hfresh,habbr] at hlabel
  exact absurd hlabel (by decide)

end Logging
end GgLib
