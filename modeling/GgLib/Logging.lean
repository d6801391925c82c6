import GgLib.TimeZone

/-! `Logger`: the zone of the process, and what each thread keeps of the last time it has
written. -/
namespace GgLib

open TimeZone CalendarTime

/-- The bytes of `%4d` and `%02d`. -/
def padded (fill : Byte) (width : ℕ) (n : ℤ) : List Byte :=
  let digits := text (toString n.natAbs)
  let sign := if n < 0 then text "-" else []
  let gap := List.replicate (width-sign.length-digits.length) fill
  if fill = 48 then sign++gap++digits else gap++sign++digits

namespace Logging

def kMicroSecondsPerSecond : ℤ := 1000*1000

/-- The `snprintf` into `t_time`. -/
def dateTime (tm_time : Tm) : List Byte :=
  padded 32 4 (tm_time.tm_year+1900)++padded 48 2 (tm_time.tm_mon+1)++padded 48 2 tm_time.tm_mday++text " "++
    padded 48 2 tm_time.tm_hour++text ":"++padded 48 2 tm_time.tm_min++text ":"++padded 48 2 tm_time.tm_sec

/-- The date and time of a second in a zone, computed afresh; without a zone it is GMT. -/
def freshTime (zone : Option Data) (seconds : ℤ) : Option (List Byte) :=
  match zone with
  | some data => (data.toLocalTime seconds).map dateTime
  | none => some (dateTime (gmtime_r seconds))

/-- The label of a zone for a second. -/
def freshLabel (zone : Option Data) (seconds : ℤ) : Option (List Byte) :=
  match zone with
  | some data => data.labelAt seconds
  | none => some (text "GMT")

/-- `t_time`, `t_lastSecond` and `t_zoneAbbr` of a thread. The last two fields record the zone
`t_time` was computed in, if it was, and the zone of the thread's own last `setTimeZone` with
the time its label was computed at. -/
structure ThreadLocal where
  t_time : List Byte
  t_lastSecond : ℤ
  t_zoneAbbr : List Byte
  computedIn : Option (Option Data)
  labelOf : Option (Data × ℤ)
  deriving DecidableEq, Repr

/-- What `formatTime` streams, with the second of the record and the zone set at its time. -/
structure Record where
  time : List Byte
  microseconds : ℤ
  zoneAbbr : List Byte
  seconds : ℤ
  zone : Option Data
  deriving DecidableEq, Repr

/-- The data of a time zone, and the time at which its label was computed last. -/
structure Zone where
  data : Data
  askedAt : ℤ
  deriving DecidableEq, Repr

/-- A `TimeZone` is named by its data, which its copies share. -/
inductive Label
  | setTimeZone (thread zone : ℕ) (now : ℤ)
  | log (thread : ℕ) (microSecondsSinceEpoch : ℤ)
  deriving DecidableEq, Repr

end Logging

structure Logging where
  zones : List Logging.Zone
  g_logTimeZone : Option ℕ
  threads : ℕ → Logging.ThreadLocal
  records : List Logging.Record

namespace Logging

/-- At the start, with the time zones that the program constructs. -/
def start (zones : List Data) : Logging where
  zones := zones.map fun data => ⟨{ data with zoneAbbr := [] },0⟩
  g_logTimeZone := none
  threads _ := ⟨[],0,text "GMT",none,none⟩
  records := []

variable (w : Logging)

def zone : Option Data := w.g_logTimeZone.bind fun z => w.zones[z]?.map Zone.data

/-- The `strncpy` leaves the last byte of `t_zoneAbbr[16]` alone. -/
def setTimeZone (thread zone : ℕ) (now : ℤ) : Option Logging :=
  w.zones[zone]?.bind fun tz =>
    (tz.data.getZoneAbbr now).map fun (zoneAbbr,data) =>
      let askedAt := if tz.data.zoneAbbr = [] then now else tz.askedAt
      { w with
        zones := w.zones.set zone ⟨data,askedAt⟩
        g_logTimeZone := some zone
        threads := Function.update w.threads thread
          { w.threads thread with t_zoneAbbr := zoneAbbr.take 15, labelOf := some (data,askedAt) } }

/-- `formatTime`: the text of another second has to be 17 bytes long. -/
def formatTime (thread : ℕ) (microSecondsSinceEpoch : ℤ) : Option Logging :=
  let seconds := microSecondsSinceEpoch.tdiv kMicroSecondsPerSecond
  let microseconds := microSecondsSinceEpoch.tmod kMicroSecondsPerSecond
  let t := w.threads thread
  if seconds ≠ t.t_lastSecond then
    (freshTime w.zone seconds).bind fun time =>
      if time.length = 17 then
        some
          { w with
            threads := Function.update w.threads thread
              { t with t_time := time, t_lastSecond := seconds, computedIn := some w.zone }
            records := w.records++[Record.mk time microseconds t.t_zoneAbbr seconds w.zone] }
      else none
  else some { w with records := w.records++[Record.mk t.t_time microseconds t.t_zoneAbbr seconds w.zone] }

def step : Label → Option Logging
  | .setTimeZone thread zone now => w.setTimeZone thread zone now
  | .log thread microSecondsSinceEpoch => w.formatTime thread microSecondsSinceEpoch

end Logging
end GgLib
