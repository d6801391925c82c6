import GgLib.PriorityQueue
import GgLib.LabelledSystem
import Mathlib.Data.Prod.Lex
import Mathlib.Data.Int.Basic
import Mathlib.Algebra.Order.Group.Int
import Mathlib.Logic.Function.Basic

/-! `TimerQueue` of one `EventLoop`. A `Timer*` is the `sequence()` of its timer, which no
two timers share; the object lives as long as `activeTimers_` owns it. A step of the loop
thread between two callbacks is one dereference of such a pointer. A `Timestamp` is its
microseconds since the epoch; reading the clock and arming `timerfd_` by it take no time. -/
namespace GgLib

namespace Timestamp

def kMicroSecondsPerSecond : ℤ := 1000*1000

def valid (microSecondsSinceEpoch : ℤ) : Bool := decide (0 < microSecondsSinceEpoch)

end Timestamp

/-- A `double` number of seconds: whether it is positive, and the microseconds it is cast to. -/
structure Interval where
  positive : Bool
  microSeconds : ℤ
  nonneg : positive = true → 0 ≤ microSeconds
  deriving DecidableEq

def Timestamp.addTime (timestamp : ℤ) (seconds : Interval) : ℤ :=
  timestamp+seconds.microSeconds

/-- `repeat_` is `interval > 0.0`. -/
structure Timer where
  expiration : ℤ
  interval : Interval
  sequence : ℕ
  deriving DecidableEq

namespace Timer

def repeats (timer : Timer) : Bool := timer.interval.positive

def restart (timer : Timer) (now : ℤ) : Timer :=
  { timer with expiration := if timer.repeats then Timestamp.addTime now timer.interval else 0 }

end Timer

namespace TimerQueue

/-- `std::pair<Timestamp, TimerId>`. -/
structure Entry where
  first : ℤ
  second : ℕ
  deriving DecidableEq, Repr

/-- The order of `std::greater<Entry>`, least on top. -/
instance : LinearOrder Entry :=
  LinearOrder.lift' (fun e => toLex (e.first,e.second)) fun e e' h => by
    cases e
    cases e'
    simpa using h

theorem Entry.first_le {e e' : Entry} (h : e ≤ e') : e.first ≤ e'.first := by
  have hlex : toLex (e.first,e.second) ≤ toLex (e'.first,e'.second) := h
  rcases Prod.Lex.toLex_le_toLex.mp hlex with hlt | ⟨heq,-⟩
  · exact le_of_lt hlt
  · exact le_of_eq heq

structure Timespec where
  tv_sec : ℤ
  tv_nsec : ℤ
  deriving DecidableEq, Repr

def Timespec.microSeconds (ts : Timespec) : ℤ := ts.tv_sec*Timestamp.kMicroSecondsPerSecond+ts.tv_nsec/1000

def howMuchTimeFromNow (when now : ℤ) : Timespec :=
  let microseconds := when-now
  let microseconds := if microseconds < 100 then 100 else microseconds
  ⟨microseconds/Timestamp.kMicroSecondsPerSecond,microseconds%Timestamp.kMicroSecondsPerSecond*1000⟩

theorem howMuchTimeFromNow_microSeconds (when now : ℤ) :
    (howMuchTimeFromNow when now).microSeconds = max (when-now) 100 := by
  have hmax : (if when-now < 100 then 100 else when-now) = max (when-now) 100 := by
    split <;> omega
  simp only [howMuchTimeFromNow,Timespec.microSeconds,hmax,Timestamp.kMicroSecondsPerSecond]
  omega

/-- What `timerfd_settime` was last given: when that was, and for which instant. -/
structure Arming where
  moment : ℤ
  instant : ℤ
  deriving DecidableEq, Repr

end TimerQueue

/-- `timerfd` is `none` before the first arming and behind a read of a timer that was due. -/
structure TimerQueue where
  timers : PriorityQueue TimerQueue.Entry
  activeTimers : ℕ → Option Timer
  timerfd : Option TimerQueue.Arming

namespace TimerQueue

def create : TimerQueue := ⟨.empty,fun _ => none,none⟩

variable (q : TimerQueue)

def resetTimerfd (now expiration : ℤ) : TimerQueue :=
  { q with timerfd := some ⟨now,now+(howMuchTimeFromNow expiration now).microSeconds⟩ }

/-- Reading a timer that is not due fails and leaves it. -/
def readTimerfd (now : ℤ) : TimerQueue :=
  { q with timerfd := q.timerfd.filter fun a => decide (now < a.instant) }

def emplaceActive (timer : Timer) : TimerQueue :=
  { q with activeTimers := Function.update q.activeTimers timer.sequence (some timer) }

def eraseActive (timerId : ℕ) : TimerQueue :=
  { q with activeTimers := Function.update q.activeTimers timerId none }

def insert (timer : Timer) : TimerQueue × Bool :=
  let earliestChanged :=
    match q.timers.top with
    | none => true
    | some entry => decide (timer.expiration < entry.first)
  let q := { q with timers := q.timers.emplace ⟨timer.expiration,timer.sequence⟩ }
  (if (q.activeTimers timer.sequence).isNone then q.emplaceActive timer else q,earliestChanged)

def addTimerInLoop (now : ℤ) (timer : Timer) : TimerQueue :=
  let (q,earliestChanged) := q.insert timer
  if earliestChanged then q.resetTimerfd now timer.expiration else q

def cancelInLoop (timerId : ℕ) : TimerQueue := q.eraseActive timerId

/-- The pointers to the active timers among the entries that are popped. -/
def getExpired (now : ℤ) : TimerQueue × List ℕ :=
  let (popped,timers) := q.timers.popWhile fun entry => decide (entry.first ≤ now)
  ({ q with timers },(popped.map (·.second)).filter fun timerId => (q.activeTimers timerId).isSome)

/-- The body of the first loop of `reset`. -/
def restartOrErase (now : ℤ) (timer : Timer) : TimerQueue :=
  let timerId := timer.sequence
  if timer.repeats && (q.activeTimers timerId).isSome then
    let timer := timer.restart now
    let q := q.emplaceActive timer
    { q with timers := q.timers.emplace ⟨timer.expiration,timerId⟩ }
  else q.eraseActive timerId

/-- What `reset` does behind its first loop. -/
def armNext (now : ℤ) : TimerQueue :=
  let timers := (q.timers.popWhile fun entry => (q.activeTimers entry.second).isNone).2
  let nextExpire : ℤ :=
    match timers.top with
    | some entry => entry.first
    | none => 0
  let q := { q with timers }
  if Timestamp.valid nextExpire then q.resetTimerfd now nextExpire else q

end TimerQueue

/-- The wall clock, which stands after the epoch. -/
structure Clock where
  now : ℤ
  valid : 0 < now

def Clock.tick (clock : Clock) (d : ℕ) : Clock := ⟨clock.now+d,by have := clock.valid; omega⟩

namespace TimerLoop

/-- `touch` is a dereference of a pointer, with whether `activeTimers_` owns its timer. -/
inductive Event
  | handleRead
  | cancelInLoop (timerId : ℕ)
  | touch (timerId : ℕ) (owned : Bool)
  | run (timerId : ℕ)
  deriving DecidableEq, Repr

/-- Where `handleRead` stands: in the loop that runs the timers, in the first loop of
`reset`, or behind the dereference of a timer that is destroyed. -/
inductive Phase
  | idle
  | running (now : ℤ) (expired todo : List ℕ)
  | resetting (now : ℤ) (todo : List ℕ)
  | undefined
  deriving DecidableEq, Repr

inductive Label
  | tick (d : ℕ)
  | create (when : ℤ) (interval : Interval)
  | createElsewhere
  | addTimerInLoop (timerId : ℕ)
  | cancelInLoop (timerId : ℕ)
  | handleRead
  | advance
  deriving DecidableEq

end TimerLoop

/-- `created` are the timers whose `addTimerInLoop` is still to run. -/
structure TimerLoop where
  queue : TimerQueue
  clock : Clock
  numCreated : ℕ
  created : List Timer
  phase : TimerLoop.Phase
  trace : List TimerLoop.Event

namespace TimerLoop

def initial (clock : Clock) : TimerLoop := ⟨.create,clock,0,[],.idle,[]⟩

/-- The loop thread runs callbacks, those of the expired timers included. -/
def Phase.calling : Phase → Bool
  | .idle => true
  | .running _ _ _ => true
  | _ => false

/-- `handleRead` goes on: it runs the next timer, whose callback then adds and cancels, or
it resets the next one, or it arms `timerfd_` and returns. -/
def advance (w : TimerLoop) : Option TimerLoop :=
  match w.phase with
  | .running now expired (timerId::todo) =>
    match w.queue.activeTimers timerId with
    | some _ =>
      some { w with phase := .running now expired todo, trace := w.trace++[.touch timerId true,.run timerId] }
    | none => some { w with phase := .undefined, trace := w.trace++[.touch timerId false,.run timerId] }
  | .running now expired [] => some { w with phase := .resetting now expired }
  | .resetting now (timerId::todo) =>
    match w.queue.activeTimers timerId with
    | some timer =>
      some
        { w with
          queue := w.queue.restartOrErase now timer
          phase := .resetting now todo
          trace := w.trace++[.touch timerId true] }
    | none => some { w with phase := .undefined, trace := w.trace++[.touch timerId false] }
  | .resetting _ [] => some { w with queue := w.queue.armNext w.clock.now, phase := .idle }
  | .idle => none
  | .undefined => none

def step (w : TimerLoop) : Label → Option TimerLoop
  | .tick d => some { w with clock := w.clock.tick d }
  | .create when interval =>
    some
      { w with
        numCreated := w.numCreated+1
        created := w.created++[⟨when,interval,w.numCreated⟩] }
  | .createElsewhere => some { w with numCreated := w.numCreated+1 }
  | .addTimerInLoop timerId =>
    if w.phase.calling then
      (w.created.find? (·.sequence = timerId)).map fun timer =>
        { w with
          queue := w.queue.addTimerInLoop w.clock.now timer
          created := w.created.erase timer }
    else none
  | .cancelInLoop timerId =>
    if w.phase.calling then
      some { w with queue := w.queue.cancelInLoop timerId, trace := w.trace++[.cancelInLoop timerId] }
    else none
  | .handleRead =>
    if w.phase = .idle then
      let now := w.clock.now
      let (queue,expired) := (w.queue.readTimerfd now).getExpired now
      some { w with queue, phase := .running now expired expired, trace := w.trace++[.handleRead] }
    else none
  | .advance => w.advance

/-- The timers of the batch that `handleRead` has still to dereference. -/
def batch (w : TimerLoop) : List ℕ :=
  match w.phase with
  | .running _ expired _ => expired
  | .resetting _ todo => todo
  | .idle => []
  | .undefined => []

end TimerLoop
end GgLib
