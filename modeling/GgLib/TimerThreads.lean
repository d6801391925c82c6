import GgLib.TimerEntries
import GgLib.WorkQueue

/-! Threads that call `addTimer` and `cancel`. Both go through `runInLoop`, which runs the
functor at once on the loop thread and queues it on any other. Thread 0 is the loop thread;
it makes its calls in callbacks and in functors. -/
namespace GgLib

open LabelledSystem

namespace TimerThreads

/-- `returned` records whether `addTimer` had returned the id when `cancel` was called. -/
inductive Functor
  | addTimerInLoop (timerId : ℕ)
  | cancelInLoop (timerId : ℕ) (returned : Bool)
  deriving DecidableEq, Repr

/-- Where another thread stands in `addTimer`: behind `new Timer` it has still to queue. -/
inductive Pc
  | idle
  | adding (timerId : ℕ)
  deriving DecidableEq, Repr

inductive Label
  | tick (d : ℕ)
  | createElsewhere
  | addTimer (thread : ℕ) (when : ℤ) (interval : Interval)
  | queueInLoop (thread : ℕ)
  | cancel (thread timerId : ℕ)
  | swap
  | functor
  | handleRead
  | advance
  deriving DecidableEq

end TimerThreads

/-- `work.pending` is `pendingFunctors_`, `work.batch` the vector of `doPendingFunctors`. The
last two fields record the ids that `addTimer` has returned, and those whose `cancel`, called
behind that, was processed before their timer ever ran. -/
structure TimerThreads where
  loop : TimerLoop
  work : WorkQueue TimerThreads.Functor
  threads : ℕ → TimerThreads.Pc
  returned : List ℕ
  cancelled : List ℕ

namespace TimerThreads

def initial (clock : Clock) : TimerThreads := ⟨.initial clock,.empty,fun _ => .idle,[],[]⟩

variable (w : TimerThreads)

def cancelInLoop (timerId : ℕ) (returned : Bool) : Option TimerThreads :=
  (w.loop.step (.cancelInLoop timerId)).map fun loop =>
    { w with
      loop
      cancelled := if returned = true ∧ .run timerId ∉ w.loop.trace then w.cancelled++[timerId] else w.cancelled }

def runFunctor : Functor → Option TimerThreads
  | .addTimerInLoop timerId => (w.loop.step (.addTimerInLoop timerId)).map fun loop => { w with loop }
  | .cancelInLoop timerId returned => w.cancelInLoop timerId returned

/-- `sequence()` of the new timer is read before the timer is handed on. -/
def addTimer (thread : ℕ) (when : ℤ) (interval : Interval) : Option TimerThreads :=
  let timerId := w.loop.numCreated
  if thread = 0 then
    (w.loop.step (.create when interval)).bind fun loop =>
      (loop.step (.addTimerInLoop timerId)).map fun loop => { w with loop, returned := w.returned++[timerId] }
  else if w.threads thread = .idle then
    (w.loop.step (.create when interval)).map fun loop =>
      { w with loop, threads := Function.update w.threads thread (.adding timerId) }
  else none

/-- The rest of `addTimer` on another thread. -/
def queueInLoop (thread : ℕ) : Option TimerThreads :=
  match w.threads thread with
  | .idle => none
  | .adding timerId =>
    some
      { w with
        work := w.work.push (.addTimerInLoop timerId)
        threads := Function.update w.threads thread .idle
        returned := w.returned++[timerId] }

def cancel (thread timerId : ℕ) : Option TimerThreads :=
  let returned := decide (timerId ∈ w.returned)
  if thread = 0 then w.cancelInLoop timerId returned
  else if w.threads thread = .idle then some { w with work := w.work.push (.cancelInLoop timerId returned) }
  else none

/-- No handler runs while `doPendingFunctors` does, and none of the functors in a handler. -/
def step : Label → Option TimerThreads
  | .tick d => (w.loop.step (.tick d)).map fun loop => { w with loop }
  | .createElsewhere => (w.loop.step .createElsewhere).map fun loop => { w with loop }
  | .addTimer thread when interval => w.addTimer thread when interval
  | .queueInLoop thread => w.queueInLoop thread
  | .cancel thread timerId => w.cancel thread timerId
  | .swap => if w.loop.phase = .idle ∧ w.work.batch = [] then some { w with work := w.work.swap } else none
  | .functor =>
    if w.loop.phase = .idle then w.work.next.bind fun (f,work) => runFunctor { w with work } f else none
  | .handleRead => if w.work.batch = [] then (w.loop.step .handleRead).map fun loop => { w with loop } else none
  | .advance => (w.loop.step .advance).map fun loop => { w with loop }

def queue : List Functor := w.work.batch++w.work.pending

end TimerThreads
end GgLib
