import GgLib.ConditionVariable
import GgLib.LabelledSystem
import Mathlib.Logic.Function.Basic

/-! `ThreadPool` behind `start(numThreads)`: any threads call `run`, and the first
`numThreads` threads are the workers, each in `runInThread`. A step is one critical section
of `mutex_`. A worker that is `idle` executes a task or is about to call `take`; its task may
call `run` as well. -/
namespace GgLib

namespace ThreadPool

/-- Where a thread stands: outside of both calls, inside of `notEmpty_.wait` of `take`, inside
of `notFull_.wait` of `run`, or behind the loop of `runInThread`. -/
inductive Pc (Task : Type)
  | idle
  | taking
  | pushing (task : Task)
  | finished

def Pc.isIdle {Task : Type} : Pc Task → Bool
  | .idle => true
  | _ => false

def Pc.isTaking {Task : Type} : Pc Task → Bool
  | .taking => true
  | _ => false

def Pc.isPushing {Task : Type} : Pc Task → Bool
  | .pushing _ => true
  | _ => false

/-- `woken` is the waiter that a `notify_one` of the step releases, if there is any. -/
inductive Label (Task : Type)
  | run (thread : ℕ) (task : Task) (woken : ℕ)
  | take (thread woken : ℕ)
  | resume (thread woken : ℕ)
  | wake (thread : ℕ)
  | leave (thread : ℕ)
  | stop

end ThreadPool

/-- `aborted` tells whether the assertion in `run` has failed; the last two fields record the
tasks that were pushed and the ones that `take` has returned. -/
structure ThreadPool (Task : Type) where
  numThreads : ℕ
  maxQueueSize : ℕ
  queue : List Task
  running : Bool
  notEmpty : ConditionVariable ℕ
  notFull : ConditionVariable ℕ
  threads : ℕ → ThreadPool.Pc Task
  aborted : Bool
  accepted : List Task
  taken : List Task

namespace ThreadPool

variable {Task : Type}

/-- The state behind `start`. -/
def start (numThreads maxQueueSize : ℕ) : ThreadPool Task where
  numThreads := numThreads
  maxQueueSize := maxQueueSize
  queue := []
  running := true
  notEmpty := .empty
  notFull := .empty
  threads := fun _ => .idle
  aborted := false
  accepted := []
  taken := []

variable (w : ThreadPool Task)

def isFull : Bool := decide (0 < w.maxQueueSize) && decide (w.maxQueueSize ≤ w.queue.length)

def setThread (thread : ℕ) (pc : Pc Task) : ThreadPool Task :=
  { w with threads := Function.update w.threads thread pc }

/-- `run` with the lock, at the test of its loop. -/
def runLoop (thread : ℕ) (task : Task) (woken : ℕ) : Option (ThreadPool Task) :=
  if w.isFull && w.running then
    some ({ w with notFull := w.notFull.wait thread }.setThread thread (.pushing task))
  else if !w.running then some (w.setThread thread .idle)
  else if w.isFull then some { w with aborted := true }
  else
    (w.notEmpty.notifyOne woken).map fun notEmpty =>
      { w with notEmpty, queue := w.queue++[task], accepted := w.accepted++[task] }.setThread thread .idle

/-- `take` with the lock, at the test of its loop. -/
def takeLoop (thread woken : ℕ) : Option (ThreadPool Task) :=
  match w.queue with
  | [] =>
    if w.running then some ({ w with notEmpty := w.notEmpty.wait thread }.setThread thread .taking)
    else some (w.setThread thread .idle)
  | task::queue =>
    let w := { w with queue, taken := w.taken++[task] }
    if 0 < w.maxQueueSize then
      (w.notFull.notifyOne woken).map fun notFull => { w with notFull }.setThread thread .idle
    else some (w.setThread thread .idle)

/-- A woken thread has the lock again. -/
def resume (thread woken : ℕ) : Option (ThreadPool Task) :=
  match w.threads thread with
  | .taking => (w.notEmpty.acquire thread).bind fun notEmpty => { w with notEmpty }.takeLoop thread woken
  | .pushing task => (w.notFull.acquire thread).bind fun notFull => { w with notFull }.runLoop thread task woken
  | .idle => none
  | .finished => none

/-- A sleeper wakes up by itself. -/
def wake (thread : ℕ) : Option (ThreadPool Task) :=
  match w.threads thread with
  | .taking => (w.notEmpty.wake thread).map fun notEmpty => { w with notEmpty }
  | .pushing _ => (w.notFull.wake thread).map fun notFull => { w with notFull }
  | .idle => none
  | .finished => none

def stop : ThreadPool Task :=
  { w with running := false, notEmpty := w.notEmpty.notifyAll, notFull := w.notFull.notifyAll }

/-- Without threads `run` executes the task itself. -/
def step : Label Task → Option (ThreadPool Task)
  | .run thread task woken =>
    if (w.threads thread).isIdle then
      if w.numThreads = 0 then some w else w.runLoop thread task woken
    else none
  | .take thread woken => if thread < w.numThreads ∧ (w.threads thread).isIdle then w.takeLoop thread woken else none
  | .resume thread woken => w.resume thread woken
  | .wake thread => w.wake thread
  | .leave thread =>
    if thread < w.numThreads ∧ (w.threads thread).isIdle ∧ w.running = false then some (w.setThread thread .finished)
    else none
  | .stop => some w.stop

end ThreadPool
end GgLib
