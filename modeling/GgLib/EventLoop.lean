import GgLib.WorkQueue
import GgLib.LabelledSystem
import Mathlib.Logic.Function.Basic
import Mathlib.Algebra.Group.Nat.Defs

/-! `EventLoop`: its thread in `loop()`, and any threads that call `queueInLoop` and
`quit`. A step of the loop thread is one test, one poll, one handler or one functor; a
step of a call is one critical section of `mutex_` or one write of the eventfd. A functor
is the number of its push. Thread 0 is the loop thread. -/
namespace GgLib

namespace EventLoop

/-- An entry of `activeChannels_`. -/
inductive Active
  | wakeup | other
  deriving DecidableEq, Repr

/-- Where `loop()` stands: before `quit_ = false`, before the test of `quit_`, before poll,
in the loop over the active channels, before and after the swap of `doPendingFunctors`, or
behind its end. -/
inductive Phase
  | starting | testing | polling | handling | swapping | calling | returned
  deriving DecidableEq, Repr

/-- Where a thread stands in a call: `queueInLoop` has pushed the functor, `quit` was
called, `quit` has stored `quit_` and still holds `mutex_`. -/
inductive Pc
  | idle
  | pushed (functor : ℕ)
  | quitting
  | stored
  deriving DecidableEq, Repr

inductive Label
  | loop (active : List Active)
  | queueInLoop (thread : ℕ)
  | quit (thread : ℕ)
  | advance (thread : ℕ)
  deriving DecidableEq, Repr

end EventLoop

/-- `work.pending` is `pendingFunctors_`, `work.batch` the vector of `doPendingFunctors`.
`mutex` tells whether a call holds `mutex_` between two steps. The last three fields record
the functors whose `queueInLoop` returned before any `quit` was called, whether `quit` was
called and whether it has stored `quit_`. -/
structure EventLoop where
  quit : Bool
  callingPendingFunctors : Bool
  wakeupFd : ℕ
  mutex : Bool
  work : WorkQueue ℕ
  activeChannels : List EventLoop.Active
  phase : EventLoop.Phase
  threads : ℕ → EventLoop.Pc
  accepted : List ℕ
  quitCalled : Bool
  quitStored : Bool

namespace EventLoop

/-- The constructor; `loop()` has not stored `quit_` yet. -/
def create : EventLoop where
  quit := false
  callingPendingFunctors := false
  wakeupFd := 0
  mutex := false
  work := .empty
  activeChannels := []
  phase := .starting
  threads := fun _ => .idle
  accepted := []
  quitCalled := false
  quitStored := false

variable (w : EventLoop)

/-- Add one to the eventfd; the write fails when the counter is at its largest value. -/
def wakeup : EventLoop := if w.wakeupFd < 2^64-2 then { w with wakeupFd := w.wakeupFd+1 } else w

def handleRead : EventLoop := { w with wakeupFd := 0 }

def setThread (thread : ℕ) (pc : Pc) : EventLoop :=
  { w with threads := Function.update w.threads thread pc }

/-- One step of `loop()`; poll returns `active`. -/
def loop (active : List Active) : Option EventLoop :=
  match w.phase with
  | .starting => some { w with quit := false, phase := .testing }
  | .testing =>
    if w.mutex then none
    else if w.quit then some { w with phase := .returned }
    else some { w with phase := .polling }
  | .polling => some { w with activeChannels := active, phase := .handling }
  | .handling =>
    match w.activeChannels with
    | .wakeup::channels => some { w.handleRead with activeChannels := channels }
    | .other::channels => some { w with activeChannels := channels }
    | [] => some { w with callingPendingFunctors := true, phase := .swapping }
  | .swapping => if w.mutex then none else some { w with work := w.work.swap, phase := .calling }
  | .calling =>
    match w.work.next with
    | some (_,work) => some { w with work }
    | none => some { w with callingPendingFunctors := false, phase := .testing }
  | .returned => none

/-- The loop thread makes its calls in handlers and in functors. -/
def Calls (thread : ℕ) : Prop :=
  w.threads thread = .idle ∧ (thread = 0 → w.phase = .handling ∨ w.phase = .calling)

instance (thread : ℕ) : Decidable (w.Calls thread) := inferInstanceAs (Decidable (_ ∧ _))

/-- The critical section of `queueInLoop`. -/
def queueInLoop (thread : ℕ) : Option EventLoop :=
  if w.mutex then none
  else
    let functor := w.work.history.length
    some ({ w with work := w.work.push functor }.setThread thread (.pushed functor))

/-- The rest of a call: the wakeup and the return of `queueInLoop`; the lock and the store
of `quit`; its wakeup, unlock and return. -/
def advance (thread : ℕ) : Option EventLoop :=
  match w.threads thread with
  | .idle => none
  | .pushed functor =>
    let w := if thread ≠ 0 ∨ w.callingPendingFunctors then w.wakeup else w
    let w := if w.quitCalled then w else { w with accepted := w.accepted++[functor] }
    some (w.setThread thread .idle)
  | .quitting =>
    if w.mutex then none
    else some ({ w with quit := true, mutex := true, quitStored := true }.setThread thread .stored)
  | .stored =>
    let w := if thread ≠ 0 then w.wakeup else w
    some ({ w with mutex := false }.setThread thread .idle)

def step : Label → Option EventLoop
  | .loop active => if w.threads 0 = .idle then w.loop active else none
  | .queueInLoop thread => if w.Calls thread then w.queueInLoop thread else none
  | .quit thread =>
    if w.Calls thread then some ({ w with quitCalled := true }.setThread thread .quitting) else none
  | .advance thread => w.advance thread

end EventLoop
end GgLib
