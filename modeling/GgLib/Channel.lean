import Mathlib.Data.List.Basic
import Mathlib.Tactic.Common

/-! `Channel`: the interest of a file descriptor and the dispatch of what poll reported. -/
namespace GgLib

namespace Channel

/-- The event bits of `poll.h`. -/
def POLLIN : BitVec 32 := 0x1#32
def POLLPRI : BitVec 32 := 0x2#32
def POLLOUT : BitVec 32 := 0x4#32
def POLLERR : BitVec 32 := 0x8#32
def POLLHUP : BitVec 32 := 0x10#32
def POLLNVAL : BitVec 32 := 0x20#32
def POLLRDHUP : BitVec 32 := 0x2000#32

def kNoneEvent : BitVec 32 := 0#32
def kReadEvent : BitVec 32 := POLLIN ||| POLLPRI
def kWriteEvent : BitVec 32 := POLLOUT

end Channel

structure Channel where
  events : BitVec 32
  /-- The poller knows the channel. -/
  addedToLoop : Bool
  deriving DecidableEq, Repr

namespace Channel

def create : Channel := ⟨kNoneEvent,false⟩

def isNoneEvent (ch : Channel) : Bool := decide (ch.events = kNoneEvent)
def isWriting (ch : Channel) : Bool := decide (ch.events &&& kWriteEvent ≠ 0#32)
def isReading (ch : Channel) : Bool := decide (ch.events &&& kReadEvent ≠ 0#32)

def update (ch : Channel) (events : BitVec 32) : Channel := { ch with events, addedToLoop := true }

def enableReading (ch : Channel) : Channel := ch.update (ch.events ||| kReadEvent)
def disableReading (ch : Channel) : Channel := ch.update (ch.events &&& ~~~kReadEvent)
def enableWriting (ch : Channel) : Channel := ch.update (ch.events ||| kWriteEvent)
def disableWriting (ch : Channel) : Channel := ch.update (ch.events &&& ~~~kWriteEvent)
def disableAll (ch : Channel) : Channel := ch.update kNoneEvent
def remove (ch : Channel) : Channel := { ch with addedToLoop := false }

inductive Callback
  | close | error | read | write
  deriving DecidableEq, Repr

def has (revents mask : BitVec 32) : Bool := decide (revents &&& mask ≠ 0#32)

/-- The callbacks `handleEventWithGuard` makes, fixed by `revents_` before the first one. -/
def handleEventWithGuard (revents : BitVec 32) : List Callback :=
  (if has revents POLLHUP && !has revents POLLIN then [.close] else [])++
    (if has revents (POLLERR ||| POLLNVAL) then [.error] else [])++
    (if has revents (POLLIN ||| POLLPRI ||| POLLRDHUP) then [.read] else [])++
    (if has revents POLLOUT then [.write] else [])

@[simp] theorem isWriting_enableReading (ch : Channel) : ch.enableReading.isWriting = ch.isWriting := by
  have hmask : kReadEvent &&& kWriteEvent = 0#32 := by decide
  simp [enableReading,isWriting,update,BitVec.and_or_distrib_right,hmask]

@[simp] theorem isWriting_disableReading (ch : Channel) : ch.disableReading.isWriting = ch.isWriting := by
  have hmask : ~~~kReadEvent &&& kWriteEvent = kWriteEvent := by decide
  simp [disableReading,isWriting,update,BitVec.and_assoc,hmask]

@[simp] theorem isWriting_enableWriting (ch : Channel) : ch.enableWriting.isWriting = true := by
  have hne : (ch.events ||| kWriteEvent) &&& kWriteEvent ≠ 0#32 := by
    intro h
    have h₂ := congrArg (BitVec.getLsbD · 2) h
    simp [kWriteEvent,POLLOUT] at h₂
  exact decide_eq_true hne

@[simp] theorem isWriting_disableWriting (ch : Channel) : ch.disableWriting.isWriting = false := by
  have hmask : ~~~kWriteEvent &&& kWriteEvent = 0#32 := by decide
  simp [disableWriting,isWriting,update,BitVec.and_assoc,hmask]

@[simp] theorem isReading_enableWriting (ch : Channel) : ch.enableWriting.isReading = ch.isReading := by
  have hmask : kWriteEvent &&& kReadEvent = 0#32 := by decide
  simp [enableWriting,isReading,update,BitVec.and_or_distrib_right,hmask]

@[simp] theorem isReading_disableWriting (ch : Channel) : ch.disableWriting.isReading = ch.isReading := by
  have hmask : ~~~kWriteEvent &&& kReadEvent = kReadEvent := by decide
  simp [disableWriting,isReading,update,BitVec.and_assoc,hmask]

@[simp] theorem isReading_enableReading (ch : Channel) : ch.enableReading.isReading = true := by
  have hne : (ch.events ||| kReadEvent) &&& kReadEvent ≠ 0#32 := by
    intro h
    have h₀ := congrArg (BitVec.getLsbD · 0) h
    simp [kReadEvent,POLLIN,POLLPRI] at h₀
  exact decide_eq_true hne

@[simp] theorem isReading_disableReading (ch : Channel) : ch.disableReading.isReading = false := by
  have hmask : ~~~kReadEvent &&& kReadEvent = 0#32 := by decide
  simp [disableReading,isReading,update,BitVec.and_assoc,hmask]

end Channel
end GgLib
