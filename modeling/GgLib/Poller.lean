import GgLib.Channel
import GgLib.LabelledSystem
import Mathlib.Logic.Function.Basic
import Mathlib.Data.Int.Notation
import Mathlib.Data.Set.Defs

/-! The two pollers, each with the `index_` it gives to the channels. Channels have distinct
file descriptors, so a channel is named by its own. A failed assertion ends the process. -/
namespace GgLib

/-- `EPollPoller`, and the set of the kernel behind `epollfd_`. -/
structure EPollPoller where
  index : ℕ → ℤ
  channels : ℕ → Bool
  kernel : ℕ → Option (BitVec 32)

namespace EPollPoller

def kNew : ℤ := -1
def kAdded : ℤ := 1
def kDeleted : ℤ := 2

def create : EPollPoller := ⟨fun _ => -1,fun _ => false,fun _ => none⟩

inductive Operation
  | add | mod | del
  deriving DecidableEq, Repr

/-- `update`: `epoll_ctl` with `EEXIST` for what is in the set and `ENOENT` for what is not.
Both are fatal, except that a failed `EPOLL_CTL_DEL` is logged only. -/
def update (p : EPollPoller) (operation : Operation) (fd : ℕ) (events : BitVec 32) : Option EPollPoller :=
  match operation with
  | .add => if (p.kernel fd).isNone then some { p with kernel := Function.update p.kernel fd (some events) } else none
  | .mod => if (p.kernel fd).isSome then some { p with kernel := Function.update p.kernel fd (some events) } else none
  | .del => some { p with kernel := Function.update p.kernel fd none }

def setIndex (p : EPollPoller) (fd : ℕ) (index : ℤ) : EPollPoller :=
  { p with index := Function.update p.index fd index }

def updateChannel (p : EPollPoller) (fd : ℕ) (events : BitVec 32) : Option EPollPoller :=
  if p.index fd = kNew ∨ p.index fd = kDeleted then
    if p.index fd = kNew then
      if p.channels fd then none
      else ({ p with channels := Function.update p.channels fd true }.setIndex fd kAdded).update .add fd events
    else if p.channels fd then (p.setIndex fd kAdded).update .add fd events
    else none
  else if p.channels fd ∧ p.index fd = kAdded then
    if events = Channel.kNoneEvent then (p.update .del fd events).map (·.setIndex fd kDeleted)
    else p.update .mod fd events
  else none

def removeChannel (p : EPollPoller) (fd : ℕ) (events : BitVec 32) : Option EPollPoller :=
  if p.channels fd ∧ events = Channel.kNoneEvent ∧ (p.index fd = kAdded ∨ p.index fd = kDeleted) then
    let p' := { p with channels := Function.update p.channels fd false }
    if p.index fd = kAdded then (p'.update .del fd events).map (·.setIndex fd kNew)
    else some (p'.setIndex fd kNew)
  else none

/-- What the kernel watches. -/
def watched (p : EPollPoller) : Set (ℕ × BitVec 32) := { x | p.kernel x.1 = some x.2 }

end EPollPoller

/-- `struct pollfd`. -/
structure PollFd where
  fd : ℤ
  events : BitVec 16
  revents : BitVec 16
  deriving DecidableEq, Repr

structure PollPoller where
  index : ℕ → ℤ
  channels : ℕ → Bool
  pollfds : List PollFd

namespace PollPoller

def create : PollPoller := ⟨fun _ => -1,fun _ => false,[]⟩

def updateChannel (p : PollPoller) (fd : ℕ) (events : BitVec 32) : Option PollPoller :=
  if p.index fd < 0 then
    if p.channels fd then none
    else
      some
        { pollfds := p.pollfds++[⟨fd,events.setWidth 16,0⟩]
          index := Function.update p.index fd p.pollfds.length
          channels := Function.update p.channels fd true }
  else if p.channels fd then
    let idx := (p.index fd).toNat
    match p.pollfds[idx]? with
    | some pfd =>
      if pfd.fd = fd ∨ pfd.fd = -fd-1 then
        let pfd : PollFd := ⟨fd,events.setWidth 16,0⟩
        some
          { p with
            pollfds := p.pollfds.set idx (if events = Channel.kNoneEvent then { pfd with fd := -fd-1 } else pfd) }
      else none
    | none => none
  else none

/-- The `index_` of the removed channel stays as it is. -/
def removeChannel (p : PollPoller) (fd : ℕ) (events : BitVec 32) : Option PollPoller :=
  if p.channels fd ∧ events = Channel.kNoneEvent ∧ 0 ≤ p.index fd then
    let idx := (p.index fd).toNat
    match p.pollfds[idx]?, p.pollfds.getLast? with
    | some pfd, some back =>
      if pfd.fd = -fd-1 ∧ pfd.events.signExtend 32 = events then
        let channels := Function.update p.channels fd false
        if idx ≠ p.pollfds.length-1 then
          let channelAtEnd := (if back.fd < 0 then -back.fd-1 else back.fd).toNat
          if channels channelAtEnd then
            some
              { channels
                index := Function.update p.index channelAtEnd idx
                pollfds := ((p.pollfds.set idx back).set (p.pollfds.length-1) pfd).dropLast }
          else none
        else some { p with channels, pollfds := p.pollfds.dropLast }
      else none
    | _, _ => none
  else none

/-- What `removeChannel` does behind its assertions, which a build with `NDEBUG` does not check.
No entry at the index, or no channel for the last one, is undefined. -/
def eraseEntry (p : PollPoller) (fd : ℕ) : Option PollPoller :=
  if 0 ≤ p.index fd then
    let idx := (p.index fd).toNat
    match p.pollfds[idx]?, p.pollfds.getLast? with
    | some pfd, some back =>
      let channels := Function.update p.channels fd false
      if idx ≠ p.pollfds.length-1 then
        let channelAtEnd := (if back.fd < 0 then -back.fd-1 else back.fd).toNat
        if channels channelAtEnd then
          some
            { channels
              index := Function.update p.index channelAtEnd idx
              pollfds := ((p.pollfds.set idx back).set (p.pollfds.length-1) pfd).dropLast }
        else none
      else some { p with channels, pollfds := p.pollfds.dropLast }
    | _, _ => none
  else none

/-- What is handed to `poll`: it ignores the negative entries. -/
def watched (p : PollPoller) : Set (ℕ × BitVec 32) :=
  { x | ∃ pfd ∈ p.pollfds, pfd.fd = x.1 ∧ pfd.events.signExtend 32 = x.2 }

end PollPoller

/-- The same channels with either poller; `removed` are those on which `remove` was called. -/
structure Pollers where
  channels : ℕ → Channel
  removed : ℕ → Bool
  epoll : EPollPoller
  poll : PollPoller

namespace Pollers

inductive Interest
  | enableReading | disableReading | enableWriting | disableWriting | disableAll
  deriving DecidableEq, Repr

def Interest.apply (ch : Channel) : Interest → Channel
  | .enableReading => ch.enableReading
  | .disableReading => ch.disableReading
  | .enableWriting => ch.enableWriting
  | .disableWriting => ch.disableWriting
  | .disableAll => ch.disableAll

inductive Call
  | update (fd : ℕ) (interest : Interest)
  | remove (fd : ℕ)
  deriving DecidableEq, Repr

def create : Pollers := ⟨fun _ => .create,fun _ => false,.create,.create⟩

/-- A call on a channel, which ends the process if one of the pollers does. -/
def step (s : Pollers) : Call → Option Pollers
  | .update fd interest =>
    let ch := interest.apply (s.channels fd)
    match s.epoll.updateChannel fd ch.events, s.poll.updateChannel fd ch.events with
    | some epoll, some poll => some { s with channels := Function.update s.channels fd ch, epoll, poll }
    | _, _ => none
  | .remove fd =>
    let ch := s.channels fd
    if ch.isNoneEvent then
      match s.epoll.removeChannel fd ch.events, s.poll.removeChannel fd ch.events with
      | some epoll, some poll =>
        some
          { channels := Function.update s.channels fd ch.remove
            removed := Function.update s.removed fd true
            epoll
            poll }
      | _, _ => none
    else none

end Pollers
end GgLib
