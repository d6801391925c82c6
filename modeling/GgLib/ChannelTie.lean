import GgLib.Channel
import GgLib.StrongCount

/-!
# A tied channel in the middle of a dispatch

`handleEvent` asks whether the tied owner is alive and takes no reference of its own, so the owner lives
through the dispatch exactly when what the callbacks do with their references lets it.
-/

namespace GgLib
namespace ChannelTie

open StrongCount
open Channel (Callback has POLLIN POLLPRI POLLOUT POLLERR POLLHUP POLLNVAL POLLRDHUP)

/-- What `handleEventWithGuard` does to the channel, and what its callbacks do to the strong count. -/
inductive Act
  | eventHandling (handling : Bool)
  | trace
  | test (mask : BitVec 32)
  | isSet (cb : Callback)
  | callback (cb : Callback)
  | ref (op : RefOp)
  deriving DecidableEq, Repr

def Act.ref? : Act → Option RefOp
  | .ref op => some op
  | _ => none

/-- A callback that is not set is none. -/
abbrev Callbacks := Callback → Option (List RefOp)

def call (callbacks : Callbacks) (cb : Callback) : List Act :=
  .isSet cb::match callbacks cb with
    | none => []
    | some ops => .callback cb::ops.map .ref

def handleEventWithGuard (revents : BitVec 32) (callbacks : Callbacks) : List Act :=
  [.eventHandling true,.trace,.test POLLHUP]++
    (if has revents POLLHUP && !has revents POLLIN then call callbacks .close else [])++
    [.test POLLNVAL,.test (POLLERR ||| POLLNVAL)]++
    (if has revents (POLLERR ||| POLLNVAL) then call callbacks .error else [])++
    [.test (POLLIN ||| POLLPRI ||| POLLRDHUP)]++
    (if has revents (POLLIN ||| POLLPRI ||| POLLRDHUP) then call callbacks .read else [])++
    [.test POLLOUT]++
    (if has revents POLLOUT then call callbacks .write else [])++
    [.eventHandling false]

/-- `tie_.use_count()` is `strong` when `handleEvent` is called: each act with the count it leaves. -/
def handleEvent (tied : Bool) (strong : ℕ) (revents : BitVec 32) (callbacks : Callbacks) : List (Act × ℕ) :=
  if tied then
    if strong > 0 then trace Act.ref? strong (handleEventWithGuard revents callbacks) else []
  else trace Act.ref? strong (handleEventWithGuard revents callbacks)

/-- The count never falls below one: everything that runs, runs on a living owner. -/
def Kept (run : List (Act × ℕ)) : Prop := ∀ m ∈ run, 1 ≤ m.2

instance (run : List (Act × ℕ)) : Decidable (Kept run) := inferInstanceAs (Decidable (∀ m ∈ run, 1 ≤ m.2))

theorem filterMap_call (callbacks : Callbacks) (cb : Callback) :
    (call callbacks cb).filterMap Act.ref? = (callbacks cb).getD [] := by
  unfold call
  cases callbacks cb with
  | none => rfl
  | some ops =>
    have hcomp : Act.ref? ∘ Act.ref = some := rfl
    show (ops.map Act.ref).filterMap Act.ref? = ops
    rw [List.filterMap_map,hcomp,List.filterMap_some]

/-- The script of a dispatch: the scripts of the callbacks that are set, one after another. -/
theorem filterMap_handleEventWithGuard (revents : BitVec 32) (callbacks : Callbacks) :
    (handleEventWithGuard revents callbacks).filterMap Act.ref? =
      ((Channel.handleEventWithGuard revents).filterMap callbacks).flatten := by
  have hpart : ∀ (c : Bool) (cb : Callback),
      (if c then call callbacks cb else []).filterMap Act.ref? =
        ((if c then [cb] else []).filterMap callbacks).flatten := by
    intro c cb
    cases c
    · rfl
    · cases hcb : callbacks cb with
      | none => simp [filterMap_call,hcb]
      | some ops => simp [filterMap_call,hcb]
  unfold handleEventWithGuard Channel.handleEventWithGuard
  simp only [List.filterMap_append,List.flatten_append,hpart]
  simp [List.filterMap_cons,Act.ref?]

theorem handleEvent_of_pos {strong : ℕ} (hpos : 0 < strong) (revents : BitVec 32) (callbacks : Callbacks) :
    handleEvent true strong revents callbacks = trace Act.ref? strong (handleEventWithGuard revents callbacks) := by
  simp [handleEvent,hpos]

/-- The owner lives through the dispatch if and only if it was gone before, or each callback that these events
call is met with more references than it gives up at its lowest point. -/
theorem handleEvent_kept_iff (strong : ℕ) (revents : BitVec 32) (callbacks : Callbacks) :
    Kept (handleEvent true strong revents callbacks) ↔
      strong = 0 ∨ ∀ before ops after,
        (Channel.handleEventWithGuard revents).filterMap callbacks = before++ops::after →
          (deficit ops : ℤ) < strong+balance before.flatten := by
  rcases Nat.eq_zero_or_pos strong with rfl | hpos
  · simp [handleEvent,Kept]
  · have hne : strong ≠ 0 := by omega
    rw [handleEvent_of_pos hpos,← deficit_flatten_lt_iff _ hpos,← filterMap_handleEventWithGuard]
    simp only [hne,false_or]
    exact trace_pos_iff Act.ref? _ hpos

/-- When the owner is lost, the end of the dispatch writes `eventHandling_` of a destroyed channel. -/
theorem lost_eventHandling {strong : ℕ} {revents : BitVec 32} {callbacks : Callbacks}
    (h : ¬Kept (handleEvent true strong revents callbacks)) :
    (.eventHandling false,0) ∈ handleEvent true strong revents callbacks := by
  rcases Nat.eq_zero_or_pos strong with rfl | hpos
  · simp [handleEvent,Kept] at h
  · rw [handleEvent_of_pos hpos] at h ⊢
    simp only [Kept,not_forall] at h
    obtain ⟨m,hm,hzero⟩ := h
    exact trace_lost Act.ref? rfl ⟨m,hm,by omega⟩

/-! ## The channel of a `TcpConnection` -/

structure Connection where
  /-- What the user's callbacks do with their references to the connection. -/
  connectionCallback : List RefOp
  messageCallback : List RefOp
  closeCallback : List RefOp
  /-- What `readFd` returns. -/
  received : ℤ
  /-- `handleWrite` empties the buffer and a write complete callback is set. -/
  completes : Bool
  deriving DecidableEq, Repr

namespace Connection

/-- `guardThis`. -/
def handleClose (c : Connection) : List RefOp :=
  .acquire::(c.connectionCallback++c.closeCallback)++[.release]

/-- `shared_from_this()` is a temporary of the call. -/
def handleRead (c : Connection) : List RefOp :=
  if 0 < c.received then .acquire::c.messageCallback++[.release]
  else if c.received = 0 then c.handleClose
  else []

/-- The functor left in the loop holds a reference. -/
def handleWrite (c : Connection) : List RefOp := if c.completes then [.acquire] else []

def handleError (_ : Connection) : List RefOp := []

def callbacks (c : Connection) : Callbacks
  | .close => some c.handleClose
  | .error => some c.handleError
  | .read => some c.handleRead
  | .write => some c.handleWrite

end Connection

/-- `TcpServer::removeConnection` in the loop of the connection: the functor that is run at once, the entry
of the map and the functor that is left. -/
def removeConnection : List RefOp := [.acquire,.release,.acquire,.release]

/-- `TcpServer::~TcpServer` in the loop of a connected connection: `conn`, the entry of the map, the functor
that is run at once and in it the argument of the connection callback. -/
def destroyServer (connectionCallback : List RefOp) : List RefOp :=
  [.acquire,.release,.acquire,.acquire]++connectionCallback++[.release,.release,.release]

/-- The message callback destroys the server, which holds the only reference to the connection. -/
theorem handleEvent_not_kept :
    ¬Kept (handleEvent true 1 POLLIN (Connection.callbacks ⟨[],destroyServer [],removeConnection,5,false⟩)) := by
  decide

/-- A message is dispatched safely if and only if the message callback leaves a reference outside. -/
theorem read_kept_iff (c : Connection) {strong : ℕ} (hpos : 0 < strong) (hread : 0 < c.received)
    (hheld : deficit c.messageCallback ≤ strong) :
    Kept (handleEvent true strong POLLIN c.callbacks) ↔ 0 < strong+balance c.messageCallback := by
  have hcalled : (Channel.handleEventWithGuard POLLIN).filterMap c.callbacks =
      [.acquire::c.messageCallback++[.release]] := by
    have hlist : Channel.handleEventWithGuard POLLIN = [.read] := by decide
    rw [hlist]
    simp [Connection.callbacks,Connection.handleRead,hread]
  rw [handleEvent_of_pos hpos]
  refine (trace_pos_iff Act.ref? _ hpos).trans ?_
  rw [filterMap_handleEventWithGuard,hcalled,List.flatten_singleton]
  exact deficit_held_lt_iff hpos hheld

theorem balance_destroyServer (connectionCallback : List RefOp) :
    balance (destroyServer connectionCallback) = balance connectionCallback-1 := by
  simp only [destroyServer,balance_append,balance]
  omega

/-- A message callback that destroys the server needs another reference than the server's, or one that the
connection callback takes. -/
theorem read_destroyServer_kept_iff (c : Connection) {strong : ℕ} (hpos : 0 < strong) (hread : 0 < c.received)
    (hmessage : c.messageCallback = destroyServer c.connectionCallback)
    (hheld : deficit (destroyServer c.connectionCallback) ≤ strong) :
    Kept (handleEvent true strong POLLIN c.callbacks) ↔ 1 < strong+balance c.connectionCallback := by
  rw [read_kept_iff c hpos hread (hmessage ▸ hheld),hmessage,balance_destroyServer]
  omega

end ChannelTie
end GgLib
