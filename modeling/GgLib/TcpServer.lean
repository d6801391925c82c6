import GgLib.ConnectionRecord
import Mathlib.Data.Int.Notation

/-! `TcpServer` with any number of loops, which run the methods of its connections and pass
them on through their queues of functors. Loop 0 is the loop of the server; a connection is
the number of its construction. A step is a turn of one loop, or a store or a push of a
thread that calls a connection. Assertions and log statements are left out. -/
namespace GgLib

structure EventLoopThreadPool where
  loops : List ℕ
  next : ℕ
  inRange : loops ≠ [] → next < loops.length

def EventLoopThreadPool.getNextLoop (p : EventLoopThreadPool) : ℕ × EventLoopThreadPool :=
  if h : p.loops = [] then (0,p)
  else
    (p.loops.get ⟨p.next,p.inRange h⟩,
      { p with
        next := if p.loops.length ≤ p.next+1 then 0 else p.next+1
        inRange := fun hne => by
          have hpos := List.length_pos_of_ne_nil hne
          split <;> omega })

namespace TcpServer

/-- A `TcpConnection` with its `name()` and its `getLoop()`. -/
structure Conn where
  name : List Char
  loop : ℕ
  conn : TcpConnection
  deriving DecidableEq, Repr

/-- Nobody but the server has the connection before `connectionCallback_` hands it out. -/
def Conn.HandedOut (c : Conn) : Prop := .connectionCallback ∈ c.conn.trace

instance (c : Conn) : Decidable c.HandedOut := inferInstanceAs (Decidable (_ ∈ c.conn.trace))

inductive Functor
  | connectEstablished (i : ℕ)
  | removeConnectionInLoop (i : ℕ)
  | conn (i : ℕ) (f : TcpConnection.Functor)
  deriving DecidableEq, Repr

/-- What is recorded; `n` is what `connections_.erase` returned. -/
inductive Event
  | connectEstablished (i : ℕ)
  | removeConnectionInLoop (i n : ℕ)
  | connectDestroyed (i loop : ℕ)
  deriving DecidableEq, Repr

/-- `dispatch` is `Channel::handleEvent` of a connection, `timer` one of its timers. In `call` a
callback calls a connection on its own loop; `setState` and `queueInLoop` are what a call on
another thread does. -/
inductive Label
  | newConnection
  | dispatch (i : ℕ) (revents : BitVec 32)
  | timer (i k : ℕ)
  | functor (loop : ℕ)
  | task (loop : ℕ) (e : Choice)
  | call (i : ℕ) (a : TcpConnection.Action)
  | setState (i : ℕ)
  | queueInLoop (i : ℕ) (f : TcpConnection.Functor)
  deriving DecidableEq, Repr

def formatInt (n : ℤ) : List Char := (if n < 0 then ['-'] else [])++Nat.toDigits 10 n.natAbs

end TcpServer

structure TcpServer where
  ipPort : List Char
  name : List Char
  threadPool : EventLoopThreadPool
  writeCompleteCallback : Option TcpConnection.WriteCompleteCallback
  nextConnId : BitVec 32
  connections : List Char → Option ℕ

namespace TcpServer

/-- The name of a connection, of the format "{}-{}#{}". -/
def connName (s : TcpServer) (connId : BitVec 32) : List Char :=
  s.name++['-']++s.ipPort++['#']++formatInt connId.toInt

/-- `queue` are the functors of each loop that have not run, in the order of their push, and
`todo` is what the method that runs on a loop goes on to. -/
structure World where
  server : TcpServer
  conns : List Conn
  queue : ℕ → List Functor
  todo : ℕ → List (ℕ × TcpConnection.Task)
  history : List Event

namespace World

def initial (ipPort name : List Char) (threadPool : EventLoopThreadPool)
    (writeCompleteCallback : Option TcpConnection.WriteCompleteCallback) : World :=
  ⟨⟨ipPort,name,threadPool,writeCompleteCallback,1,fun _ => none⟩,[],fun _ => [],fun _ => [],[]⟩

variable (http : Option HttpServer) (w : World)

def record (ev : Event) : World := { w with history := w.history++[ev] }

def queueInLoop (loop : ℕ) (f : Functor) : World :=
  { w with queue := Function.update w.queue loop (w.queue loop++[f]) }

def setTodo (loop : ℕ) (tasks : List (ℕ × TcpConnection.Task)) : World :=
  { w with todo := Function.update w.todo loop tasks }

/-- A method of a connection has run on its loop. -/
def store (i : ℕ) (c : Conn) (p : TcpConnection × List TcpConnection.Task) : World :=
  { w with
    conns := w.conns.set i { c with conn := { p.1 with pendingFunctors := [] } }
    queue := Function.update w.queue c.loop (w.queue c.loop++p.1.pendingFunctors.map (.conn i))
    todo := Function.update w.todo c.loop (p.2.map (Prod.mk i)++w.todo c.loop) }

def connectEstablished (i : ℕ) (c : Conn) : World :=
  (w.store i c c.conn.connectEstablished).record (.connectEstablished i)

def newConnection : World :=
  let (ioLoop,threadPool) := w.server.threadPool.getNextLoop
  let connName := w.server.connName w.server.nextConnId
  let i := w.conns.length
  let conn : Conn := ⟨connName,ioLoop,.create none (8*1024*1024) w.server.writeCompleteCallback⟩
  let w : World :=
    { w with
      server :=
        { w.server with
          threadPool
          nextConnId := w.server.nextConnId+1
          connections := Function.update w.server.connections connName (some i) }
      conns := w.conns++[conn] }
  if ioLoop = 0 then w.connectEstablished i conn else w.queueInLoop ioLoop (.connectEstablished i)

def removeConnectionInLoop (i : ℕ) (c : Conn) : World :=
  let n := if (w.server.connections c.name).isSome then 1 else 0
  let server := { w.server with connections := Function.update w.server.connections c.name none }
  (({ w with server } : World).queueInLoop c.loop (.conn i .connectDestroyed)).record
    (.removeConnectionInLoop i n)

/-- `closeCallback_`, on the loop of the connection. -/
def removeConnection (i : ℕ) (c : Conn) : World :=
  if c.loop = 0 then w.removeConnectionInLoop i c else w.queueInLoop 0 (.removeConnectionInLoop i)

def runFunctor (loop : ℕ) : Functor → Option World
  | .connectEstablished i => w.conns[i]?.map (w.connectEstablished i)
  | .removeConnectionInLoop i => w.conns[i]?.map (w.removeConnectionInLoop i)
  | .conn i f => w.conns[i]?.map fun _ => w.setTodo loop [(i,.functor f)]

/-- Callbacks do not call `connectDestroyed`, which is the server's. -/
def runTask (loop i : ℕ) (t : TcpConnection.Task) (e : Choice) (c : Conn) : Option World :=
  if t = .closeCallback then some (w.removeConnection i c)
  else if .connectDestroyed ∈ e.acts then none
  else
    (c.conn.run http e t).map fun p =>
      let w := w.store i c p
      if t.destroys then w.record (.connectDestroyed i loop) else w

def step : Label → Option World
  | .newConnection => if w.todo 0 = [] then some w.newConnection else none
  | .dispatch i revents =>
    w.conns[i]?.bind fun c =>
      if w.todo c.loop = [] ∧ c.conn.channel.addedToLoop then
        some (w.setTodo c.loop ((Channel.handleEventWithGuard revents).map fun cb => (i,.callback cb)))
      else none
  | .timer i k =>
    w.conns[i]?.bind fun c =>
      if w.todo c.loop = [] ∧ k < c.conn.timers.length then some (w.setTodo c.loop [(i,.timer k)]) else none
  | .functor loop =>
    match w.todo loop, w.queue loop with
    | [], f::fs => runFunctor { w with queue := Function.update w.queue loop fs } loop f
    | _, _ => none
  | .task loop e =>
    match w.todo loop with
    | (i,t)::ts => w.conns[i]?.bind ((w.setTodo loop ts).runTask http loop i t e)
    | [] => none
  | .call i a =>
    w.conns[i]?.bind fun c =>
      if c.HandedOut ∧ a ≠ .connectDestroyed then some (w.setTodo c.loop ((i,.call a)::w.todo c.loop)) else none
  | .setState i =>
    w.conns[i]?.bind fun c =>
      if c.HandedOut then some { w with conns := w.conns.set i { c with conn := c.conn.setState .kDisconnecting } }
      else none
  | .queueInLoop i f =>
    w.conns[i]?.bind fun c =>
      if c.HandedOut ∧ f ≠ .connectDestroyed then some (w.queueInLoop c.loop (.conn i f)) else none

end World
end TcpServer
end GgLib
