import GgLib.TcpConnection
import GgLib.LabelledSystem
import Mathlib.Logic.Function.Basic

/-! One connection on the thread of its `EventLoop`, and other threads that call it.
A step of the loop thread is one method of the connection or one turn of
`EventLoop::loop`; what such a method calls next stands in `todo`. A step of another
thread is one load or store of `state_` or one push into `pendingFunctors_`. -/
namespace GgLib

open TcpConnection

/-- An entry of `activeChannels_`: the connection's channel with its `revents_`, a timer
that the timer channel runs, or any other channel. -/
inductive Active
  | conn (revents : BitVec 32)
  | timer (i : ℕ)
  | other
  deriving DecidableEq, Repr

def Active.isConn : Active → Bool
  | .conn _ => true
  | _ => false

/-- What `Channel::handleEvent` calls. -/
def Active.tasks : Active → List Task
  | .conn revents => (Channel.handleEventWithGuard revents).map .callback
  | .timer i => [.timer i]
  | .other => [.other]

/-- What the outside decides in one step of the loop thread: the results of system calls
and of poll, what code that is not in the repository calls, and whether the server's own
loop is this one. -/
structure Choice where
  write : WriteResult := .wrote 0
  read : ReadResult := .failed
  acts : List Action := []
  active : List Active := []
  serverLoop : Bool := true
  deriving DecidableEq, Repr

namespace TcpConnection

variable (server : Option HttpServer) (c : TcpConnection)

/-- `messageCallback_`: that of an `HttpServer` or any other. An exception ends the process. -/
def runMessageCallback (e : Choice) : Option (TcpConnection × List Task) :=
  match server with
  | none => some (c,e.acts.map .call)
  | some server =>
    match c.context with
    | none => none
    | some context =>
      match server.onMessage c.answered context c.inputBuffer with
      | some (.ok x) =>
        some ({ c with context := some x.context, inputBuffer := x.buf, answered := c.answered+x.handled.length },
          .call (.send x.outBuf)::if x.needClose then [.call .forceClose] else [])
      | _ => none

/-- `connectionCallback_`: `HttpServer::onConnection` or any other. -/
def runConnectionCallback (e : Choice) : TcpConnection × List Task :=
  match server with
  | none => (c,e.acts.map .call)
  | some _ =>
    let c := if c.state = .kConnected then { c with context := some HttpContext.fresh } else c
    (c.setHighWaterMarkCallback (some .optionalHighWaterMarkCallback) (256*1024),[])

def runFunctor (e : Choice) : Functor → TcpConnection × List Task
  | .sendInLoop thread message => (c.sendInLoop thread message e.write,[])
  | .shutdownInLoop => (c.shutdownInLoop,[])
  | .shutdownAndForceCloseInLoop => (c.shutdownAndForceCloseInLoop,[])
  | .forceCloseInLoop => c.forceCloseInLoop
  | .startReadInLoop => (c.startReadInLoop,[])
  | .stopReadInLoop => (c.stopReadInLoop,[])
  | .addTimer cb => (c.runAfter cb,[])
  | .writeComplete .optionalDoneHighWaterMarkCallback => (c.optionalDoneHighWaterMarkCallback,[])
  | .writeComplete .user => (c,e.acts.map .call)
  | .highWaterMark .optionalHighWaterMarkCallback _ => (c.optionalHighWaterMarkCallback,[])
  | .highWaterMark .user _ => (c,e.acts.map .call)
  | .connectDestroyed => c.connectDestroyed
  | .user => (c,e.acts.map .call)

def runTimer (i : ℕ) : TcpConnection × List Task :=
  let c' : TcpConnection := { c with timers := c.timers.eraseIdx i }
  match c.timers[i]? with
  | some .forceCloseInLoop => c'.forceCloseInLoop
  | some .forceClose => (c'.forceClose,[])
  | none => (c,[])

/-- The connection after a task, and what the task calls next. -/
def run (e : Choice) : Task → Option (TcpConnection × List Task)
  | .callback .close => some c.handleClose
  | .callback .error => some (c,[])
  | .callback .read => some (c.handleRead e.read)
  | .callback .write => some (c.handleWrite e.write)
  | .finishWrite => some (c.finishWrite,[])
  | .messageCallback => runMessageCallback server c e
  | .connectionCallback => some (runConnectionCallback server c e)
  | .closeCallback => some (if e.serverLoop then c.queueInLoop .connectDestroyed else c,[])
  | .removeChannel => some (({ c with channel := c.channel.remove } : TcpConnection).record .remove,[])
  | .call a => some (c.call e.write a)
  | .functor f => some (c.runFunctor e f)
  | .timer i => some (c.runTimer i)
  | .other => some (c,e.acts.map .call)

def functorsIn (todo : List Task) : List Functor :=
  todo.filterMap fun
    | .functor f => some f
    | _ => none

@[simp] theorem functorsIn_nil : functorsIn [] = [] := rfl
@[simp] theorem functorsIn_append (ts us : List Task) :
    functorsIn (ts++us) = functorsIn ts++functorsIn us := List.filterMap_append
@[simp] theorem functorsIn_functor (f : Functor) (ts : List Task) :
    functorsIn (.functor f::ts) = f::functorsIn ts := rfl

@[simp] theorem functorsIn_callbacks (cbs : List Channel.Callback) :
    functorsIn (cbs.map .callback) = [] := by
  induction cbs with
  | nil => rfl
  | cons cb cbs ih => exact ih

theorem runMessageCallback_cases {server : Option HttpServer} {c : TcpConnection} {e : Choice}
    {p : TcpConnection × List Task} (h : runMessageCallback server c e = some p) :
    (server = none ∧ p = (c,e.acts.map .call)) ∨
      ∃ s context x, server = some s ∧ c.context = some context ∧
        s.onMessage c.answered context c.inputBuffer = some (.ok x) ∧
        p = ({ c with context := some x.context, inputBuffer := x.buf, answered := c.answered+x.handled.length },
          .call (.send x.outBuf)::if x.needClose then [.call .forceClose] else []) := by
  cases server with
  | none =>
    cases h
    exact .inl ⟨rfl,rfl⟩
  | some s =>
    cases hc : c.context with
    | none => simp [runMessageCallback,hc] at h
    | some context =>
      cases hx : s.onMessage c.answered context c.inputBuffer with
      | none => simp [runMessageCallback,hc,hx] at h
      | some r =>
        cases r with
        | error err => simp [runMessageCallback,hc,hx] at h
        | ok x =>
          simp only [runMessageCallback,hc,hx,Option.some.injEq] at h
          exact .inr ⟨s,context,x,rfl,rfl,hx,h.symm⟩

/-- The connection is in a state that `forceCloseInLoop` acts on. -/
def live (c : TcpConnection) : Prop := c.state = .kConnected ∨ c.state = .kDisconnecting

/-- When a task calls `handleClose`. -/
def Task.closesNow (c : TcpConnection) (e : Choice) : Task → Prop
  | .callback .close => True
  | .callback .read => e.read = .received []
  | .functor .forceCloseInLoop => c.live
  | .timer i => c.timers[i]? = some .forceCloseInLoop ∧ c.live
  | _ => False

def Task.destroys : Task → Bool
  | .call .connectDestroyed => true
  | .functor .connectDestroyed => true
  | _ => false

def Task.closes (c : TcpConnection) (e : Choice) (t : Task) : Prop :=
  t.closesNow c e ∨ (t.destroys = true ∧ c.state = .kConnected)

def Task.reads (e : Choice) (t : Task) : Prop := t = .callback .read ∧ ∃ bytes, bytes ≠ [] ∧ e.read = .received bytes

/-- What a task may go on to. -/
def Task.leadsTo (c : TcpConnection) (e : Choice) (t : Task) : Task → Prop
  | .finishWrite => t = .callback .write
  | .messageCallback => t.reads e
  | .connectionCallback => t.closes c e
  | .closeCallback => t.closesNow c e
  | .removeChannel => t.destroys = true
  | .call a => a ∈ e.acts ∨ (t = .messageCallback ∧ ((∃ message, a = .send message) ∨ a = .forceClose))
  | .callback _ | .functor _ | .timer _ | .other => False

section leadsTo

variable {c : TcpConnection} {e : Choice} {t : Task}

theorem nil_leadsTo : ∀ t' ∈ ([] : List Task), t.leadsTo c e t' := fun _ ht' => absurd ht' List.not_mem_nil

theorem acts_leadsTo : ∀ t' ∈ e.acts.map Task.call, t.leadsTo c e t' := by
  intro t' ht'
  obtain ⟨a,ha,rfl⟩ := List.mem_map.mp ht'
  exact .inl ha

theorem handleClose_leadsTo (ht : t.closesNow c e) (c' : TcpConnection) :
    ∀ t' ∈ c'.handleClose.2, t.leadsTo c e t' := by
  intro t' ht'
  rcases List.mem_cons.mp ht' with rfl | ht'
  · exact .inl ht
  · rw [List.mem_singleton.mp ht']
    exact ht

theorem forceCloseInLoop_leadsTo {c' : TcpConnection} (ht : c'.live → t.closesNow c e) :
    ∀ t' ∈ c'.forceCloseInLoop.2, t.leadsTo c e t' := by
  rw [forceCloseInLoop]
  split
  · exact handleClose_leadsTo (ht ‹_›) c'
  · exact nil_leadsTo

theorem connectDestroyed_leadsTo (ht : t.destroys = true) : ∀ t' ∈ c.connectDestroyed.2, t.leadsTo c e t' := by
  intro t' ht'
  rw [connectDestroyed] at ht'
  split at ht'
  · rcases List.mem_cons.mp ht' with rfl | ht'
    · exact .inr ⟨ht,‹_›⟩
    · rw [List.mem_singleton.mp ht']
      exact ht
  · rw [List.mem_singleton.mp ht']
    exact ht

theorem handleRead_leadsTo : ∀ t' ∈ (c.handleRead e.read).2, (Task.callback .read).leadsTo c e t' := by
  rcases hr : e.read with ⟨_ | ⟨x,xs⟩⟩ | _
  · exact handleClose_leadsTo (t:=.callback .read) hr c
  · intro t' ht'
    rw [List.mem_singleton.mp ht']
    exact ⟨rfl,x::xs,List.cons_ne_nil x xs,hr⟩
  · exact nil_leadsTo

theorem handleWrite_leadsTo (r : WriteResult) :
    ∀ t' ∈ (c.handleWrite r).2, (Task.callback .write).leadsTo c e t' := by
  intro t' ht'
  rcases c.handleWrite_cases r with h | ⟨-,n,-,-,-,h⟩ | ⟨-,-,-,h⟩ <;> rw [h] at ht'
  · cases ht'
  · cases ht'
  · rw [List.mem_singleton.mp ht']
    rfl

theorem runMessageCallback_leadsTo {server : Option HttpServer} {p : TcpConnection × List Task}
    (h : runMessageCallback server c e = some p) : ∀ t' ∈ p.2, Task.messageCallback.leadsTo c e t' := by
  rcases runMessageCallback_cases h with ⟨-,rfl⟩ | ⟨s,context,x,-,-,-,rfl⟩
  · exact acts_leadsTo
  · intro t' ht'
    rcases List.mem_cons.mp ht' with rfl | ht'
    · exact .inr ⟨rfl,.inl ⟨_,rfl⟩⟩
    · split at ht'
      · rw [List.mem_singleton.mp ht']
        exact .inr ⟨rfl,.inr rfl⟩
      · cases ht'

theorem runFunctor_leadsTo (f : Functor) : ∀ t' ∈ (c.runFunctor e f).2, (Task.functor f).leadsTo c e t' := by
  cases f with
  | connectDestroyed => exact connectDestroyed_leadsTo rfl
  | forceCloseInLoop => exact forceCloseInLoop_leadsTo (t:=.functor .forceCloseInLoop) id
  | user => exact acts_leadsTo
  | writeComplete cb =>
    cases cb with
    | optionalDoneHighWaterMarkCallback => exact nil_leadsTo
    | user => exact acts_leadsTo
  | highWaterMark cb size =>
    cases cb with
    | optionalHighWaterMarkCallback => exact nil_leadsTo
    | user => exact acts_leadsTo
  | _ => exact nil_leadsTo

theorem runTimer_leadsTo (i : ℕ) : ∀ t' ∈ (c.runTimer i).2, (Task.timer i).leadsTo c e t' := by
  rw [runTimer]
  split
  · rename_i hcb
    exact forceCloseInLoop_leadsTo (t:=.timer i) fun hlive => ⟨hcb,hlive⟩
  · exact nil_leadsTo
  · exact nil_leadsTo

theorem run_leadsTo {server : Option HttpServer} {p : TcpConnection × List Task}
    (h : c.run server e t = some p) : ∀ t' ∈ p.2, t.leadsTo c e t' := by
  cases t with
  | messageCallback => exact runMessageCallback_leadsTo h
  | callback cb =>
    cases cb <;> cases h
    · exact handleClose_leadsTo (t:=.callback .close) trivial c
    · exact nil_leadsTo
    · exact handleRead_leadsTo
    · exact handleWrite_leadsTo e.write
  | connectionCallback =>
    cases h
    cases server with
    | none => exact acts_leadsTo
    | some s => exact nil_leadsTo
  | call a =>
    cases h
    cases a with
    | connectDestroyed => exact connectDestroyed_leadsTo rfl
    | _ => exact nil_leadsTo
  | functor f =>
    cases h
    exact runFunctor_leadsTo f
  | timer i =>
    cases h
    exact runTimer_leadsTo i
  | other =>
    cases h
    exact acts_leadsTo
  | _ =>
    cases h
    exact nil_leadsTo

end leadsTo

/-- A call among them is one that the outside chose or one of those of `HttpServer::onMessage`. -/
def Task.follows (e : Choice) : Task → Prop
  | .callback _ | .functor _ | .timer _ | .other => False
  | .call a => a ∈ e.acts ∨ (∃ message, a = .send message) ∨ a = .forceClose
  | .finishWrite | .messageCallback | .connectionCallback | .closeCallback | .removeChannel => True

theorem run_follows {server : Option HttpServer} {c : TcpConnection} {e : Choice} {t : Task}
    {p : TcpConnection × List Task} (h : c.run server e t = some p) : ∀ t' ∈ p.2, t'.follows e := by
  intro t' ht'
  have hleads := run_leadsTo h t' ht'
  cases t' with
  | call a => exact hleads.imp_right And.right
  | _ => first | exact hleads | trivial

theorem run_functorsIn {server : Option HttpServer} {c : TcpConnection} {e : Choice} {t : Task}
    {p : TcpConnection × List Task} (h : c.run server e t = some p) : functorsIn p.2 = [] := by
  rw [functorsIn,List.filterMap_eq_nil_iff]
  intro t' ht'
  cases t' with
  | functor f => exact absurd (run_follows h _ ht') id
  | _ => rfl

end TcpConnection

/-- Where another thread stands in a call. -/
inductive Pc
  | idle
  | storing (next : Functor)
  | pushing (f : Functor)
  deriving DecidableEq, Repr

inductive Phase
  | polling | handling | calling
  deriving DecidableEq, Repr

/-- `functors` are those that `doPendingFunctors` swapped out. -/
structure World where
  conn : TcpConnection
  phase : Phase
  active : List Active
  functors : List Functor
  todo : List Task
  threads : ℕ → Pc

inductive Label
  | loop (e : Choice)
  | call (thread : ℕ) (a : Action)
  | advance (thread : ℕ)
  deriving DecidableEq, Repr

namespace World

/-- After `connectEstablished`, before its `connectionCallback_`. -/
def established (highWaterMarkCallback : Option HighWaterMarkCallback) (highWaterMark : ℕ)
    (writeCompleteCallback : Option WriteCompleteCallback) : World :=
  let p := (TcpConnection.create highWaterMarkCallback highWaterMark writeCompleteCallback).connectEstablished
  ⟨p.1,.calling,[],[],p.2,fun _ => .idle⟩

/-- A channel is active at most once, and only while the poller knows it. -/
def Pollable (c : TcpConnection) (active : List Active) : Prop :=
  active.countP Active.isConn ≤ if c.channel.addedToLoop then 1 else 0

instance (c : TcpConnection) (active : List Active) : Decidable (Pollable c active) :=
  inferInstanceAs (Decidable (_ ≤ _))

/-- A turn of `EventLoop::loop` when no method is running. -/
def turn (w : World) (e : Choice) : Option World :=
  match w.phase with
  | .polling =>
    if Pollable w.conn e.active then some { w with phase := .handling, active := e.active } else none
  | .handling =>
    match w.active with
    | a::active => some { w with active, todo := a.tasks }
    | [] =>
      some
        { w with
          phase := .calling
          functors := w.conn.pendingFunctors
          conn := { w.conn with pendingFunctors := [] } }
  | .calling =>
    match w.functors with
    | f::functors => some { w with functors, todo := [.functor f] }
    | [] => some { w with phase := .polling }

def loopStep (server : Option HttpServer) (w : World) (e : Choice) : Option World :=
  match w.todo with
  | t::ts => (w.conn.run server e t).map fun p => { w with conn := p.1, todo := p.2++ts }
  | [] => w.turn e

/-- The first load of `state_` in a call from another thread, and what is left of the call. -/
def threadCall (c : TcpConnection) (thread : ℕ) : Action → Option (TcpConnection × Pc)
  | .send message =>
    some (if c.state = .kConnected then
      (c.record (.accepted thread message),.pushing (.sendInLoop thread message)) else (c,.idle))
  | .shutdown => some (c,if c.state = .kConnected then .storing .shutdownInLoop else .idle)
  | .shutdownAndForceCloseAfter =>
    some (c,if c.state = .kConnected then .storing .shutdownAndForceCloseInLoop else .idle)
  | .forceClose =>
    some (c,if c.state = .kConnected ∨ c.state = .kDisconnecting then .storing .forceCloseInLoop else .idle)
  | .forceCloseWithDelay =>
    some (c,if c.state = .kConnected ∨ c.state = .kDisconnecting then .storing (.addTimer .forceClose)
      else .idle)
  | .startRead => some (c,.pushing .startReadInLoop)
  | .stopRead => some (c,.pushing .stopReadInLoop)
  | .connectDestroyed => some (c,.pushing .connectDestroyed)
  | .queueInLoop => some (c,.pushing .user)
  | .setWriteCompleteCallback _ | .setHighWaterMarkCallback _ _ | .retrieve _ => none

/-- The store of `kDisconnecting` or the push that another thread has still to make. -/
def threadAdvance (c : TcpConnection) : Pc → Option (TcpConnection × Pc)
  | .idle => none
  | .storing next => some (c.setState .kDisconnecting,.pushing next)
  | .pushing f => some (c.queueInLoop f,.idle)

/-- Thread 0 is the loop thread. -/
def step (server : Option HttpServer) (w : World) : Label → Option World
  | .loop e => w.loopStep server e
  | .call thread a =>
    if thread ≠ 0 ∧ w.threads thread = .idle then
      (threadCall w.conn thread a).map fun p =>
        { w with conn := p.1, threads := Function.update w.threads thread p.2 }
    else none
  | .advance thread =>
    (threadAdvance w.conn (w.threads thread)).map fun p =>
      { w with conn := p.1, threads := Function.update w.threads thread p.2 }

/-- The functors that have not run, in the order of their push. -/
def queue (w : World) : List Functor := functorsIn w.todo++w.functors++w.conn.pendingFunctors

/-- What one step is: a task of the loop thread, a turn of its loop, or a load, a store
or a push of another thread. -/
theorem step_cases {server : Option HttpServer} {w w' : World} {l : Label}
    (h : step server w l = some w') :
    (∃ e t ts p, l = .loop e ∧ w.todo = t::ts ∧ w.conn.run server e t = some p ∧
        w' = { w with conn := p.1, todo := p.2++ts }) ∨
      (∃ e, l = .loop e ∧ w.todo = [] ∧ w.turn e = some w') ∨
      (∃ thread a p, l = .call thread a ∧ thread ≠ 0 ∧ w.threads thread = .idle ∧
        threadCall w.conn thread a = some p ∧
        w' = { w with conn := p.1, threads := Function.update w.threads thread p.2 }) ∨
      (∃ thread p, l = .advance thread ∧ threadAdvance w.conn (w.threads thread) = some p ∧
        w' = { w with conn := p.1, threads := Function.update w.threads thread p.2 }) := by
  cases l with
  | loop e =>
    cases htodo : w.todo with
    | nil =>
      simp only [step,loopStep,htodo] at h
      exact .inr (.inl ⟨e,rfl,rfl,h⟩)
    | cons t ts =>
      simp only [step,loopStep,htodo,Option.map_eq_some_iff] at h
      obtain ⟨p,hp,rfl⟩ := h
      exact .inl ⟨e,t,ts,p,rfl,rfl,hp,rfl⟩
  | call thread a =>
    by_cases hidle : thread ≠ 0 ∧ w.threads thread = .idle
    · rw [step,if_pos hidle] at h
      obtain ⟨p,hp,rfl⟩ := Option.map_eq_some_iff.mp h
      exact .inr (.inr (.inl ⟨thread,a,p,rfl,hidle.1,hidle.2,hp,rfl⟩))
    · rw [step,if_neg hidle] at h
      cases h
  | advance thread =>
    obtain ⟨p,hp,rfl⟩ := Option.map_eq_some_iff.mp h
    exact .inr (.inr (.inr ⟨thread,p,rfl,hp,rfl⟩))

/-- What the first load of a call from another thread leads to. -/
theorem threadCall_cases {c : TcpConnection} {thread : ℕ} {a : Action} {p : TcpConnection × Pc}
    (h : threadCall c thread a = some p) :
    (∃ message, a = .send message ∧ c.state = .kConnected ∧
        p = (c.record (.accepted thread message),.pushing (.sendInLoop thread message))) ∨
      p = (c,.idle) ∨
      (∃ f, p = (c,.pushing f) ∧ (a,f) ∈ [(.startRead,.startReadInLoop),(.stopRead,.stopReadInLoop),
        (.connectDestroyed,.connectDestroyed),(.queueInLoop,.user)]) ∨
      (∃ f, p = (c,.storing f) ∧ (c.state = .kConnected ∨ c.state = .kDisconnecting) ∧
        (a,f) ∈ [(.shutdown,.shutdownInLoop),(.shutdownAndForceCloseAfter,.shutdownAndForceCloseInLoop),
          (.forceClose,.forceCloseInLoop),(.forceCloseWithDelay,.addTimer .forceClose)]) := by
  cases a with
  | send message =>
    simp only [threadCall,Option.some.injEq] at h
    split at h <;> subst h
    · exact .inl ⟨message,rfl,‹_›,rfl⟩
    · exact .inr (.inl rfl)
  | shutdown =>
    simp only [threadCall,Option.some.injEq] at h
    split at h <;> subst h
    · exact .inr (.inr (.inr ⟨_,rfl,.inl ‹_›,by simp⟩))
    · exact .inr (.inl rfl)
  | shutdownAndForceCloseAfter =>
    simp only [threadCall,Option.some.injEq] at h
    split at h <;> subst h
    · exact .inr (.inr (.inr ⟨_,rfl,.inl ‹_›,by simp⟩))
    · exact .inr (.inl rfl)
  | forceClose =>
    simp only [threadCall,Option.some.injEq] at h
    split at h <;> subst h
    · exact .inr (.inr (.inr ⟨_,rfl,‹_›,by simp⟩))
    · exact .inr (.inl rfl)
  | forceCloseWithDelay =>
    simp only [threadCall,Option.some.injEq] at h
    split at h <;> subst h
    · exact .inr (.inr (.inr ⟨_,rfl,‹_›,by simp⟩))
    · exact .inr (.inl rfl)
  | startRead => cases h; exact .inr (.inr (.inl ⟨_,rfl,by simp⟩))
  | stopRead => cases h; exact .inr (.inr (.inl ⟨_,rfl,by simp⟩))
  | connectDestroyed => cases h; exact .inr (.inr (.inl ⟨_,rfl,by simp⟩))
  | queueInLoop => cases h; exact .inr (.inr (.inl ⟨_,rfl,by simp⟩))
  | setWriteCompleteCallback cb => cases h
  | setHighWaterMarkCallback cb mark => cases h
  | retrieve n => cases h

theorem threadAdvance_cases {c : TcpConnection} {pc : Pc} {p : TcpConnection × Pc}
    (h : threadAdvance c pc = some p) :
    (∃ next, pc = .storing next ∧ p = (c.setState .kDisconnecting,.pushing next)) ∨
      ∃ f, pc = .pushing f ∧ p = (c.queueInLoop f,.idle) := by
  cases pc with
  | idle => cases h
  | storing next => exact .inl ⟨next,rfl,(Option.some.inj h).symm⟩
  | pushing f => exact .inr ⟨f,rfl,(Option.some.inj h).symm⟩

/-- Functors wait in `functors` only while the loop calls them. -/
def Swapped (w : World) : Prop := w.phase ≠ .calling → w.functors = []

theorem turn_conn {w w' : World} {e : Choice} (h : w.turn e = some w') :
    w'.conn = { w.conn with pendingFunctors := w'.conn.pendingFunctors } ∧ w'.threads = w.threads := by
  rw [turn] at h
  cases hphase : w.phase <;> simp only [hphase] at h <;> split at h <;> cases h <;> exact ⟨rfl,rfl⟩

theorem turn_queue {w w' : World} {e : Choice} (h : w.turn e = some w') (htodo : w.todo = [])
    (hw : w.Swapped) : w'.Swapped ∧ w'.queue = w.queue := by
  rw [turn] at h
  cases hphase : w.phase with
  | polling =>
    have hf := hw (by rw [hphase]; decide)
    simp only [hphase] at h
    split at h
    · cases h
      exact ⟨fun _ => hf,rfl⟩
    · cases h
  | handling =>
    have hf := hw (by rw [hphase]; decide)
    simp only [hphase] at h
    split at h
    · rename_i a active ha
      cases h
      refine ⟨fun _ => hf,?_⟩
      cases a <;> simp [queue,htodo,Active.tasks,functorsIn]
    · cases h
      refine ⟨fun hne => absurd rfl hne,?_⟩
      simp [queue,htodo,hf]
  | calling =>
    simp only [hphase] at h
    split at h
    · rename_i f functors hf
      cases h
      refine ⟨fun hne => absurd rfl hne,?_⟩
      simp [queue,htodo,hf]
    · rename_i hf
      cases h
      exact ⟨fun _ => hf,rfl⟩

/-- A turn starts a dispatch or a functor, and only poll makes channels active. -/
theorem turn_todo {w w' : World} {e : Choice} (h : w.turn e = some w') (htodo : w.todo = []) :
    (w'.todo = [] ∨ (∃ a ∈ w.active, w'.todo = a.tasks) ∨ ∃ f ∈ w.functors, w'.todo = [.functor f]) ∧
      ∀ a ∈ w'.active, a ∈ w.active ∨ a ∈ e.active := by
  rw [turn] at h
  cases hphase : w.phase <;> simp only [hphase] at h <;> split at h
  · cases h
    exact ⟨.inl htodo,fun a ha => .inr ha⟩
  · cases h
  · rename_i b active hb
    cases h
    exact ⟨.inr (.inl ⟨b,by simp [hb],rfl⟩),fun a ha => .inl (by rw [hb]; exact .tail _ ha)⟩
  · cases h
    exact ⟨.inl htodo,fun a ha => .inl ha⟩
  · rename_i f functors hf
    cases h
    exact ⟨.inr (.inr ⟨f,by simp [hf],rfl⟩),fun a ha => .inl ha⟩
  · cases h
    exact ⟨.inl htodo,fun a ha => .inl ha⟩

/-- The active channels are those of poll, or some of those that were active before. -/
theorem turn_active {w w' : World} {e : Choice} (h : w.turn e = some w') :
    (w.phase = .polling ∧ w'.active = e.active) ∨ ∀ a ∈ w'.active, a ∈ w.active := by
  rw [turn] at h
  cases hphase : w.phase <;> simp only [hphase] at h <;> split at h
  · cases h
    exact .inl ⟨rfl,rfl⟩
  · cases h
  · rename_i a active ha
    cases h
    exact .inr fun b hb => by rw [ha]; exact .tail _ hb
  all_goals
    cases h
    exact .inr fun b hb => hb

theorem turn_calls {w w' : World} {e : Choice} (h : w.turn e = some w') (htodo : w.todo = []) (a : Action) :
    .call a ∉ w'.todo := by
  rcases (turn_todo h htodo).1 with h | ⟨b,-,h⟩ | ⟨f,-,h⟩ <;> rw [h]
  · simp
  · cases b <;> simp [Active.tasks]
  · simp

theorem step_swapped {server : Option HttpServer} {w w' : World} {l : Label} (hw : w.Swapped)
    (h : step server w l = some w') : w'.Swapped := by
  rcases step_cases h with ⟨e,t,ts,p,-,-,-,rfl⟩ | ⟨e,-,htodo,ht⟩ | ⟨thread,a,p,-,-,-,-,rfl⟩ |
    ⟨thread,p,-,-,rfl⟩
  · exact hw
  · exact (turn_queue ht htodo hw).1
  · exact hw
  · exact hw

/-- The queue behind a task that ran: what was queued before without the task itself. -/
theorem queue_run {server : Option HttpServer} {w : World} {e : Choice} {t : Task} {ts : List Task}
    {p : TcpConnection × List Task} (h : w.conn.run server e t = some p) :
    queue { w with conn := p.1, todo := p.2++ts } = functorsIn ts++w.functors++p.1.pendingFunctors := by
  simp [queue,run_functorsIn h]

end World
end GgLib
