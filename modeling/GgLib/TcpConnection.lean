import GgLib.Channel
import GgLib.HttpServer

/-! `TcpConnection`: its methods, with the queue of functors and the timers of its loop
that they push into, and a record of what they did. A `Buffer` is the byte queue it
refines. Assertions and log statements are left out. -/
namespace GgLib

namespace TcpConnection

inductive StateE
  | kDisconnected | kConnecting | kConnected | kDisconnecting
  deriving DecidableEq, Repr

inductive Errno
  | EWOULDBLOCK | EPIPE | ECONNRESET | other
  deriving DecidableEq, Repr

/-- What `::write` returns. -/
inductive WriteResult
  | wrote (n : ℕ)
  | failed (errno : Errno)
  deriving DecidableEq, Repr

/-- It takes no more than it is given. -/
def WriteResult.count (r : WriteResult) (len : ℕ) : Except Errno ℕ :=
  match r with
  | .wrote n => .ok (min n len)
  | .failed errno => .error errno

/-- What `readFd` returns; no bytes stand for the end of the stream. -/
inductive ReadResult
  | received (bytes : List Byte)
  | failed
  deriving DecidableEq, Repr

/-- `user` stands for any function that is not in the repository. -/
inductive WriteCompleteCallback
  | optionalDoneHighWaterMarkCallback | user
  deriving DecidableEq, Repr

inductive HighWaterMarkCallback
  | optionalHighWaterMarkCallback | user
  deriving DecidableEq, Repr

inductive TimerCallback
  | forceCloseInLoop | forceClose
  deriving DecidableEq, Repr

inductive Functor
  | sendInLoop (thread : ℕ) (message : List Byte)
  | shutdownInLoop
  | shutdownAndForceCloseInLoop
  | forceCloseInLoop
  | startReadInLoop
  | stopReadInLoop
  | addTimer (cb : TimerCallback)
  | writeComplete (cb : WriteCompleteCallback)
  | highWaterMark (cb : HighWaterMarkCallback) (size : ℕ)
  | connectDestroyed
  | user
  deriving DecidableEq, Repr

/-- A call of the public interface. -/
inductive Action
  | send (message : List Byte)
  | shutdown
  | shutdownAndForceCloseAfter
  | forceClose
  | forceCloseWithDelay
  | startRead
  | stopRead
  | setWriteCompleteCallback (cb : Option WriteCompleteCallback)
  | setHighWaterMarkCallback (cb : Option HighWaterMarkCallback) (mark : ℕ)
  | retrieve (n : ℕ)
  | connectDestroyed
  | queueInLoop
  deriving DecidableEq, Repr

/-- What the loop thread goes on to do behind a step. -/
inductive Task
  | callback (cb : Channel.Callback)
  | finishWrite
  | messageCallback
  | connectionCallback
  | closeCallback
  | removeChannel
  | call (a : Action)
  | functor (f : Functor)
  | timer (i : ℕ)
  | other
  deriving DecidableEq, Repr

/-- What is recorded of a run. -/
inductive Event
  | update (events : BitVec 32)
  | accepted (thread : ℕ) (message : List Byte)
  | sent (thread : ℕ) (message : List Byte)
  | wrote (bytes : List Byte)
  | shutdownWrite
  | messageCallback
  | connectionCallback
  | handleClose
  | remove
  deriving DecidableEq, Repr

end TcpConnection

/-- The last two fields record the responses of an `HttpServer`, by their number, and what was done. -/
structure TcpConnection where
  state : TcpConnection.StateE
  reading : Bool
  channel : Channel
  inputBuffer : ByteQueue
  outputBuffer : ByteQueue
  highWaterMark : ℕ
  highWaterMarkCallback : Option TcpConnection.HighWaterMarkCallback
  writeCompleteCallback : Option TcpConnection.WriteCompleteCallback
  context : Option HttpContext
  pendingFunctors : List TcpConnection.Functor
  timers : List TcpConnection.TimerCallback
  answered : ℕ
  trace : List TcpConnection.Event
  deriving DecidableEq, Repr

namespace TcpConnection

/-- The constructor. -/
def create (highWaterMarkCallback : Option HighWaterMarkCallback) (highWaterMark : ℕ)
    (writeCompleteCallback : Option WriteCompleteCallback) : TcpConnection where
  state := .kConnecting
  reading := true
  channel := .create
  inputBuffer := []
  outputBuffer := []
  highWaterMark := highWaterMark
  highWaterMarkCallback := highWaterMarkCallback
  writeCompleteCallback := writeCompleteCallback
  context := none
  pendingFunctors := []
  timers := []
  answered := 0
  trace := []

variable (c : TcpConnection)

def record (e : Event) : TcpConnection := { c with trace := c.trace++[e] }
def setState (state : StateE) : TcpConnection := { c with state }
def queueInLoop (f : Functor) : TcpConnection := { c with pendingFunctors := c.pendingFunctors++[f] }
def runAfter (cb : TimerCallback) : TcpConnection := { c with timers := c.timers++[cb] }

/-- A change of interest, which calls `Channel::update`. -/
def updateChannel (channel : Channel) : TcpConnection :=
  { c with channel, trace := c.trace++[.update channel.events] }

def setWriteCompleteCallback (cb : Option WriteCompleteCallback) : TcpConnection :=
  { c with writeCompleteCallback := cb }

def setHighWaterMarkCallback (cb : Option HighWaterMarkCallback) (mark : ℕ) : TcpConnection :=
  { c with highWaterMarkCallback := cb, highWaterMark := mark }

def startReadInLoop : TcpConnection :=
  if !c.reading || !c.channel.isReading then
    { c.updateChannel c.channel.enableReading with reading := true }
  else c

def stopReadInLoop : TcpConnection :=
  if c.reading || c.channel.isReading then
    { c.updateChannel c.channel.disableReading with reading := false }
  else c

def optionalHighWaterMarkCallback : TcpConnection :=
  c.stopReadInLoop.setWriteCompleteCallback (some .optionalDoneHighWaterMarkCallback)

def optionalDoneHighWaterMarkCallback : TcpConnection :=
  c.startReadInLoop.setWriteCompleteCallback none

def queueWriteComplete : TcpConnection :=
  match c.writeCompleteCallback with
  | some cb => c.queueInLoop (.writeComplete cb)
  | none => c

/-- The direct write of `sendInLoop`: the connection, `nwrote` and `faultError`. -/
def directWrite (message : List Byte) (r : WriteResult) : TcpConnection × ℕ × Bool :=
  if !c.channel.isWriting && c.outputBuffer.isEmpty then
    match r.count message.length with
    | .ok nwrote =>
      let c := c.record (.wrote (message.take nwrote))
      (if message.length-nwrote = 0 then c.queueWriteComplete else c,nwrote,false)
    | .error errno => (c,0,decide (errno = .EPIPE ∨ errno = .ECONNRESET))
  else (c,0,false)

/-- The part of `sendInLoop` that buffers what remains. -/
def bufferRest (remaining : List Byte) : TcpConnection :=
  let oldLen := c.outputBuffer.length
  let c :=
    if c.highWaterMark ≤ oldLen+remaining.length ∧ oldLen < c.highWaterMark then
      match c.highWaterMarkCallback with
      | some cb => c.queueInLoop (.highWaterMark cb (oldLen+remaining.length))
      | none => c
    else c
  let c := { c with outputBuffer := c.outputBuffer.pushBack remaining }
  if !c.channel.isWriting then c.updateChannel c.channel.enableWriting else c

/-- `sendInLoop`, with the thread whose `send` it belongs to. -/
def sendInLoop (thread : ℕ) (message : List Byte) (r : WriteResult) : TcpConnection :=
  if c.state = .kDisconnected then c
  else
    let (c,nwrote,faultError) := (c.record (.sent thread message)).directWrite message r
    if !faultError && decide (0 < message.length-nwrote) then c.bufferRest (message.drop nwrote)
    else c

def shutdownInLoop : TcpConnection :=
  if !c.channel.isWriting then c.record .shutdownWrite else c

def shutdownAndForceCloseInLoop : TcpConnection :=
  c.shutdownInLoop.runAfter .forceCloseInLoop

/-- The state and the interest are set, then `connectionCallback_` and `closeCallback_` are called. -/
def handleClose : TcpConnection × List Task :=
  let c := c.setState .kDisconnected
  let c := c.updateChannel c.channel.disableAll
  (c.record .handleClose,[.connectionCallback,.closeCallback])

def forceCloseInLoop : TcpConnection × List Task :=
  if c.state = .kConnected ∨ c.state = .kDisconnecting then c.handleClose else (c,[])

def connectEstablished : TcpConnection × List Task :=
  let c := c.setState .kConnected
  let c := c.updateChannel c.channel.enableReading
  (c.record .connectionCallback,[.connectionCallback])

def connectDestroyed : TcpConnection × List Task :=
  if c.state = .kConnected then
    let c := c.setState .kDisconnected
    let c := c.updateChannel c.channel.disableAll
    (c.record .connectionCallback,[.connectionCallback,.removeChannel])
  else (c,[.removeChannel])

def handleRead (r : ReadResult) : TcpConnection × List Task :=
  match r with
  | .received [] => c.handleClose
  | .received bytes =>
    (({ c with inputBuffer := c.inputBuffer.pushBack bytes } : TcpConnection).record .messageCallback,
      [.messageCallback])
  | .failed => (c,[])

/-- `::write` took `n` bytes of the buffer, which are retrieved. -/
def retrieveWritten (n : ℕ) : TcpConnection :=
  { c with outputBuffer := c.outputBuffer.dropFront n, trace := c.trace++[.wrote (c.outputBuffer.take n)] }

/-- `handleWrite` up to its test of `state_`, which is `finishWrite`. -/
def handleWrite (r : WriteResult) : TcpConnection × List Task :=
  if c.channel.isWriting then
    match r.count c.outputBuffer.length with
    | .ok n =>
      if 0 < n then
        let c := c.retrieveWritten n
        if c.outputBuffer.isEmpty then
          ((c.updateChannel c.channel.disableWriting).queueWriteComplete,[.finishWrite])
        else (c,[])
      else (c,[])
    | .error _ => (c,[])
  else (c,[])

def finishWrite : TcpConnection := if c.state = .kDisconnecting then c.shutdownInLoop else c

def forceClose : TcpConnection :=
  if c.state = .kConnected ∨ c.state = .kDisconnecting then
    (c.setState .kDisconnecting).queueInLoop .forceCloseInLoop
  else c

/-- A call on the loop thread, where `runInLoop` runs the functor at once. -/
def call (r : WriteResult) : Action → TcpConnection × List Task
  | .send message =>
    (if c.state = .kConnected then (c.record (.accepted 0 message)).sendInLoop 0 message r else c,[])
  | .shutdown =>
    (if c.state = .kConnected then (c.setState .kDisconnecting).shutdownInLoop else c,[])
  | .shutdownAndForceCloseAfter =>
    (if c.state = .kConnected then (c.setState .kDisconnecting).shutdownAndForceCloseInLoop else c,[])
  | .forceClose => (c.forceClose,[])
  | .forceCloseWithDelay =>
    (if c.state = .kConnected ∨ c.state = .kDisconnecting then
      (c.setState .kDisconnecting).runAfter .forceClose else c,[])
  | .startRead => (c.startReadInLoop,[])
  | .stopRead => (c.stopReadInLoop,[])
  | .setWriteCompleteCallback cb => (c.setWriteCompleteCallback cb,[])
  | .setHighWaterMarkCallback cb mark => (c.setHighWaterMarkCallback cb mark,[])
  | .retrieve n => ({ c with inputBuffer := c.inputBuffer.dropFront n },[])
  | .connectDestroyed => c.connectDestroyed
  | .queueInLoop => (c.queueInLoop .user,[])

def sent (trace : List Event) : List (ℕ × List Byte) :=
  trace.filterMap fun
    | .sent thread message => some (thread,message)
    | _ => none

def accepted (trace : List Event) : List (ℕ × List Byte) :=
  trace.filterMap fun
    | .accepted thread message => some (thread,message)
    | _ => none

def written (trace : List Event) : List Byte :=
  trace.flatMap fun
    | .wrote bytes => bytes
    | _ => []

def ofThread (thread : ℕ) (messages : List (ℕ × List Byte)) : List (List Byte) :=
  (messages.filter (·.1 = thread)).map (·.2)

variable {c} in
theorem queueWriteComplete_none (h : c.writeCompleteCallback = none) : c.queueWriteComplete = c := by
  rw [queueWriteComplete,h]

variable {c} in
theorem queueWriteComplete_some {cb : WriteCompleteCallback} (h : c.writeCompleteCallback = some cb) :
    c.queueWriteComplete = c.queueInLoop (.writeComplete cb) := by
  rw [queueWriteComplete,h]

theorem WriteResult.count_le {r : WriteResult} {len n : ℕ} (h : r.count len = .ok n) : n ≤ len := by
  cases r with
  | wrote m =>
    cases h
    exact Nat.min_le_right m len
  | failed errno => cases h

/-- All that `handleWrite` can do: nothing, take a part of the buffer, or drain it. -/
theorem handleWrite_cases (r : WriteResult) :
    c.handleWrite r = (c,[]) ∨
      (c.channel.isWriting = true ∧ ∃ n, r.count c.outputBuffer.length = .ok n ∧ 0 < n ∧
        n < c.outputBuffer.length ∧ c.handleWrite r = (c.retrieveWritten n,[])) ∨
      (c.channel.isWriting = true ∧ r.count c.outputBuffer.length = .ok c.outputBuffer.length ∧
        c.outputBuffer ≠ [] ∧ c.handleWrite r =
          (((c.retrieveWritten c.outputBuffer.length).updateChannel
            c.channel.disableWriting).queueWriteComplete,[.finishWrite])) := by
  cases hw : c.channel.isWriting with
  | false => exact .inl (by simp [handleWrite,hw])
  | true =>
    cases hn : r.count c.outputBuffer.length with
    | error errno => exact .inl (by simp [handleWrite,hw,hn])
    | ok n =>
      have hle := WriteResult.count_le hn
      by_cases hpos : 0 < n
      · by_cases hlt : n < c.outputBuffer.length
        · have hrest : (c.retrieveWritten n).outputBuffer.isEmpty = false := by
            simp [retrieveWritten,ByteQueue.dropFront,hlt]
          exact .inr (.inl ⟨rfl,n,rfl,hpos,hlt,by simp [handleWrite,hw,hn,hpos,hrest]⟩)
        · have hn' : n = c.outputBuffer.length := by omega
          subst hn'
          have hrest : (c.retrieveWritten c.outputBuffer.length).outputBuffer.isEmpty = true := by
            simp [retrieveWritten,ByteQueue.dropFront]
          refine .inr (.inr ⟨rfl,rfl,List.ne_nil_of_length_pos hpos,?_⟩)
          simp only [handleWrite,hw,hn,hpos,hrest,if_true]
          rfl
      · exact .inl (by simp [handleWrite,hw,hn,hpos])

/-- `sendInLoop` writes at once: nothing is buffered and there is no write interest. -/
def Direct : Prop := c.channel.isWriting = false ∧ c.outputBuffer = []

/-- The errors on which `sendInLoop` gives the message up. -/
def Errno.isFault (errno : Errno) : Prop := errno = .EPIPE ∨ errno = .ECONNRESET

/-- All that `sendInLoop` can do with a connection that is not disconnected: write the
whole message, write a part and buffer the rest, buffer all, or buffer nothing. -/
theorem sendInLoop_cases (hs : c.state ≠ .kDisconnected) (thread : ℕ) (message : List Byte)
    (r : WriteResult) :
    (c.Direct ∧ r.count message.length = .ok message.length ∧
        c.sendInLoop thread message r =
          ((c.record (.sent thread message)).record (.wrote message)).queueWriteComplete) ∨
      (c.Direct ∧ ∃ n, r.count message.length = .ok n ∧ n < message.length ∧
        c.sendInLoop thread message r =
          ((c.record (.sent thread message)).record (.wrote (message.take n))).bufferRest (message.drop n)) ∨
      ((c.Direct → ∃ errno, r = .failed errno) ∧ message ≠ [] ∧
        c.sendInLoop thread message r = (c.record (.sent thread message)).bufferRest message) ∨
      ((message = [] ∨ ∃ errno, r = .failed errno ∧ errno.isFault) ∧
        c.sendInLoop thread message r = c.record (.sent thread message)) := by
  have hfields : (c.record (.sent thread message)).channel = c.channel ∧
      (c.record (.sent thread message)).outputBuffer = c.outputBuffer := ⟨rfl,rfl⟩
  by_cases hd : c.Direct
  · have hdirect : (!c.channel.isWriting && c.outputBuffer.isEmpty) = true := by simp [hd.1,hd.2]
    cases r with
    | wrote m =>
      have hle := Nat.min_le_right m message.length
      by_cases hlt : min m message.length < message.length
      · have hpos : 0 < message.length-min m message.length := by omega
        have hne : message.length-min m message.length ≠ 0 := by omega
        refine .inr (.inl ⟨hd,_,rfl,hlt,?_⟩)
        simp [sendInLoop,hs,directWrite,hfields,hdirect,WriteResult.count,hpos,hne]
      · have hall : min m message.length = message.length := by omega
        refine .inl ⟨hd,by rw [WriteResult.count,hall],?_⟩
        simp [sendInLoop,hs,directWrite,hfields,hdirect,WriteResult.count,hall]
    | failed errno =>
      by_cases hempty : message = []
      · subst hempty
        refine .inr (.inr (.inr ⟨.inl rfl,?_⟩))
        simp [sendInLoop,hs,directWrite,hfields,hd.1,hd.2,WriteResult.count]
      · have hpos : 0 < message.length := List.length_pos_of_ne_nil hempty
        by_cases hfault : errno.isFault
        · refine .inr (.inr (.inr ⟨.inr ⟨errno,rfl,hfault⟩,?_⟩))
          have hf : errno = .EPIPE ∨ errno = .ECONNRESET := hfault
          simp [sendInLoop,hs,directWrite,hfields,hdirect,WriteResult.count,hf]
        · refine .inr (.inr (.inl ⟨fun _ => ⟨errno,rfl⟩,hempty,?_⟩))
          have hf : ¬ (errno = .EPIPE ∨ errno = .ECONNRESET) := hfault
          simp [sendInLoop,hs,directWrite,hfields,hdirect,WriteResult.count,hf,hpos]
  · have hdirect : (!c.channel.isWriting && c.outputBuffer.isEmpty) = false := by
      rw [Bool.eq_false_iff]
      intro h
      apply hd
      simpa [Direct] using h
    by_cases hempty : message = []
    · subst hempty
      refine .inr (.inr (.inr ⟨.inl rfl,?_⟩))
      have hd' : ¬ (c.channel.isWriting = false ∧ c.outputBuffer = []) := hd
      simp [sendInLoop,hs,directWrite,hfields,hd']
    · have hpos : 0 < message.length := List.length_pos_of_ne_nil hempty
      refine .inr (.inr (.inl ⟨fun h => absurd h hd,hempty,?_⟩))
      simp [sendInLoop,hs,directWrite,hfields,hdirect,hpos]

/-- The functor that `bufferRest` queues when the buffer reaches the mark. -/
def crossing (remaining : List Byte) : List Functor :=
  if c.highWaterMark ≤ c.outputBuffer.length+remaining.length ∧ c.outputBuffer.length < c.highWaterMark then
    match c.highWaterMarkCallback with
    | some cb => [.highWaterMark cb (c.outputBuffer.length+remaining.length)]
    | none => []
  else []

theorem bufferRest_eq (remaining : List Byte) :
    c.bufferRest remaining =
      { c with
        outputBuffer := c.outputBuffer++remaining
        pendingFunctors := c.pendingFunctors++c.crossing remaining
        channel := if c.channel.isWriting then c.channel else c.channel.enableWriting
        trace := c.trace++if c.channel.isWriting then [] else [.update c.channel.enableWriting.events] } := by
  simp only [bufferRest,crossing]
  by_cases hcross : c.highWaterMark ≤ c.outputBuffer.length+remaining.length ∧
      c.outputBuffer.length < c.highWaterMark
  · cases hcb : c.highWaterMarkCallback <;> cases hw : c.channel.isWriting <;>
      simp [hcross,hcb,hw,queueInLoop,updateChannel,ByteQueue.pushBack]
  · cases hw : c.channel.isWriting <;> simp [hcross,hw,updateChannel,ByteQueue.pushBack]

/-- The functor that `queueWriteComplete` queues. -/
def completing : List Functor := c.writeCompleteCallback.toList.map .writeComplete

theorem queueWriteComplete_eq :
    c.queueWriteComplete = { c with pendingFunctors := c.pendingFunctors++c.completing } := by
  rcases Option.eq_none_or_eq_some c.writeCompleteCallback with h | ⟨cb,h⟩
  · have hnone : c.completing = [] := by
      rw [completing,h]
      rfl
    rw [queueWriteComplete_none h,hnone,List.append_nil]
  · have hsome : c.completing = [.writeComplete cb] := by
      rw [completing,h]
      rfl
    rw [queueWriteComplete_some h,hsome]
    rfl

@[simp] theorem queueWriteComplete_state : c.queueWriteComplete.state = c.state := by
  rw [queueWriteComplete]
  split <;> rfl

@[simp] theorem bufferRest_state (rest : List Byte) : (c.bufferRest rest).state = c.state := by
  rw [bufferRest_eq]

@[simp] theorem sendInLoop_state (thread : ℕ) (message : List Byte) (r : WriteResult) :
    (c.sendInLoop thread message r).state = c.state := by
  by_cases hs : c.state = .kDisconnected
  · rw [sendInLoop,if_pos hs]
  · rcases c.sendInLoop_cases hs thread message r with ⟨-,-,h⟩ | ⟨-,n,-,-,h⟩ | ⟨-,-,h⟩ | ⟨-,h⟩ <;>
      simp [h,record]

@[simp] theorem handleWrite_state (r : WriteResult) : (c.handleWrite r).1.state = c.state := by
  rcases c.handleWrite_cases r with h | ⟨-,n,-,-,-,h⟩ | ⟨-,-,-,h⟩ <;> simp [h,updateChannel,retrieveWritten]

@[simp] theorem shutdownInLoop_state : c.shutdownInLoop.state = c.state := by
  rw [shutdownInLoop]
  split <;> rfl

@[simp] theorem finishWrite_state : c.finishWrite.state = c.state := by
  rw [finishWrite]
  split
  · exact shutdownInLoop_state c
  · rfl

@[simp] theorem stopReadInLoop_state : c.stopReadInLoop.state = c.state := by
  rw [stopReadInLoop]
  split <;> rfl

theorem forceCloseInLoop_state : c.forceCloseInLoop.1.state ≠ .kConnected := by
  rw [forceCloseInLoop]
  split
  · simp [handleClose,record,updateChannel,setState]
  · rename_i h
    exact fun hc => h (.inl hc)

theorem forceClose_state : c.forceClose.state ≠ .kConnected := by
  rw [forceClose]
  split
  · simp [queueInLoop,setState]
  · rename_i h
    exact fun hc => h (.inl hc)

theorem connectDestroyed_state : c.connectDestroyed.1.state ≠ .kConnected := by
  rw [connectDestroyed]
  split
  · simp [record,updateChannel,setState]
  · assumption

end TcpConnection
end GgLib
