import GgLib.ConnectionLoop

/-! What a task of the loop thread may do to its connection: every method is a sequence of stores and pushes, each under
a condition on the task and on the connection before it. What the other modules keep over a task follows from this. -/
namespace GgLib

open LabelledSystem TcpConnection

namespace TcpConnection

/-- A store or a push of a method. -/
inductive Edit
  | record (ev : Event)
  | write (bytes : List Byte)
  | updateChannel (channel : Channel)
  | removeChannel
  | setState (state : StateE)
  | setReading (reading : Bool)
  | setWriteCompleteCallback (cb : Option WriteCompleteCallback)
  | setHighWaterMarkCallback (cb : Option HighWaterMarkCallback) (mark : ℕ)
  | queueInLoop (f : Functor)
  | runAfter (cb : TimerCallback)
  | eraseTimer (i : ℕ)
  | setInput (buf : ByteQueue)
  | setContext (context : Option HttpContext) (answered : ℕ)
  | buffer (rest : List Byte)
  | retrieveWritten (n : ℕ)

def Edit.apply (c : TcpConnection) : Edit → TcpConnection
  | .record ev => c.record ev
  | .write bytes => c.record (.wrote bytes)
  | .updateChannel channel => c.updateChannel channel
  | .removeChannel => { c with channel := c.channel.remove }
  | .setState state => c.setState state
  | .setReading reading => { c with reading }
  | .setWriteCompleteCallback cb => c.setWriteCompleteCallback cb
  | .setHighWaterMarkCallback cb mark => c.setHighWaterMarkCallback cb mark
  | .queueInLoop f => c.queueInLoop f
  | .runAfter cb => c.runAfter cb
  | .eraseTimer i => { c with timers := c.timers.eraseIdx i }
  | .setInput buf => { c with inputBuffer := buf }
  | .setContext context answered => { c with context, answered }
  | .buffer rest => { c with outputBuffer := c.outputBuffer.pushBack rest }
  | .retrieveWritten n => c.retrieveWritten n

/-- `c'` comes from `c` by edits of which each is `ok`. -/
def Edited (ok : Edit → Prop) (c c' : TcpConnection) : Prop :=
  ∃ eds : List Edit, c' = eds.foldl Edit.apply c ∧ ∀ ed ∈ eds, ok ed

namespace Edited

variable {ok : Edit → Prop} {c c' c'' : TcpConnection}

theorem refl (c : TcpConnection) : Edited ok c c := ⟨[],rfl,fun _ hed => absurd hed List.not_mem_nil⟩

theorem one (c : TcpConnection) {d : Edit} (h : ok d) : Edited ok c (d.apply c) :=
  ⟨[d],rfl,fun _ hed => List.mem_singleton.mp hed ▸ h⟩

theorem trans (h : Edited ok c c') (h' : Edited ok c' c'') : Edited ok c c'' := by
  obtain ⟨eds,rfl,hok⟩ := h
  obtain ⟨eds',rfl,hok'⟩ := h'
  exact ⟨eds++eds',List.foldl_append.symm,fun ed hed => (List.mem_append.mp hed).elim (hok ed) (hok' ed)⟩

theorem snoc (h : Edited ok c c') {d : Edit} (hd : ok d) : Edited ok c (d.apply c') := h.trans (one c' hd)

/-- What holds of a connection and is kept by each edit holds behind all of them. -/
theorem induct {I : TcpConnection → Prop} (h : Edited ok c c') (hI : I c)
    (hedit : ∀ (c : TcpConnection) (ed : Edit), ok ed → I c → I (ed.apply c)) : I c' := by
  obtain ⟨eds,rfl,hok⟩ := h
  induction eds generalizing c with
  | nil => exact hI
  | cons ed eds ih =>
    exact ih (hedit c ed (hok ed List.mem_cons_self) hI) fun ed' hed' => hok ed' (List.mem_cons_of_mem ed hed')

/-! ## The edits of each method -/

theorem queueWriteComplete (c : TcpConnection) (h : ∀ cb, ok (.queueInLoop (.writeComplete cb))) :
    Edited ok c c.queueWriteComplete := by
  rw [TcpConnection.queueWriteComplete]
  split
  · exact one c (h _)
  · exact refl c

theorem startReadInLoop (c : TcpConnection) (hset : ok (.setReading true))
    (h : c.reading = false ∨ c.channel.isReading = false → ok (.updateChannel c.channel.enableReading)) :
    Edited ok c c.startReadInLoop := by
  rw [TcpConnection.startReadInLoop]
  split
  · rename_i hcond
    exact (one c (h (by simpa using hcond))).snoc hset
  · exact refl c

theorem stopReadInLoop (c : TcpConnection) (hset : ok (.setReading false))
    (h : c.reading = true ∨ c.channel.isReading = true → ok (.updateChannel c.channel.disableReading)) :
    Edited ok c c.stopReadInLoop := by
  rw [TcpConnection.stopReadInLoop]
  split
  · rename_i hcond
    exact (one c (h (by simpa using hcond))).snoc hset
  · exact refl c

theorem shutdownInLoop (c : TcpConnection) (h : c.channel.isWriting = false → ok (.record .shutdownWrite)) :
    Edited ok c c.shutdownInLoop := by
  rw [TcpConnection.shutdownInLoop]
  split
  · rename_i hcond
    exact one c (h (by simpa using hcond))
  · exact refl c

theorem finishWrite (c : TcpConnection)
    (h : c.state = .kDisconnecting ∧ c.channel.isWriting = false → ok (.record .shutdownWrite)) :
    Edited ok c c.finishWrite := by
  rw [TcpConnection.finishWrite]
  split
  · exact shutdownInLoop c fun hw => h ⟨‹_›,hw⟩
  · exact refl c

theorem bufferRest (c : TcpConnection) (rest : List Byte)
    (hcross : ∀ cb size, ok (.queueInLoop (.highWaterMark cb size))) (hbuffer : ok (.buffer rest))
    (h : ok (.updateChannel c.channel.enableWriting)) : Edited ok c (c.bufferRest rest) := by
  have hqueued : Edited ok c { c with pendingFunctors := c.pendingFunctors++c.crossing rest } := by
    rw [crossing]
    split
    · split
      · exact one c (hcross _ _)
      · rw [List.append_nil]
        exact refl c
    · rw [List.append_nil]
      exact refl c
  rw [bufferRest_eq]
  cases c.channel.isWriting with
  | true =>
    rw [if_pos rfl,if_pos rfl,List.append_nil]
    exact hqueued.snoc hbuffer
  | false => exact (hqueued.snoc hbuffer).snoc (d:=.updateChannel c.channel.enableWriting) h

theorem sendInLoop (c : TcpConnection) (thread : ℕ) (message : List Byte) (r : WriteResult)
    (hcomplete : ∀ cb, ok (.queueInLoop (.writeComplete cb)))
    (hcross : ∀ cb size, ok (.queueInLoop (.highWaterMark cb size))) (hsent : ok (.record (.sent thread message)))
    (hwrite : ∀ bytes, ok (.write bytes)) (hbuffer : ∀ rest, ok (.buffer rest))
    (h : c.state ≠ .kDisconnected → ok (.updateChannel c.channel.enableWriting)) :
    Edited ok c (c.sendInLoop thread message r) := by
  by_cases hs : c.state = .kDisconnected
  · rw [TcpConnection.sendInLoop,if_pos hs]
    exact refl c
  · have hrecord : Edited ok c (c.record (.sent thread message)) := one c hsent
    rcases c.sendInLoop_cases hs thread message r with ⟨-,-,heq⟩ | ⟨-,n,-,-,heq⟩ | ⟨-,-,heq⟩ | ⟨-,heq⟩ <;> rw [heq]
    · exact (hrecord.snoc (hwrite _)).trans (queueWriteComplete _ hcomplete)
    · exact (hrecord.snoc (hwrite _)).trans (bufferRest _ _ hcross (hbuffer _) (h hs))
    · exact hrecord.trans (bufferRest _ _ hcross (hbuffer _) (h hs))
    · exact hrecord

theorem handleWrite (c : TcpConnection) (r : WriteResult) (hcomplete : ∀ cb, ok (.queueInLoop (.writeComplete cb)))
    (hretrieve : ∀ n, ok (.retrieveWritten n))
    (h : c.channel.isWriting = true → ok (.updateChannel c.channel.disableWriting)) :
    Edited ok c (c.handleWrite r).1 := by
  rcases c.handleWrite_cases r with heq | ⟨-,n,-,-,-,heq⟩ | ⟨hw,-,-,heq⟩ <;> rw [heq]
  · exact refl c
  · exact one c (hretrieve n)
  · exact ((one c (hretrieve _)).snoc (d:=.updateChannel c.channel.disableWriting) (h hw)).trans
      (queueWriteComplete _ hcomplete)

theorem handleClose (c : TcpConnection) (hset : ok (.setState .kDisconnected)) (hclose : ok (.record .handleClose))
    (h : ok (.updateChannel c.channel.disableAll)) : Edited ok c c.handleClose.1 :=
  ((one c hset).snoc (d:=.updateChannel c.channel.disableAll) h).snoc hclose

theorem forceCloseInLoop (c : TcpConnection)
    (h : c.live → ok (.setState .kDisconnected) ∧ ok (.record .handleClose) ∧
      ok (.updateChannel c.channel.disableAll)) :
    Edited ok c c.forceCloseInLoop.1 := by
  rw [TcpConnection.forceCloseInLoop]
  split
  · obtain ⟨hset,hclose,hupdate⟩ := h ‹_›
    exact handleClose c hset hclose hupdate
  · exact refl c

theorem connectDestroyed (c : TcpConnection)
    (h : c.state = .kConnected → ok (.setState .kDisconnected) ∧ ok (.record .connectionCallback) ∧
      ok (.updateChannel c.channel.disableAll)) : Edited ok c c.connectDestroyed.1 := by
  rw [TcpConnection.connectDestroyed]
  split
  · obtain ⟨hset,hreport,hupdate⟩ := h ‹_›
    exact ((one c hset).snoc (d:=.updateChannel c.channel.disableAll) hupdate).snoc hreport
  · exact refl c

theorem forceClose (c : TcpConnection) (hqueue : ok (.queueInLoop .forceCloseInLoop))
    (hset : c.live → ok (.setState .kDisconnecting)) : Edited ok c c.forceClose := by
  rw [TcpConnection.forceClose]
  split
  · exact (one c (hset ‹_›)).snoc hqueue
  · exact refl c

end Edited

/-! ## What a task may do -/

/-- The functors that the loop thread itself queues, `connectDestroyed` in `closeCallback_` only. -/
def Functor.isOwn (closeCallback : Bool) : Functor → Bool
  | .forceCloseInLoop => true
  | .writeComplete _ => true
  | .highWaterMark _ _ => true
  | .connectDestroyed => closeCallback
  | .user => true
  | _ => false

def Task.isCloseCallback : Task → Bool
  | .closeCallback => true
  | _ => false

/-- The functor calls `shutdownInLoop` or does what it does. -/
def Functor.shuts : Functor → Bool
  | .shutdownInLoop => true
  | .shutdownAndForceCloseInLoop => true
  | _ => false

def Action.shuts : Action → Bool
  | .shutdown => true
  | .shutdownAndForceCloseAfter => true
  | _ => false

/-- An event that `record` is for: the others have their own edits. -/
def Event.isPlain : Event → Bool
  | .update _ => false
  | .wrote _ => false
  | _ => true

def Event.interest (events : BitVec 32) : Event → BitVec 32
  | .update events => events
  | _ => events

/-- When a call on the loop thread may change the interest, and to what. -/
def Action.updates (c : TcpConnection) (events : BitVec 32) : Action → Prop
  | .send _ => c.state = .kConnected ∧ events = c.channel.enableWriting.events
  | .startRead => (c.reading = false ∨ c.channel.isReading = false) ∧ events = c.channel.enableReading.events
  | .stopRead => (c.reading = true ∨ c.channel.isReading = true) ∧ events = c.channel.disableReading.events
  | .connectDestroyed => c.state = .kConnected ∧ events = Channel.kNoneEvent
  | _ => False

def Functor.updates (c : TcpConnection) (events : BitVec 32) : Functor → Prop
  | .sendInLoop _ _ => c.state ≠ .kDisconnected ∧ events = c.channel.enableWriting.events
  | .forceCloseInLoop => c.live ∧ events = Channel.kNoneEvent
  | .startReadInLoop | .writeComplete .optionalDoneHighWaterMarkCallback => Action.startRead.updates c events
  | .stopReadInLoop | .highWaterMark .optionalHighWaterMarkCallback _ => Action.stopRead.updates c events
  | .connectDestroyed => c.state = .kConnected ∧ events = Channel.kNoneEvent
  | _ => False

/-- When a task may call `Channel::update`, and with which interest. -/
def Task.updates (c : TcpConnection) (e : Choice) (events : BitVec 32) : Task → Prop
  | .callback .close => events = Channel.kNoneEvent
  | .callback .read => e.read = .received [] ∧ events = Channel.kNoneEvent
  | .callback .write => c.channel.isWriting = true ∧ events = c.channel.disableWriting.events
  | .call a => a.updates c events
  | .functor f => f.updates c events
  | .timer i => c.timers[i]? = some .forceCloseInLoop ∧ c.live ∧ events = Channel.kNoneEvent
  | _ => False

/-- When a task may call `shutdownWrite`. -/
def Task.shutsDown (c : TcpConnection) : Task → Prop
  | .finishWrite => c.state = .kDisconnecting ∧ c.channel.isWriting = false
  | .functor f => f.shuts = true ∧ c.channel.isWriting = false
  | .call a => a.shuts = true
  | _ => False

/-- The task gives bytes to `::write` or to the buffer. -/
def Task.moves (c : TcpConnection) : Task → Bool
  | .callback .write => true
  | .call (.send _) => decide (c.state = .kConnected)
  | .functor (.sendInLoop _ _) => true
  | _ => false

/-- What a task may record. -/
def Task.records (c : TcpConnection) (e : Choice) (t : Task) : Event → Prop
  | .update events => t.updates c e events
  | .accepted thread message => thread = 0 ∧ t = .call (.send message) ∧ c.state = .kConnected
  | .sent _ _ => t.moves c = true
  | .wrote _ => t.moves c = true
  | .shutdownWrite => t.shutsDown c
  | .messageCallback => t.reads e
  | .connectionCallback => t.destroys = true ∧ c.state = .kConnected
  | .handleClose => t.closesNow c e
  | .remove => t = .removeChannel

def Task.sets (c : TcpConnection) (e : Choice) (t : Task) : StateE → Prop
  | .kDisconnecting => c.live ∧ ((∃ a, t = .call a) ∨ ∃ i, t = .timer i ∧ c.timers[i]? = some .forceClose)
  | .kDisconnected => t.closes c e
  | _ => False

def Task.delays : Task → Prop
  | .call a => a = .shutdownAndForceCloseAfter ∨ a = .forceCloseWithDelay
  | .functor f => f = .shutdownAndForceCloseInLoop ∨ ∃ cb, f = .addTimer cb
  | _ => False

/-- What a task may do, and when. -/
def Task.may (c : TcpConnection) (e : Choice) (t : Task) : Edit → Prop
  | .record ev => ev.isPlain = true ∧ t.records c e ev
  | .write _ | .buffer _ => t.moves c = true ∧ t ≠ .callback .write
  | .updateChannel channel => t.updates c e channel.events
  | .removeChannel => t = .removeChannel
  | .setState state => t.sets c e state
  | .queueInLoop f => f.isOwn t.isCloseCallback = true
  | .runAfter _ => t.delays
  | .eraseTimer i => ∃ cb, t = .timer i ∧ c.timers[i]? = some cb
  | .setInput _ => t.reads e ∨ t = .messageCallback ∨ ∃ n, t = .call (.retrieve n)
  | .setContext _ _ => t = .messageCallback ∨ t = .connectionCallback
  | .retrieveWritten _ => t = .callback .write
  | .setReading _ | .setWriteCompleteCallback _ | .setHighWaterMarkCallback _ _ => True

theorem call_edited (c : TcpConnection) (e : Choice) (a : Action) :
    Edited (Task.may c e (.call a)) c (c.call e.write a).1 := by
  have hset : c.live → Edited (Task.may c e (.call a)) c (c.setState .kDisconnecting) :=
    fun h => .one c (d:=.setState .kDisconnecting) ⟨h,.inl ⟨a,rfl⟩⟩
  cases a with
  | send message =>
    rw [call]
    split
    · rename_i hs
      have hmoves : Task.moves c (.call (.send message)) = true := decide_eq_true hs
      have haccepted : Edited (Task.may c e (.call (.send message))) c (c.record (.accepted 0 message)) :=
        .one c (d:=.record (.accepted 0 message)) ⟨rfl,rfl,rfl,hs⟩
      exact haccepted.trans (.sendInLoop _ _ _ _ (fun _ => rfl) (fun _ _ => rfl) ⟨rfl,hmoves⟩
        (fun _ => ⟨hmoves,nofun⟩) (fun _ => ⟨hmoves,nofun⟩) fun _ => ⟨hs,rfl⟩)
    · exact .refl c
  | shutdown =>
    rw [call]
    split
    · exact (hset (.inl ‹_›)).trans (.shutdownInLoop _ fun _ => ⟨rfl,rfl⟩)
    · exact .refl c
  | shutdownAndForceCloseAfter =>
    rw [call]
    split
    · have hshut := (hset (.inl ‹_›)).trans (.shutdownInLoop _ fun _ => ⟨rfl,rfl⟩)
      exact hshut.snoc (d:=.runAfter .forceCloseInLoop) (.inl rfl)
    · exact .refl c
  | forceClose => exact .forceClose c rfl fun h => ⟨h,.inl ⟨_,rfl⟩⟩
  | forceCloseWithDelay =>
    rw [call]
    split
    · exact (hset ‹_›).snoc (d:=.runAfter .forceClose) (.inr rfl)
    · exact .refl c
  | startRead => exact .startReadInLoop c trivial fun h => ⟨h,rfl⟩
  | stopRead => exact .stopReadInLoop c trivial fun h => ⟨h,rfl⟩
  | setWriteCompleteCallback cb => exact .one c (d:=.setWriteCompleteCallback cb) trivial
  | setHighWaterMarkCallback cb mark => exact .one c (d:=.setHighWaterMarkCallback cb mark) trivial
  | retrieve n => exact .one c (d:=.setInput (c.inputBuffer.dropFront n)) (.inr (.inr ⟨n,rfl⟩))
  | connectDestroyed =>
    exact .connectDestroyed c fun h => ⟨.inr ⟨rfl,h⟩,⟨rfl,rfl,h⟩,h,rfl⟩
  | queueInLoop => exact .one c (d:=.queueInLoop .user) rfl

theorem runFunctor_edited (c : TcpConnection) (e : Choice) (f : Functor) :
    Edited (Task.may c e (.functor f)) c (c.runFunctor e f).1 := by
  cases f with
  | sendInLoop thread message =>
    exact .sendInLoop c _ _ _ (fun _ => rfl) (fun _ _ => rfl) ⟨rfl,rfl⟩ (fun _ => ⟨rfl,nofun⟩)
      (fun _ => ⟨rfl,nofun⟩) fun h => ⟨h,rfl⟩
  | shutdownInLoop => exact .shutdownInLoop c fun h => ⟨rfl,rfl,h⟩
  | shutdownAndForceCloseInLoop =>
    exact (Edited.shutdownInLoop c fun h => ⟨rfl,rfl,h⟩).snoc (d:=.runAfter .forceCloseInLoop) (.inl rfl)
  | forceCloseInLoop => exact .forceCloseInLoop c fun h => ⟨.inl h,⟨rfl,h⟩,h,rfl⟩
  | startReadInLoop => exact .startReadInLoop c trivial fun h => ⟨h,rfl⟩
  | stopReadInLoop => exact .stopReadInLoop c trivial fun h => ⟨h,rfl⟩
  | addTimer cb => exact .one c (d:=.runAfter cb) (.inr ⟨cb,rfl⟩)
  | writeComplete cb =>
    cases cb with
    | optionalDoneHighWaterMarkCallback =>
      exact (Edited.startReadInLoop c trivial fun h => ⟨h,rfl⟩).snoc (d:=.setWriteCompleteCallback none) trivial
    | user => exact .refl c
  | highWaterMark cb size =>
    cases cb with
    | optionalHighWaterMarkCallback =>
      exact (Edited.stopReadInLoop c trivial fun h => ⟨h,rfl⟩).snoc
        (d:=.setWriteCompleteCallback (some .optionalDoneHighWaterMarkCallback)) trivial
    | user => exact .refl c
  | connectDestroyed =>
    exact .connectDestroyed c fun h => ⟨.inr ⟨rfl,h⟩,⟨rfl,rfl,h⟩,h,rfl⟩
  | user => exact .refl c

theorem handleRead_edited (c : TcpConnection) (e : Choice) :
    Edited (Task.may c e (.callback .read)) c (c.handleRead e.read).1 := by
  rcases hr : e.read with ⟨_ | ⟨x,xs⟩⟩ | _
  · exact .handleClose c (.inl hr) ⟨rfl,hr⟩ ⟨hr,rfl⟩
  · have hreads : Task.reads e (.callback .read) := ⟨rfl,x::xs,List.cons_ne_nil x xs,hr⟩
    exact (Edited.one c (d:=.setInput (c.inputBuffer.pushBack (x::xs))) (.inl hreads)).snoc
      (d:=.record .messageCallback) ⟨rfl,hreads⟩
  · exact .refl c

theorem runTimer_edited (c : TcpConnection) (e : Choice) (i : ℕ) :
    Edited (Task.may c e (.timer i)) c (c.runTimer i).1 := by
  have herase : ∀ cb, c.timers[i]? = some cb →
      Edited (Task.may c e (.timer i)) c { c with timers := c.timers.eraseIdx i } :=
    fun cb hcb => .one c (d:=.eraseTimer i) ⟨cb,rfl,hcb⟩
  rw [runTimer]
  split
  · rename_i hcb
    have hnow : c.live → Task.closesNow c e (.timer i) := fun h => ⟨hcb,h⟩
    exact (herase _ hcb).trans (.forceCloseInLoop _ fun h => ⟨.inl (hnow h),⟨rfl,hnow h⟩,hcb,h,rfl⟩)
  · rename_i hcb
    exact (herase _ hcb).trans (.forceClose _ rfl fun h => ⟨h,.inr ⟨i,rfl,hcb⟩⟩)
  · exact .refl c

/-- All that a task does. -/
theorem run_edited {server : Option HttpServer} {c : TcpConnection} {e : Choice} {t : Task}
    {p : TcpConnection × List Task} (h : c.run server e t = some p) : Edited (t.may c e) c p.1 := by
  cases t with
  | callback cb =>
    cases cb with
    | close =>
      cases h
      exact .handleClose c (.inl trivial) ⟨rfl,trivial⟩ rfl
    | error =>
      cases h
      exact .refl c
    | read =>
      cases h
      exact handleRead_edited c e
    | write =>
      cases h
      exact .handleWrite c e.write (fun _ => rfl) (fun _ => rfl) fun hw => ⟨hw,rfl⟩
  | finishWrite =>
    cases h
    exact .finishWrite c fun hw => ⟨rfl,hw⟩
  | messageCallback =>
    rcases runMessageCallback_cases h with ⟨-,rfl⟩ | ⟨s,context,x,-,-,-,rfl⟩
    · exact .refl c
    · exact (Edited.one c (d:=.setInput x.buf) (.inr (.inl rfl))).snoc
        (d:=.setContext (some x.context) (c.answered+x.handled.length)) (.inl rfl)
  | connectionCallback =>
    cases h
    cases server with
    | none => exact .refl c
    | some s =>
      rw [runConnectionCallback]
      refine Edited.snoc (d:=.setHighWaterMarkCallback _ _) ?_ trivial
      split
      · exact .one c (d:=.setContext (some .fresh) c.answered) (.inr rfl)
      · exact .refl c
  | closeCallback =>
    cases h
    split
    · exact .one c (d:=.queueInLoop .connectDestroyed) rfl
    · exact .refl c
  | removeChannel =>
    cases h
    have hremove : Edited (Task.may c e .removeChannel) c { c with channel := c.channel.remove } :=
      .one c (d:=.removeChannel) rfl
    exact hremove.snoc (d:=.record .remove) ⟨rfl,rfl⟩
  | call a =>
    cases h
    exact call_edited c e a
  | functor f =>
    cases h
    exact runFunctor_edited c e f
  | timer i =>
    cases h
    exact runTimer_edited c e i
  | other =>
    cases h
    exact .refl c

end TcpConnection
end GgLib
