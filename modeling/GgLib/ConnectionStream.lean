import GgLib.ConnectionRecord

/-! The output stream of a connection: what `::write` accepted and what is buffered are
the messages in the order of their `sendInLoop`, and write interest follows the buffer. -/
namespace GgLib

open LabelledSystem TcpConnection

namespace TcpConnection

def sends (queue : List Functor) : List (ℕ × List Byte) :=
  queue.filterMap fun
    | .sendInLoop thread message => some (thread,message)
    | _ => none

@[simp] theorem sends_nil : sends [] = [] := rfl
@[simp] theorem sends_append (fs gs : List Functor) : sends (fs++gs) = sends fs++sends gs :=
  List.filterMap_append
@[simp] theorem sent_append (tr tr' : List Event) : sent (tr++tr') = sent tr++sent tr' :=
  List.filterMap_append
@[simp] theorem accepted_append (tr tr' : List Event) : accepted (tr++tr') = accepted tr++accepted tr' :=
  List.filterMap_append
@[simp] theorem written_append (tr tr' : List Event) : written (tr++tr') = written tr++written tr' :=
  List.flatMap_append
@[simp] theorem sent_nil : sent [] = [] := rfl
@[simp] theorem accepted_nil : accepted [] = [] := rfl
@[simp] theorem written_nil : written [] = [] := rfl
@[simp] theorem written_cons (e : Event) (tr : List Event) :
    written (e::tr) = (match e with
      | .wrote bytes => bytes
      | _ => [])++written tr := by
  cases e <;> rfl
@[simp] theorem sent_cons (e : Event) (tr : List Event) :
    sent (e::tr) = (match e with
      | .sent thread message => [(thread,message)]
      | _ => [])++sent tr := by
  cases e <;> rfl
@[simp] theorem accepted_cons (e : Event) (tr : List Event) :
    accepted (e::tr) = (match e with
      | .accepted thread message => [(thread,message)]
      | _ => [])++accepted tr := by
  cases e <;> rfl
@[simp] theorem ofThread_append (t : ℕ) (ms ms' : List (ℕ × List Byte)) :
    ofThread t (ms++ms') = ofThread t ms++ofThread t ms' := by
  simp [ofThread]
@[simp] theorem ofThread_nil (t : ℕ) : ofThread t [] = [] := rfl
@[simp] theorem ofThread_self (t : ℕ) (m : List Byte) : ofThread t [(t,m)] = [m] := by
  simp [ofThread]
theorem ofThread_other {t t' : ℕ} (h : t' ≠ t) (m : List Byte) : ofThread t [(t',m)] = [] := by
  simp [ofThread,h]

/-- No byte moves: the records of the stream, the buffer and the messages on their way stay. -/
structure Kept (c c' : TcpConnection) : Prop where
  outputBuffer : c'.outputBuffer = c.outputBuffer
  written : written c'.trace = written c.trace
  sent : sent c'.trace = sent c.trace
  accepted : accepted c'.trace = accepted c.trace
  pending : sends c'.pendingFunctors = sends c.pendingFunctors

/-- The stream is left alone, and the connection at most starts to disconnect. -/
structure Quiet (c c' : TcpConnection) : Prop extends Kept c c' where
  writing : c'.channel.isWriting = c.channel.isWriting
  state : c'.state = c.state ∨ (c.state ≠ .kDisconnected ∧ c'.state = .kDisconnecting)

/-- The connection is closed over the bytes that it still holds. -/
structure Shut (c c' : TcpConnection) : Prop extends Kept c c' where
  state : c'.state = .kDisconnected

namespace Kept

variable {c c' c'' : TcpConnection}

theorem same (hbuffer : c'.outputBuffer = c.outputBuffer) (htrace : c'.trace = c.trace)
    (hpending : c'.pendingFunctors = c.pendingFunctors) : Kept c c' :=
  ⟨hbuffer,by rw [htrace],by rw [htrace],by rw [htrace],by rw [hpending]⟩

theorem trans (h : Kept c c') (h' : Kept c' c'') : Kept c c'' where
  outputBuffer := h'.outputBuffer.trans h.outputBuffer
  written := h'.written.trans h.written
  sent := h'.sent.trans h.sent
  accepted := h'.accepted.trans h.accepted
  pending := h'.pending.trans h.pending

theorem record (c : TcpConnection) {e : Event}
    (h : TcpConnection.written [e] = [] ∧ TcpConnection.sent [e] = [] ∧ TcpConnection.accepted [e] = []) :
    Kept c (c.record e) :=
  ⟨rfl,by rw [TcpConnection.record,written_append,h.1,List.append_nil],
    by rw [TcpConnection.record,sent_append,h.2.1,List.append_nil],
    by rw [TcpConnection.record,accepted_append,h.2.2,List.append_nil],rfl⟩

end Kept

theorem sends_of_isOwn {closeCallback : Bool} {f : Functor} (h : f.isOwn closeCallback = true) : sends [f] = [] := by
  cases f <;> simp_all [Functor.isOwn,sends]

theorem records_still {c : TcpConnection} {e : Choice} {t : Task} {ev : Event} (h : t.records c e ev)
    (hmoves : t.moves c = false) : written [ev] = [] ∧ sent [ev] = [] ∧ accepted [ev] = [] := by
  cases ev with
  | accepted thread message =>
    obtain ⟨-,rfl,hs⟩ := h
    exact absurd hs (of_decide_eq_false hmoves)
  | sent thread message => cases hmoves.symm.trans h
  | wrote bytes => cases hmoves.symm.trans h
  | _ => exact ⟨rfl,rfl,rfl⟩

theorem run_kept {server : Option HttpServer} {c : TcpConnection} {e : Choice} {t : Task}
    {p : TcpConnection × List Task} (h : c.run server e t = some p) (hmoves : t.moves c = false) : Kept c p.1 := by
  refine (run_edited h).induct (.same rfl rfl rfl) fun c' d hd hc' => hc'.trans ?_
  cases d with
  | record ev => exact .record c' (records_still hd.2 hmoves)
  | updateChannel channel => exact .trans (.record c' (e:=.update channel.events) ⟨rfl,rfl,rfl⟩) (.same rfl rfl rfl)
  | queueInLoop f =>
    refine ⟨rfl,rfl,rfl,rfl,?_⟩
    show sends (c'.pendingFunctors++[f]) = _
    rw [sends_append,sends_of_isOwn hd,List.append_nil]
  | write bytes => cases hmoves.symm.trans hd.1
  | buffer rest => cases hmoves.symm.trans hd.1
  | retrieveWritten n =>
    obtain rfl : t = .callback .write := hd
    cases hmoves
  | _ => exact .same rfl rfl rfl

/-- A task that moves no bytes and does not close the connection changes the interest in reading at most. -/
theorem updates_writing {c : TcpConnection} {e : Choice} {t : Task} {ch : Channel} (h : t.updates c e ch.events)
    (hmoves : t.moves c = false) (hcloses : ¬ t.closes c e) : ch.isWriting = c.channel.isWriting := by
  have hsame : ∀ ch' : Channel, ch.events = ch'.events → ch.isWriting = ch'.isWriting := fun ch' heq => by
    rw [Channel.isWriting,heq,Channel.isWriting]
  have hstart : Action.startRead.updates c ch.events → ch.isWriting = c.channel.isWriting :=
    fun hr => (hsame _ hr.2).trans (Channel.isWriting_enableReading _)
  have hstop : Action.stopRead.updates c ch.events → ch.isWriting = c.channel.isWriting :=
    fun hr => (hsame _ hr.2).trans (Channel.isWriting_disableReading _)
  cases t with
  | callback cb =>
    cases cb with
    | close => exact absurd (.inl trivial) hcloses
    | error => cases h
    | read => exact absurd (.inl h.1) hcloses
    | write => cases hmoves
  | call a =>
    cases a with
    | send message => exact absurd h.1 (of_decide_eq_false hmoves)
    | startRead => exact hstart h
    | stopRead => exact hstop h
    | connectDestroyed => exact absurd (.inr ⟨rfl,h.1⟩) hcloses
    | _ => cases h
  | functor f =>
    cases f with
    | sendInLoop thread message => cases hmoves
    | forceCloseInLoop => exact absurd (.inl h.1) hcloses
    | startReadInLoop => exact hstart h
    | stopReadInLoop => exact hstop h
    | writeComplete cb =>
      cases cb with
      | optionalDoneHighWaterMarkCallback => exact hstart h
      | user => cases h
    | highWaterMark cb size =>
      cases cb with
      | optionalHighWaterMarkCallback => exact hstop h
      | user => cases h
    | connectDestroyed => exact absurd (.inr ⟨rfl,h.1⟩) hcloses
    | _ => cases h
  | timer i => exact absurd (.inl ⟨h.1,h.2.1⟩) hcloses
  | _ => cases h

/-- What is written and what is buffered are the messages, and write interest stands
exactly while something is buffered. -/
structure Streams (c : TcpConnection) : Prop where
  bytes : written c.trace++c.outputBuffer = (sent c.trace).flatMap (·.2)
  interest : c.channel.isWriting = true ↔ c.outputBuffer ≠ []

theorem Streams.quiet {c c' : TcpConnection} (h : Quiet c c') (hc : Streams c) : Streams c' where
  bytes := by rw [h.written,h.outputBuffer,h.sent]; exact hc.bytes
  interest := by rw [h.writing,h.outputBuffer]; exact hc.interest

/-- The messages join the stream, in their order and whether or not write interest follows
the buffer; the other records stay. -/
structure Grows (c c' : TcpConnection) (messages : List (ℕ × List Byte)) : Prop where
  bytes : written c'.trace++c'.outputBuffer = written c.trace++c.outputBuffer++messages.flatMap (·.2)
  sent : sent c'.trace = sent c.trace++messages
  accepted : accepted c'.trace = accepted c.trace
  pending : sends c'.pendingFunctors = sends c.pendingFunctors

theorem Kept.grows {c c' : TcpConnection} (h : Kept c c') : Grows c c' [] where
  bytes := by rw [h.written,h.outputBuffer]; simp
  sent := by rw [h.sent,List.append_nil]
  accepted := h.accepted
  pending := h.pending

theorem Streams.grows {c c' : TcpConnection} {messages : List (ℕ × List Byte)} (h : Grows c c' messages)
    (hinterest : c'.channel.isWriting = true ↔ c'.outputBuffer ≠ []) (hc : Streams c) : Streams c' where
  bytes := by rw [h.bytes,hc.bytes,h.sent,List.flatMap_append]
  interest := hinterest

theorem sends_crossing (c : TcpConnection) (remaining : List Byte) : sends (c.crossing remaining) = [] := by
  rw [crossing]
  split
  · cases c.highWaterMarkCallback <;> rfl
  · rfl

theorem queueWriteComplete_kept (c : TcpConnection) : Kept c c.queueWriteComplete := by
  have hnone : sends c.completing = [] := by
    rw [completing]
    cases c.writeCompleteCallback <;> rfl
  rw [queueWriteComplete_eq]
  exact ⟨rfl,rfl,rfl,rfl,by rw [sends_append,hnone,List.append_nil]⟩

theorem bufferRest_buffers (c : TcpConnection) (rest : List Byte) :
    (c.bufferRest rest).outputBuffer = c.outputBuffer++rest ∧
      written (c.bufferRest rest).trace = written c.trace ∧ sent (c.bufferRest rest).trace = sent c.trace ∧
      accepted (c.bufferRest rest).trace = accepted c.trace ∧
      sends (c.bufferRest rest).pendingFunctors = sends c.pendingFunctors ∧
      (c.bufferRest rest).channel.isWriting = true := by
  rw [bufferRest_eq]
  cases hw : c.channel.isWriting <;> simp [hw,sends_crossing]

/-- However much `::write` takes, `sendInLoop` puts the message behind the others. -/
theorem sendInLoop_grows {c : TcpConnection} (hs : c.state ≠ .kDisconnected) (thread : ℕ)
    (message : List Byte) {r : WriteResult} (hfault : ∀ errno, r = .failed errno → ¬ errno.isFault) :
    Grows c (c.sendInLoop thread message r) [(thread,message)] := by
  rcases c.sendInLoop_cases hs thread message r with ⟨hd,-,h⟩ | ⟨hd,n,-,-,h⟩ | ⟨-,-,h⟩ | ⟨hor,h⟩ <;> rw [h]
  · have hq := queueWriteComplete_kept ((c.record (.sent thread message)).record (.wrote message))
    refine ⟨?_,?_,?_,?_⟩
    · rw [hq.written,hq.outputBuffer]
      simp [record,hd.2]
    · rw [hq.sent]
      simp [record]
    · rw [hq.accepted]
      simp [record]
    · rw [hq.pending]
      rfl
  · obtain ⟨hbuffer,hwritten,hsent,haccepted,hpending,-⟩ :=
      bufferRest_buffers ((c.record (.sent thread message)).record (.wrote (message.take n))) (message.drop n)
    refine ⟨?_,?_,?_,hpending⟩
    · rw [hbuffer,hwritten]
      simp [record,hd.2]
    · rw [hsent]
      simp [record]
    · rw [haccepted]
      simp [record]
  · obtain ⟨hbuffer,hwritten,hsent,haccepted,hpending,-⟩ :=
      bufferRest_buffers (c.record (.sent thread message)) message
    refine ⟨?_,?_,?_,hpending⟩
    · rw [hbuffer,hwritten]
      simp [record]
    · rw [hsent]
      simp [record]
    · rw [haccepted]
      simp [record]
  · have hempty : message = [] := by
      rcases hor with hor | ⟨errno,hr,hf⟩
      · exact hor
      · exact absurd hf (hfault errno hr)
    subst hempty
    exact ⟨by simp [record],by simp [record],by simp [record],rfl⟩

theorem sendInLoop_interest {c : TcpConnection} (hs : c.state ≠ .kDisconnected) (thread : ℕ)
    (message : List Byte) (r : WriteResult) (hc : c.channel.isWriting = true ↔ c.outputBuffer ≠ []) :
    (c.sendInLoop thread message r).channel.isWriting = true ↔ (c.sendInLoop thread message r).outputBuffer ≠ [] := by
  rcases c.sendInLoop_cases hs thread message r with ⟨hd,-,h⟩ | ⟨-,n,-,hlt,h⟩ | ⟨-,hne,h⟩ | ⟨-,h⟩ <;> rw [h]
  · rw [queueWriteComplete_eq]
    exact hc
  · obtain ⟨hbuffer,-,-,-,-,hw⟩ :=
      bufferRest_buffers ((c.record (.sent thread message)).record (.wrote (message.take n))) (message.drop n)
    rw [hbuffer]
    simp [hw,hlt]
  · obtain ⟨hbuffer,-,-,-,-,hw⟩ := bufferRest_buffers (c.record (.sent thread message)) message
    rw [hbuffer]
    simp [hw,hne]
  · exact hc

/-- The stream takes one more message, the other records stay. -/
structure SendsOne (c c' : TcpConnection) (thread : ℕ) (message : List Byte) : Prop where
  streams : Streams c'
  sent : sent c'.trace = sent c.trace++[(thread,message)]
  accepted : accepted c'.trace = accepted c.trace
  pending : sends c'.pendingFunctors = sends c.pendingFunctors

theorem sendInLoop_sendsOne {c : TcpConnection} (hs : c.state ≠ .kDisconnected) (hc : Streams c)
    (thread : ℕ) (message : List Byte) {r : WriteResult}
    (hfault : ∀ errno, r = .failed errno → ¬ errno.isFault) :
    SendsOne c (c.sendInLoop thread message r) thread message := by
  have hgrows := sendInLoop_grows hs thread message hfault
  exact ⟨hc.grows hgrows (sendInLoop_interest hs thread message r hc.interest),hgrows.sent,hgrows.accepted,
    hgrows.pending⟩

theorem handleWrite_grows (c : TcpConnection) (r : WriteResult) : Grows c (c.handleWrite r).1 [] := by
  rcases c.handleWrite_cases r with h | ⟨-,n,-,-,-,h⟩ | ⟨-,-,-,h⟩ <;> rw [h]
  · exact (Kept.same rfl rfl rfl).grows
  · exact ⟨by simp [retrieveWritten,ByteQueue.dropFront],by simp [retrieveWritten],by simp [retrieveWritten],rfl⟩
  · have hq := queueWriteComplete_kept
      ((c.retrieveWritten c.outputBuffer.length).updateChannel c.channel.disableWriting)
    refine ⟨?_,?_,?_,?_⟩
    · rw [hq.written,hq.outputBuffer]
      simp [updateChannel,retrieveWritten,ByteQueue.dropFront]
    · rw [hq.sent]
      simp [updateChannel,retrieveWritten]
    · rw [hq.accepted]
      simp [updateChannel,retrieveWritten]
    · rw [hq.pending]
      rfl

theorem handleWrite_interest {c : TcpConnection} (r : WriteResult)
    (hc : c.channel.isWriting = true ↔ c.outputBuffer ≠ []) :
    (c.handleWrite r).1.channel.isWriting = true ↔ (c.handleWrite r).1.outputBuffer ≠ [] := by
  rcases c.handleWrite_cases r with h | ⟨hw,n,-,-,hlt,h⟩ | ⟨-,-,-,h⟩ <;> rw [h]
  · exact hc
  · simp [retrieveWritten,ByteQueue.dropFront,hw,hlt]
  · rw [queueWriteComplete_eq]
    simp [updateChannel,retrieveWritten,ByteQueue.dropFront]

theorem handleWrite_streams {c : TcpConnection} (hc : Streams c) (r : WriteResult) :
    Streams (c.handleWrite r).1 ∧ sent (c.handleWrite r).1.trace = sent c.trace ∧
      accepted (c.handleWrite r).1.trace = accepted c.trace ∧
      sends (c.handleWrite r).1.pendingFunctors = sends c.pendingFunctors := by
  have hgrows := handleWrite_grows c r
  exact ⟨hc.grows hgrows (handleWrite_interest r hc.interest),by rw [hgrows.sent,List.append_nil],
    hgrows.accepted,hgrows.pending⟩

/-- A task that moves no bytes leaves the stream alone or closes the connection over it. -/
theorem run_still {server : Option HttpServer} {c : TcpConnection} {e : Choice} {t : Task}
    {p : TcpConnection × List Task} (h : c.run server e t = some p) (hmoves : t.moves c = false) :
    Quiet c p.1 ∨ (Shut c p.1 ∧ t.closes c e) := by
  have hkept := run_kept h hmoves
  by_cases hcloses : t.closes c e
  · exact .inr ⟨⟨hkept,(run_reported h hcloses).1⟩,hcloses⟩
  · refine .inl ⟨hkept,?_,(run_open h hcloses).imp_right fun hs => ⟨live_ne hs.1,hs.2⟩⟩
    refine (run_edited h).induct (I:=fun c' => c'.channel.isWriting = c.channel.isWriting) rfl fun c' d hd hc' => ?_
    cases d with
    | updateChannel channel => exact updates_writing hd hmoves hcloses
    | _ => exact hc'

theorem run_stream {server : Option HttpServer} {c : TcpConnection} {e : Choice} {t : Task}
    {p : TcpConnection × List Task} (h : c.run server e t = some p) :
    (t.moves c = false ∧ (Quiet c p.1 ∨ (Shut c p.1 ∧ t.closes c e))) ∨
      (∃ thread message, t = .functor (.sendInLoop thread message) ∧
        p.1 = c.sendInLoop thread message e.write) ∨
      (∃ message, t = .call (.send message) ∧ c.state = .kConnected ∧
        p.1 = (c.record (.accepted 0 message)).sendInLoop 0 message e.write) ∨
      (t = .callback .write ∧ p.1 = (c.handleWrite e.write).1) := by
  cases hmoves : t.moves c with
  | false => exact .inl ⟨rfl,run_still h hmoves⟩
  | true =>
    right
    cases t with
    | callback cb =>
      cases cb with
      | write =>
        cases h
        exact .inr (.inr ⟨rfl,rfl⟩)
      | _ => cases hmoves
    | call a =>
      cases a with
      | send message =>
        cases h
        have hs : c.state = .kConnected := of_decide_eq_true hmoves
        exact .inr (.inl ⟨message,rfl,hs,by simp [call,hs]⟩)
      | _ => cases hmoves
    | functor f =>
      cases f with
      | sendInLoop thread message =>
        cases h
        exact .inl ⟨thread,message,rfl,rfl⟩
      | _ => cases hmoves
    | _ => cases hmoves

end TcpConnection
namespace World

def inFlight : Pc → List (ℕ × List Byte)
  | .idle => []
  | .storing f => TcpConnection.sends [f]
  | .pushing f => TcpConnection.sends [f]

/-- Every accepted message of a thread is sent, queued or about to be queued, in its order. -/
structure InOrder (w : World) : Prop where
  streams : w.conn.Streams
  order : ∀ t, ofThread t (accepted w.conn.trace) = ofThread t (sent w.conn.trace)++
    ofThread t (sends w.queue)++ofThread t (inFlight (w.threads t))
  own : ∀ t, ∀ m ∈ inFlight (w.threads t), m.1 = t
  loopIdle : w.threads 0 = .idle
  loopQueue : ofThread 0 (sends w.queue) = []

/-- No `::write` of the step fails with `EPIPE` or `ECONNRESET`. -/
def NoFault : Label → Prop
  | .loop e => ∀ errno, e.write = .failed errno → ¬ errno.isFault
  | _ => True

theorem sends_functorsIn {t : Task} (h : ∀ thread message, t ≠ .functor (.sendInLoop thread message))
    (ts : List Task) : sends (functorsIn (t::ts)) = sends (functorsIn ts) := by
  cases t with
  | functor f =>
    cases f with
    | sendInLoop thread message => exact absurd rfl (h thread message)
    | _ => rfl
  | _ => rfl

theorem InOrder.keep {w w' : World} (hw : w.InOrder) (hstreams : w'.conn.Streams)
    (hsent : sent w'.conn.trace = sent w.conn.trace)
    (haccepted : accepted w'.conn.trace = accepted w.conn.trace) (hqueue : sends w'.queue = sends w.queue)
    (hthreads : w'.threads = w.threads) : w'.InOrder where
  streams := hstreams
  order := by rw [hsent,haccepted,hqueue,hthreads]; exact hw.order
  own := by rw [hthreads]; exact hw.own
  loopIdle := by rw [hthreads]; exact hw.loopIdle
  loopQueue := by rw [hqueue]; exact hw.loopQueue

theorem InOrder.thread {w : World} (hw : w.InOrder) {c : TcpConnection} {thread : ℕ} {pc : Pc}
    (hstreams : c.Streams) (hsent : sent c.trace = sent w.conn.trace)
    (haccepted : accepted c.trace = accepted w.conn.trace)
    (hqueue : queue { w with conn := c, threads := Function.update w.threads thread pc } = w.queue)
    (hpc : inFlight pc = inFlight (w.threads thread)) (hzero : thread = 0 → pc = .idle) :
    InOrder { w with conn := c, threads := Function.update w.threads thread pc } := by
  have hflight : ∀ t, inFlight (Function.update w.threads thread pc t) = inFlight (w.threads t) := by
    intro t
    by_cases ht : t = thread
    · subst ht
      rw [Function.update_self,hpc]
    · rw [Function.update_of_ne ht]
  refine ⟨hstreams,fun t => ?_,fun t => ?_,?_,?_⟩
  · show ofThread t (accepted c.trace) = ofThread t (sent c.trace)++_++ofThread t (inFlight
      (Function.update w.threads thread pc t))
    rw [hsent,haccepted,hqueue,hflight]
    exact hw.order t
  · rw [hflight]
    exact hw.own t
  · show Function.update w.threads thread pc 0 = .idle
    by_cases h0 : 0 = thread
    · rw [h0,Function.update_self,hzero h0.symm]
    · rw [Function.update_of_ne h0,hw.loopIdle]
  · rw [hqueue]
    exact hw.loopQueue

theorem InOrder.accept {w : World} (hw : w.InOrder) {thread : ℕ} (hthread : thread ≠ 0)
    (hidle : w.threads thread = .idle) (message : List Byte) :
    InOrder { w with
      conn := w.conn.record (.accepted thread message)
      threads := Function.update w.threads thread (.pushing (.sendInLoop thread message)) } := by
  refine ⟨⟨by simpa [record] using hw.streams.bytes,hw.streams.interest⟩,fun t => ?_,fun t => ?_,?_,hw.loopQueue⟩
  · have horder := hw.order t
    show ofThread t (accepted (w.conn.trace++[_])) = ofThread t (sent (w.conn.trace++[_]))++
      ofThread t (sends w.queue)++ofThread t (inFlight (Function.update w.threads thread _ t))
    by_cases ht : t = thread
    · subst ht
      rw [hidle] at horder
      simp only [accepted_append,sent_append,ofThread_append,horder,Function.update_self]
      simp [inFlight,sends]
    · rw [Function.update_of_ne ht]
      simp only [accepted_append,sent_append,ofThread_append,horder]
      simp [ofThread_other (Ne.symm ht)]
  · by_cases ht : t = thread
    · subst ht
      simp [inFlight,sends]
    · show ∀ m ∈ inFlight (Function.update w.threads thread _ t), m.1 = t
      rw [Function.update_of_ne ht]
      exact hw.own t
  · show Function.update w.threads thread _ 0 = .idle
    rw [Function.update_of_ne hthread.symm,hw.loopIdle]

/-- Another thread pushes its functor. -/
theorem InOrder.push {w : World} (hw : w.InOrder) {thread : ℕ} {f : Functor}
    (hpc : w.threads thread = .pushing f) :
    InOrder { w with
      conn := w.conn.queueInLoop f
      threads := Function.update w.threads thread .idle } := by
  have hqueue : queue { w with
      conn := w.conn.queueInLoop f
      threads := Function.update w.threads thread .idle } = w.queue++[f] := by
    simp [queue,queueInLoop]
  have hthread : thread ≠ 0 := by
    intro h0
    rw [h0,hw.loopIdle] at hpc
    cases hpc
  have hown := hw.own thread
  rw [hpc] at hown
  have hother : ∀ t, t ≠ thread → ofThread t (sends [f]) = [] := by
    intro t ht
    cases f with
    | sendInLoop thread' message =>
      have hsame : thread' = thread := hown (thread',message) (by simp [inFlight,sends])
      exact ofThread_other (by rw [hsame]; exact Ne.symm ht) message
    | _ => rfl
  refine ⟨⟨hw.streams.bytes,hw.streams.interest⟩,fun t => ?_,fun t => ?_,?_,?_⟩
  · have horder := hw.order t
    rw [hqueue]
    show ofThread t (accepted w.conn.trace) = ofThread t (sent w.conn.trace)++_++
      ofThread t (inFlight (Function.update w.threads thread .idle t))
    rw [horder,sends_append,ofThread_append]
    by_cases ht : t = thread
    · subst ht
      simp [hpc,inFlight]
    · rw [Function.update_of_ne ht,hother t ht,List.append_nil]
  · by_cases ht : t = thread
    · subst ht
      simp [inFlight]
    · show ∀ m ∈ inFlight (Function.update w.threads thread .idle t), m.1 = t
      rw [Function.update_of_ne ht]
      exact hw.own t
  · show Function.update w.threads thread _ 0 = .idle
    rw [Function.update_of_ne hthread.symm,hw.loopIdle]
  · rw [hqueue,sends_append,ofThread_append,hw.loopQueue,hother 0 hthread.symm]
    rfl

theorem established_inOrder (highWaterMarkCallback : Option HighWaterMarkCallback) (highWaterMark : ℕ)
    (writeCompleteCallback : Option WriteCompleteCallback) :
    (established highWaterMarkCallback highWaterMark writeCompleteCallback).InOrder := by
  refine ⟨⟨rfl,?_⟩,fun t => rfl,fun t m hm => ?_,rfl,rfl⟩
  · have hw : (established highWaterMarkCallback highWaterMark writeCompleteCallback).conn.channel.isWriting =
        false := by
      show (Channel.create.enableReading).isWriting = false
      decide
    rw [hw]
    simp [established,connectEstablished,create,setState,updateChannel,record]
  · cases hm

theorem sends_queue_run {server : Option HttpServer} {w : World} {e : Choice} {t : Task} {ts : List Task}
    {p : TcpConnection × List Task} (htodo : w.todo = t::ts) (h : w.conn.run server e t = some p)
    (hsend : ∀ thread message, t ≠ .functor (.sendInLoop thread message))
    (hpending : sends p.1.pendingFunctors = sends w.conn.pendingFunctors) :
    sends (queue { w with conn := p.1, todo := p.2++ts }) = sends w.queue := by
  rw [queue_run h,queue,htodo,sends_append,sends_append,sends_append,sends_append,hpending,
    sends_functorsIn hsend]

theorem run_inOrder {server : Option HttpServer} {w : World} {e : Choice} {t : Task} {ts : List Task}
    {p : TcpConnection × List Task} (hl : NoFault (.loop e)) (htodo : w.todo = t::ts)
    (h : w.conn.run server e t = some p) (hstate : w.conn.state ≠ .kDisconnected)
    (hstate' : p.1.state ≠ .kDisconnected) (hw : w.InOrder) :
    InOrder { w with conn := p.1, todo := p.2++ts } := by
  rcases run_stream h with ⟨hmoves,hq | ⟨hshut,-⟩⟩ | ⟨thread,message,rfl,hp⟩ | ⟨message,rfl,hc,hp⟩ | ⟨rfl,hp⟩
  · have hsend : ∀ thread message, t ≠ .functor (.sendInLoop thread message) := by
      rintro thread message rfl
      cases hmoves
    exact hw.keep (.quiet hq hw.streams) hq.sent hq.accepted (sends_queue_run htodo h hsend hq.pending) rfl
  · exact absurd hshut.state hstate'
  · have hone := sendInLoop_sendsOne hstate hw.streams thread message hl
    rw [← hp] at hone
    have hqueue : sends w.queue =
        (thread,message)::sends (queue { w with conn := p.1, todo := p.2++ts }) := by
      rw [queue_run h,queue,htodo,functorsIn_functor,sends_append,sends_append,sends_append,sends_append,
        hone.pending]
      rfl
    refine ⟨hone.streams,fun t => ?_,hw.own,hw.loopIdle,?_⟩
    · have horder := hw.order t
      rw [hqueue,← List.singleton_append,ofThread_append] at horder
      show ofThread t (accepted p.1.trace) = _
      rw [hone.accepted,horder,hone.sent,ofThread_append]
      simp
    · have hloop := hw.loopQueue
      rw [hqueue,← List.singleton_append,ofThread_append] at hloop
      exact (List.append_eq_nil_iff.mp hloop).2
  · have hstreams : (w.conn.record (.accepted 0 message)).Streams :=
      ⟨by simpa [record] using hw.streams.bytes,hw.streams.interest⟩
    have hone := sendInLoop_sendsOne (c:=w.conn.record (.accepted 0 message)) hstate hstreams 0 message hl
    rw [← hp] at hone
    have hqueue := sends_queue_run htodo h (by simp) hone.pending
    refine ⟨hone.streams,fun t => ?_,hw.own,hw.loopIdle,?_⟩
    · have horder := hw.order t
      rw [hqueue]
      show ofThread t (accepted p.1.trace) = ofThread t (sent p.1.trace)++_++_
      rw [hone.accepted,hone.sent]
      simp only [record,accepted_append,sent_append,ofThread_append,horder]
      -- only the loop thread has a new message, and none of its own in the queue or in flight
      by_cases ht : t = 0
      · subst ht
        simp [hw.loopQueue,hw.loopIdle,inFlight]
      · simp [ofThread_other (Ne.symm ht)]
    · rw [hqueue]
      exact hw.loopQueue
  · obtain ⟨hstreams,hsent,haccepted,hpending⟩ := handleWrite_streams hw.streams e.write
    rw [← hp] at hstreams hsent haccepted hpending
    exact hw.keep hstreams hsent haccepted (sends_queue_run htodo h (by simp) hpending) rfl

theorem threadCall_messages {c : TcpConnection} {thread : ℕ} {a : Action} {p : TcpConnection × Pc}
    (h : threadCall c thread a = some p) :
    (∃ message, p = (c.record (.accepted thread message),.pushing (.sendInLoop thread message))) ∨
      (p.1 = c ∧ inFlight p.2 = []) := by
  rcases threadCall_cases h with ⟨message,-,-,rfl⟩ | rfl | ⟨f,rfl,hf⟩ | ⟨f,rfl,-,hf⟩
  · exact .inl ⟨message,rfl⟩
  · exact .inr ⟨rfl,rfl⟩
  · refine .inr ⟨rfl,?_⟩
    simp only [List.mem_cons,Prod.mk.injEq,List.not_mem_nil,or_false] at hf
    rcases hf with ⟨-,rfl⟩ | ⟨-,rfl⟩ | ⟨-,rfl⟩ | ⟨-,rfl⟩ <;> rfl
  · refine .inr ⟨rfl,?_⟩
    simp only [List.mem_cons,Prod.mk.injEq,List.not_mem_nil,or_false] at hf
    rcases hf with ⟨-,rfl⟩ | ⟨-,rfl⟩ | ⟨-,rfl⟩ | ⟨-,rfl⟩ <;> rfl

theorem step_inOrder {server : Option HttpServer} {w w' : World} {l : Label} (hl : NoFault l)
    (hstate : w.conn.state ≠ .kDisconnected) (hstate' : w'.conn.state ≠ .kDisconnected)
    (hs : w.Swapped) (hw : w.InOrder) (h : step server w l = some w') : w'.InOrder := by
  rcases step_cases h with ⟨e,t,ts,p,rfl,htodo,hp,rfl⟩ | ⟨e,rfl,htodo,ht⟩ |
    ⟨thread,a,p,rfl,hthread,hidle,hp,rfl⟩ | ⟨thread,p,rfl,hp,rfl⟩
  · exact run_inOrder hl htodo hp hstate hstate' hw
  · obtain ⟨-,hqueue⟩ := turn_queue ht htodo hs
    obtain ⟨hconn,hthreads⟩ := turn_conn ht
    refine hw.keep ?_ ?_ ?_ (by rw [hqueue]) hthreads
    · rw [hconn]
      exact ⟨hw.streams.bytes,hw.streams.interest⟩
    · rw [hconn]
    · rw [hconn]
  · rcases threadCall_messages hp with ⟨message,rfl⟩ | ⟨hc,hnone⟩
    · refine hw.accept hthread hidle message
    · exact hw.thread (by rw [hc]; exact hw.streams) (by rw [hc]) (by rw [hc]) (by rw [queue,hc]; rfl)
        (by rw [hnone,hidle]; rfl) (fun h0 => absurd h0 hthread)
  · rcases threadAdvance_cases hp with ⟨next,hpc,rfl⟩ | ⟨f,hpc,rfl⟩
    · exact hw.thread ⟨hw.streams.bytes,hw.streams.interest⟩ rfl rfl rfl (by rw [hpc]; rfl)
        (fun h0 => by rw [h0,hw.loopIdle] at hpc; cases hpc)
    · exact hw.push hpc

/-- From `connectEstablished` until the connection is disconnected, with any calls from any
threads, any write results but `EPIPE` and `ECONNRESET`, and any order of the loop's steps:
the bytes written and buffered are the messages in the order of their `sendInLoop`; the
messages of each thread are sent in its call order, and those accepted but not sent yet
are still queued or about to be; there is write interest exactly while bytes are buffered. -/
theorem output_stream (server : Option HttpServer) (highWaterMarkCallback : Option HighWaterMarkCallback)
    (highWaterMark : ℕ) (writeCompleteCallback : Option WriteCompleteCallback)
    {labels : List Label} {w : World}
    (h : Run (step server) (established highWaterMarkCallback highWaterMark writeCompleteCallback) labels w)
    (hfault : ∀ l ∈ labels, NoFault l)
    (hlive : Throughout (step server) (fun w => w.conn.state ≠ .kDisconnected)
      (established highWaterMarkCallback highWaterMark writeCompleteCallback) labels) :
    written w.conn.trace++w.conn.outputBuffer = (sent w.conn.trace).flatMap (·.2) ∧
      (∀ t, ofThread t (accepted w.conn.trace) = ofThread t (sent w.conn.trace)++
        ofThread t (sends w.queue)++ofThread t (inFlight (w.threads t))) ∧
      (w.conn.channel.isWriting = true ↔ w.conn.outputBuffer ≠ []) := by
  have hinv : w.Swapped ∧ w.InOrder := by
    refine h.invariant_throughout (I:=fun w => w.Swapped ∧ w.InOrder) (C:=NoFault) ?_ hfault hlive ?_
    · intro s l t hl hs ht hI hstep
      exact ⟨step_swapped hI.1 hstep,step_inOrder hl hs ht hI.1 hI.2 hstep⟩
    · exact ⟨fun hne => absurd rfl hne,established_inOrder highWaterMarkCallback highWaterMark writeCompleteCallback⟩
  exact ⟨hinv.2.streams.bytes,hinv.2.order,hinv.2.streams.interest⟩

/-- Two threads send; the first message is written in three parts, the second is buffered. -/
def twoThreads : List Label :=
  [.loop {},.call 1 (.send [1,2,3]),.advance 1,.loop {},.loop {},.loop {},.loop {},
    .loop { write := .wrote 1 },.call 2 (.send [4,5]),.loop {},.loop { active := [.conn Channel.POLLOUT] },
    .loop {},.advance 2,.loop { write := .wrote 1 },.loop {},.loop {},.loop { write := .failed .EWOULDBLOCK }]

theorem faultFree_iff (r : WriteResult) : (∀ errno, r = .failed errno → ¬ errno.isFault) ↔
    r ≠ .failed .EPIPE ∧ r ≠ .failed .ECONNRESET := by
  constructor
  · exact fun h => ⟨fun hr => h _ hr (.inl rfl),fun hr => h _ hr (.inr rfl)⟩
  · rintro ⟨hpipe,hreset⟩ errno hr (rfl | rfl)
    · exact hpipe hr
    · exact hreset hr

instance (r : WriteResult) : Decidable (∀ errno, r = .failed errno → ¬ errno.isFault) :=
  decidable_of_iff _ (faultFree_iff r).symm

instance (l : Label) : Decidable (NoFault l) :=
  match l with
  | .loop e => inferInstanceAs (Decidable (∀ errno, e.write = .failed errno → ¬ errno.isFault))
  | .call _ _ => isTrue trivial
  | .advance _ => isTrue trivial

theorem output_stream_twoThreads :
    ∃ w, exec (step none) (established none 64 none) twoThreads = some w ∧ w.conn.outputBuffer = [3,4,5] ∧
      written w.conn.trace++w.conn.outputBuffer = (sent w.conn.trace).flatMap (·.2) := by
  obtain ⟨w,hw⟩ : ∃ w, exec (step none) (established none 64 none) twoThreads = some w :=
    Option.isSome_iff_exists.mp (by decide +kernel)
  have hbuffer : (exec (step none) (established none 64 none) twoThreads).map (·.conn.outputBuffer) =
      some [3,4,5] := by decide +kernel
  rw [hw] at hbuffer
  exact ⟨w,hw,Option.some.inj hbuffer,
    (output_stream none none 64 none ((run_iff_exec _ _ _ _).mpr hw) (by decide) (by decide +kernel)).1⟩

end World
end GgLib
