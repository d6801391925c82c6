import GgLib.ConnectionLoop

/-! Back pressure: the high-water functor switches reading off, the write-complete
functor switches it on again. What the queued functors will make of `reading_` and
`writeCompleteCallback_` carries the invariant. -/
namespace GgLib

open LabelledSystem TcpConnection

namespace TcpConnection

abbrev Valve := Bool × Option WriteCompleteCallback

/-- What a queued functor will do to them. -/
def effect (v : Valve) : Functor → Valve
  | .highWaterMark .optionalHighWaterMarkCallback _ => (false,some .optionalDoneHighWaterMarkCallback)
  | .writeComplete .optionalDoneHighWaterMarkCallback => (true,none)
  | .startReadInLoop => (true,v.2)
  | .stopReadInLoop => (false,v.2)
  | _ => v

/-- What all functors of a queue will have done. -/
def settle (queue : List Functor) (v : Valve) : Valve := queue.foldl effect v

/-- A functor that only the repository's own back pressure needs. -/
def Functor.known : Functor → Bool
  | .stopReadInLoop => false
  | .writeComplete .user => false
  | .highWaterMark .user _ => false
  | _ => true

/-- The functor that `optionalHighWaterMarkCallback` was bound into. -/
def Functor.isHighWater : Functor → Bool
  | .highWaterMark .optionalHighWaterMarkCallback _ => true
  | _ => false

theorem settle_append (q q' : List Functor) (v : Valve) : settle (q++q') v = settle q' (settle q v) :=
  List.foldl_append

theorem settle_reading (q : List Functor) (r : Bool) (w : Option WriteCompleteCallback) :
    settle q (r,w) = settle q (true,w) ∨
      ((settle q (r,w)).2 = (settle q (true,w)).2 ∧ (settle q (true,w)).1 = true) := by
  induction q with
  | nil => exact .inr ⟨rfl,rfl⟩
  | cons f q ih =>
    cases f with
    | highWaterMark cb size =>
      cases cb with
      | optionalHighWaterMarkCallback => exact .inl rfl
      | user => exact ih
    | writeComplete cb =>
      cases cb with
      | optionalDoneHighWaterMarkCallback => exact .inl rfl
      | user => exact ih
    | startReadInLoop => exact .inl rfl
    | stopReadInLoop => exact .inl rfl
    | _ => exact ih

theorem settle_none {q : List Functor} (h : ∀ f ∈ q, f.isHighWater = false)
    (r : Bool) : (settle q (r,none)).2 = none := by
  induction q generalizing r with
  | nil => rfl
  | cons f q ih =>
    have hq : ∀ g ∈ q, g.isHighWater = false := fun g hg => h g (.tail _ hg)
    have hf := h f (.head _)
    cases f with
    | highWaterMark cb size =>
      cases cb with
      | optionalHighWaterMarkCallback => cases hf
      | user => exact ih hq r
    | writeComplete cb =>
      cases cb with
      | optionalDoneHighWaterMarkCallback => exact ih hq true
      | user => exact ih hq r
    | startReadInLoop => exact ih hq true
    | stopReadInLoop => exact ih hq false
    | _ => exact ih hq r

/-- Once the queue has run, reading is on, or bytes are buffered behind which the
write-complete callback will switch it on. -/
structure Throttled (c : TcpConnection) (q : List Functor) : Prop where
  hook : c.highWaterMarkCallback = none ∨ c.highWaterMarkCallback = some .optionalHighWaterMarkCallback
  complete : c.writeCompleteCallback = none ∨
    c.writeCompleteCallback = some .optionalDoneHighWaterMarkCallback
  known : ∀ f ∈ q, f.known = true
  sync : c.channel.isReading = c.reading
  interest : c.channel.isWriting = true ↔ c.outputBuffer ≠ []
  settled : (settle q (c.reading,c.writeCompleteCallback)).1 = false →
    c.outputBuffer ≠ [] ∧ (settle q (c.reading,c.writeCompleteCallback)).2 =
      some .optionalDoneHighWaterMarkCallback

/-- The two agree in everything that matters for back pressure but the queue. -/
structure SameValve (c c' : TcpConnection) : Prop where
  hook : c'.highWaterMarkCallback = c.highWaterMarkCallback
  complete : c'.writeCompleteCallback = c.writeCompleteCallback
  reading : c'.reading = c.reading
  isReading : c'.channel.isReading = c.channel.isReading
  isWriting : c'.channel.isWriting = c.channel.isWriting
  outputBuffer : c'.outputBuffer = c.outputBuffer

theorem SameValve.refl (c : TcpConnection) : SameValve c c := ⟨rfl,rfl,rfl,rfl,rfl,rfl⟩

namespace Throttled

variable {c c' : TcpConnection} {q q' : List Functor} {f : Functor}

theorem same (h : Throttled c q) (hs : SameValve c c') : Throttled c' q where
  hook := by rw [hs.hook]; exact h.hook
  complete := by rw [hs.complete]; exact h.complete
  known := h.known
  sync := by rw [hs.isReading,hs.reading]; exact h.sync
  interest := by rw [hs.isWriting,hs.outputBuffer]; exact h.interest
  settled := by rw [hs.reading,hs.complete,hs.outputBuffer]; exact h.settled

theorem push (h : Throttled c q) (hf : f.known = true) (hmark : f.isHighWater = false) :
    Throttled c (q++[f]) := by
  refine ⟨h.hook,h.complete,?_,h.sync,h.interest,?_⟩
  · intro g hg
    rcases List.mem_append.mp hg with hg | hg
    · exact h.known g hg
    · rwa [List.mem_singleton.mp hg]
  · rw [settle_append]
    intro hoff
    cases f with
    | highWaterMark cb size =>
      cases cb with
      | optionalHighWaterMarkCallback => cases hmark
      | user => cases hf
    | writeComplete cb =>
      cases cb with
      | optionalDoneHighWaterMarkCallback => cases hoff
      | user => cases hf
    | startReadInLoop => cases hoff
    | stopReadInLoop => cases hf
    | _ => exact h.settled hoff

theorem pop (h : Throttled c (f::q)) (hhook : c'.highWaterMarkCallback = c.highWaterMarkCallback)
    (hcomplete : c'.writeCompleteCallback = none ∨
      c'.writeCompleteCallback = some .optionalDoneHighWaterMarkCallback)
    (hsync : c'.channel.isReading = c'.reading) (hwriting : c'.channel.isWriting = c.channel.isWriting)
    (hbuffer : c'.outputBuffer = c.outputBuffer)
    (hvalve : (c'.reading,c'.writeCompleteCallback) = effect (c.reading,c.writeCompleteCallback) f) :
    Throttled c' q where
  hook := by rw [hhook]; exact h.hook
  complete := hcomplete
  known := fun g hg => h.known g (.tail _ hg)
  sync := hsync
  interest := by rw [hwriting,hbuffer]; exact h.interest
  settled := by rw [hvalve,hbuffer]; exact h.settled

theorem pop_same (h : Throttled c (f::q)) (hs : SameValve c c')
    (hinert : effect (c.reading,c.writeCompleteCallback) f = (c.reading,c.writeCompleteCallback)) :
    Throttled c' q := by
  refine h.pop hs.hook ?_ ?_ hs.isWriting hs.outputBuffer ?_
  · rw [hs.complete]
    exact h.complete
  · rw [hs.isReading,hs.reading]
    exact h.sync
  · rw [hs.reading,hs.complete,hinert]

end Throttled

/-- Reading is switched and nothing else changes. -/
structure SwitchesReading (c c' : TcpConnection) (on : Bool) : Prop where
  reading : c'.reading = on
  isReading : c'.channel.isReading = on
  isWriting : c'.channel.isWriting = c.channel.isWriting
  outputBuffer : c'.outputBuffer = c.outputBuffer
  complete : c'.writeCompleteCallback = c.writeCompleteCallback
  hook : c'.highWaterMarkCallback = c.highWaterMarkCallback
  pending : c'.pendingFunctors = c.pendingFunctors
  state : c'.state = c.state

theorem startReadInLoop_switches (c : TcpConnection) : SwitchesReading c c.startReadInLoop true := by
  rw [startReadInLoop]
  split
  · exact ⟨rfl,Channel.isReading_enableReading _,Channel.isWriting_enableReading _,rfl,rfl,rfl,rfl,rfl⟩
  · rename_i hon
    simp only [Bool.or_eq_true,Bool.not_eq_true',not_or,Bool.not_eq_false] at hon
    exact ⟨hon.1,hon.2,rfl,rfl,rfl,rfl,rfl,rfl⟩

theorem stopReadInLoop_switches (c : TcpConnection) : SwitchesReading c c.stopReadInLoop false := by
  rw [stopReadInLoop]
  split
  · exact ⟨rfl,Channel.isReading_disableReading _,Channel.isWriting_disableReading _,rfl,rfl,rfl,rfl,rfl⟩
  · rename_i hoff
    simp only [Bool.or_eq_true,not_or,Bool.not_eq_true] at hoff
    exact ⟨hoff.1,hoff.2,rfl,rfl,rfl,rfl,rfl,rfl⟩

theorem Throttled.startRead {c : TcpConnection} {q : List Functor} (h : Throttled c q) :
    Throttled c.startReadInLoop q := by
  have hs := startReadInLoop_switches c
  refine ⟨by rw [hs.hook]; exact h.hook,by rw [hs.complete]; exact h.complete,h.known,
    by rw [hs.isReading,hs.reading],by rw [hs.isWriting,hs.outputBuffer]; exact h.interest,?_⟩
  rw [hs.reading,hs.complete,hs.outputBuffer]
  intro hoff
  rcases settle_reading q c.reading c.writeCompleteCallback with heq | ⟨-,hon⟩
  · rw [← heq] at hoff ⊢
    exact h.settled hoff
  · rw [hon] at hoff
    cases hoff

theorem Throttled.highWater {c : TcpConnection} {q : List Functor} {size : ℕ}
    (h : Throttled c (.highWaterMark .optionalHighWaterMarkCallback size::q)) :
    Throttled c.optionalHighWaterMarkCallback q := by
  have hs := stopReadInLoop_switches c
  refine h.pop hs.hook (.inr rfl) ?_ hs.isWriting hs.outputBuffer ?_
  · exact hs.isReading.trans hs.reading.symm
  · exact Prod.ext hs.reading rfl

theorem Throttled.writeComplete {c : TcpConnection} {q : List Functor}
    (h : Throttled c (.writeComplete .optionalDoneHighWaterMarkCallback::q)) :
    Throttled c.optionalDoneHighWaterMarkCallback q := by
  have hs := startReadInLoop_switches c
  refine h.pop hs.hook (.inl rfl) ?_ hs.isWriting hs.outputBuffer ?_
  · exact hs.isReading.trans hs.reading.symm
  · exact Prod.ext hs.reading rfl

theorem Throttled.startReadFunctor {c : TcpConnection} {q : List Functor}
    (h : Throttled c (.startReadInLoop::q)) : Throttled c.startReadInLoop q := by
  have hs := startReadInLoop_switches c
  refine h.pop hs.hook (by rw [hs.complete]; exact h.complete) ?_ hs.isWriting hs.outputBuffer ?_
  · exact hs.isReading.trans hs.reading.symm
  · exact Prod.ext hs.reading hs.complete

theorem Throttled.still {c c' : TcpConnection} {q : List Functor} (h : Throttled c (q++c.pendingFunctors))
    (hs : SameValve c c') (hpending : c'.pendingFunctors = c.pendingFunctors) :
    Throttled c' (q++c'.pendingFunctors) := by
  rw [hpending]
  exact h.same hs

theorem Throttled.queueInLoop {c : TcpConnection} {q : List Functor} {f : Functor}
    (h : Throttled c (q++c.pendingFunctors)) (hf : f.known = true) (hmark : f.isHighWater = false) :
    Throttled (c.queueInLoop f) (q++(c.queueInLoop f).pendingFunctors) := by
  have hpush := h.push hf hmark
  rw [List.append_assoc] at hpush
  exact hpush.same ⟨rfl,rfl,rfl,rfl,rfl,rfl⟩

theorem Throttled.queueWriteComplete {c : TcpConnection} {q : List Functor}
    (h : Throttled c (q++c.pendingFunctors)) :
    Throttled c.queueWriteComplete (q++c.queueWriteComplete.pendingFunctors) := by
  rcases h.complete with hcb | hcb
  · rw [queueWriteComplete_none hcb]
    exact h
  · rw [queueWriteComplete_some hcb]
    exact h.queueInLoop rfl rfl

/-- When bytes are buffered, crossing the mark queues the functor that stops reading. -/
theorem Throttled.bufferRest {c : TcpConnection} {q : List Functor} {rest : List Byte}
    (h : Throttled c (q++c.pendingFunctors)) (hne : rest ≠ []) :
    Throttled (c.bufferRest rest) (q++(c.bufferRest rest).pendingFunctors) := by
  have hcross : c.crossing rest = [] ∨
      ∃ size, c.crossing rest = [.highWaterMark .optionalHighWaterMarkCallback size] := by
    rw [crossing]
    split
    · rcases h.hook with hcb | hcb <;> rw [hcb]
      · exact .inl rfl
      · exact .inr ⟨_,rfl⟩
    · exact .inl rfl
  have hvalve : ∀ v, (settle (c.crossing rest) v).1 = false →
      v = settle (c.crossing rest) v ∨ (settle (c.crossing rest) v).2 = some .optionalDoneHighWaterMarkCallback := by
    intro v hoff
    rcases hcross with hc | ⟨size,hc⟩ <;> rw [hc]
    · exact .inl rfl
    · exact .inr rfl
  rw [bufferRest_eq]
  refine ⟨h.hook,h.complete,?_,?_,?_,?_⟩
  · intro f hf
    rw [← List.append_assoc] at hf
    rcases List.mem_append.mp hf with hf | hf
    · exact h.known f hf
    · rcases hcross with hc | ⟨size,hc⟩ <;> rw [hc] at hf
      · cases hf
      · rw [List.mem_singleton.mp hf]
        rfl
  · show (if c.channel.isWriting then c.channel else c.channel.enableWriting).isReading = c.reading
    split
    · exact h.sync
    · rw [Channel.isReading_enableWriting]
      exact h.sync
  · simp only [ne_eq,List.append_eq_nil_iff,hne,and_false,not_false_eq_true,iff_true]
    split
    · assumption
    · exact Channel.isWriting_enableWriting _
  · show (settle (q++(c.pendingFunctors++c.crossing rest)) _).1 = false → c.outputBuffer++rest ≠ [] ∧ _
    rw [← List.append_assoc,settle_append]
    intro hoff
    refine ⟨by simp [hne],?_⟩
    rcases hvalve _ hoff with heq | hdone
    · rw [← heq] at hoff ⊢
      exact (h.settled hoff).2
    · exact hdone

theorem Throttled.sendInLoop {c : TcpConnection} {q : List Functor} (hs : c.state ≠ .kDisconnected)
    (thread : ℕ) (message : List Byte) (r : WriteResult) (h : Throttled c (q++c.pendingFunctors)) :
    Throttled (c.sendInLoop thread message r) (q++(c.sendInLoop thread message r).pendingFunctors) := by
  have hrecord : ∀ e : Event, Throttled (c.record e) (q++(c.record e).pendingFunctors) :=
    fun e => h.same ⟨rfl,rfl,rfl,rfl,rfl,rfl⟩
  have htwice : ∀ e e' : Event, Throttled ((c.record e).record e') (q++((c.record e).record e').pendingFunctors) :=
    fun e e' => h.same ⟨rfl,rfl,rfl,rfl,rfl,rfl⟩
  rcases c.sendInLoop_cases hs thread message r with ⟨-,-,he⟩ | ⟨-,n,-,hlt,he⟩ | ⟨-,hne,he⟩ | ⟨-,he⟩ <;>
    rw [he]
  · exact (htwice _ _).queueWriteComplete
  · have hrest : message.drop n ≠ [] := by simpa using hlt
    exact (htwice _ _).bufferRest hrest
  · exact (hrecord _).bufferRest hne
  · exact hrecord _

/-- `handleWrite` would drain the buffer while the write-complete callback is empty and a
high-water functor is queued. -/
def Strands (c : TcpConnection) (r : WriteResult) (q : List Functor) : Prop :=
  c.channel.isWriting = true ∧ r.count c.outputBuffer.length = .ok c.outputBuffer.length ∧
    c.writeCompleteCallback = none ∧ ∃ f ∈ q, f.isHighWater = true

theorem Throttled.handleWrite {c : TcpConnection} {q : List Functor} {r : WriteResult}
    (h : Throttled c (q++c.pendingFunctors)) (hdrain : ¬ c.Strands r (q++c.pendingFunctors)) :
    Throttled (c.handleWrite r).1 (q++(c.handleWrite r).1.pendingFunctors) := by
  rcases c.handleWrite_cases r with he | ⟨hw,n,-,-,hlt,he⟩ | ⟨hw,hall,hne,he⟩ <;> rw [he]
  · exact h
  · have hrest : c.outputBuffer.drop n ≠ [] := by simpa using hlt
    exact ⟨h.hook,h.complete,h.known,h.sync,⟨fun _ => hrest,fun _ => hw⟩,fun hoff => ⟨hrest,(h.settled hoff).2⟩⟩
  · -- the queue may still switch reading off only if a high-water functor is in it
    have hon : c.writeCompleteCallback = none →
        (settle (q++c.pendingFunctors) (c.reading,c.writeCompleteCallback)).1 = true := by
      intro hcb
      rw [← Bool.not_eq_false]
      intro hoff
      have hdone := (h.settled hoff).2
      rw [hcb] at hdone hoff
      have hmark : ∀ f ∈ q++c.pendingFunctors, f.isHighWater = false := by
        intro f hf
        rw [← Bool.not_eq_true]
        exact fun hhigh => hdrain ⟨hw,hall,hcb,f,hf,hhigh⟩
      rw [settle_none hmark] at hdone
      cases hdone
    have hempty : c.outputBuffer.dropFront c.outputBuffer.length = [] := List.drop_length
    have hcallback : ((c.retrieveWritten c.outputBuffer.length).updateChannel
        c.channel.disableWriting).writeCompleteCallback = c.writeCompleteCallback := rfl
    have hdrained : ∀ q', (∀ f ∈ q', f.known = true) →
        (settle q' (c.reading,c.writeCompleteCallback)).1 = true →
        Throttled ((c.retrieveWritten c.outputBuffer.length).updateChannel c.channel.disableWriting) q' := by
      intro q' hknown hon'
      refine ⟨h.hook,h.complete,hknown,?_,?_,?_⟩
      · exact (Channel.isReading_disableWriting _).trans h.sync
      · show c.channel.disableWriting.isWriting = true ↔ c.outputBuffer.dropFront c.outputBuffer.length ≠ []
        simp [hempty]
      · intro hoff
        cases hon'.symm.trans hoff
    rcases h.complete with hcb | hcb
    · rw [queueWriteComplete_none (hcallback.trans hcb)]
      exact hdrained _ h.known (hon hcb)
    · rw [queueWriteComplete_some (hcallback.trans hcb)]
      have hknown := (h.push (f:=.writeComplete .optionalDoneHighWaterMarkCallback) rfl rfl).known
      have hdone := hdrained _ hknown (by rw [settle_append]; rfl)
      rw [List.append_assoc] at hdone
      exact hdone.same ⟨rfl,rfl,rfl,rfl,rfl,rfl⟩

theorem shutdownInLoop_same (c : TcpConnection) :
    SameValve c c.shutdownInLoop ∧ c.shutdownInLoop.pendingFunctors = c.pendingFunctors := by
  rw [shutdownInLoop]
  split
  · exact ⟨⟨rfl,rfl,rfl,rfl,rfl,rfl⟩,rfl⟩
  · exact ⟨.refl c,rfl⟩

/-- A call that leaves back pressure to the repository. -/
def Action.leavesPressure : Action → Bool
  | .stopRead => false
  | .setWriteCompleteCallback _ => false
  | .setHighWaterMarkCallback _ _ => false
  | _ => true

theorem call_throttled {c : TcpConnection} {e : Choice} {a : Action} {q : List Functor}
    (hstate : (c.call e.write a).1.state = .kConnected) (hleaves : a.leavesPressure = true)
    (h : c.state = .kConnected → Throttled c (q++c.pendingFunctors)) :
    Throttled (c.call e.write a).1 (q++(c.call e.write a).1.pendingFunctors) := by
  cases a with
  | send message =>
    rw [call] at hstate ⊢
    by_cases hc : c.state = .kConnected
    · simp only [hc,if_true]
      have hk : Throttled (c.record (.accepted 0 message)) (q++(c.record (.accepted 0 message)).pendingFunctors) :=
        (h hc).still ⟨rfl,rfl,rfl,rfl,rfl,rfl⟩ rfl
      exact hk.sendInLoop (by simp [record,hc]) 0 message e.write
    · simp only [hc,if_false] at hstate
  | shutdown =>
    rw [call] at hstate
    split at hstate
    · simp [setState] at hstate
    · contradiction
  | shutdownAndForceCloseAfter =>
    rw [call] at hstate
    split at hstate
    · simp [shutdownAndForceCloseInLoop,runAfter,setState] at hstate
    · contradiction
  | forceClose => exact absurd hstate (forceClose_state c)
  | forceCloseWithDelay =>
    rw [call] at hstate
    split at hstate
    · simp [runAfter,setState] at hstate
    · rename_i hne
      exact absurd (.inl hstate) hne
  | startRead =>
    have hs := startReadInLoop_switches c
    have hk := (h (hs.state.symm.trans hstate)).startRead
    show Throttled c.startReadInLoop (q++c.startReadInLoop.pendingFunctors)
    rw [hs.pending]
    exact hk
  | stopRead => cases hleaves
  | setWriteCompleteCallback cb => cases hleaves
  | setHighWaterMarkCallback cb mark => cases hleaves
  | retrieve n => exact (h hstate).still ⟨rfl,rfl,rfl,rfl,rfl,rfl⟩ rfl
  | connectDestroyed => exact absurd hstate (connectDestroyed_state c)
  | queueInLoop => exact (h hstate).queueInLoop rfl rfl

/-- A functor does what the queue counted on. -/
theorem runFunctor_throttled {c : TcpConnection} {e : Choice} {f : Functor} {q : List Functor}
    (hstate : (c.runFunctor e f).1.state = .kConnected)
    (h : c.state = .kConnected → Throttled c (f::(q++c.pendingFunctors))) :
    Throttled (c.runFunctor e f).1 (q++(c.runFunctor e f).1.pendingFunctors) := by
  have hpop : ∀ c', SameValve c c' → c'.pendingFunctors = c.pendingFunctors →
      effect (c.reading,c.writeCompleteCallback) f = (c.reading,c.writeCompleteCallback) →
      c.state = .kConnected → Throttled c' (q++c'.pendingFunctors) := by
    intro c' hs hpending hinert hc
    rw [hpending]
    exact (h hc).pop_same hs hinert
  cases f with
  | sendInLoop thread message =>
    have hc : c.state = .kConnected := (sendInLoop_state c thread message e.write).symm.trans hstate
    exact (hpop c (.refl c) rfl rfl hc).sendInLoop (by simp [hc]) thread message e.write
  | shutdownInLoop =>
    obtain ⟨hs,hpending⟩ := shutdownInLoop_same c
    exact hpop _ hs hpending rfl ((shutdownInLoop_state c).symm.trans hstate)
  | shutdownAndForceCloseInLoop =>
    obtain ⟨hs,hpending⟩ := shutdownInLoop_same c
    have hk := hpop _ hs hpending rfl ((shutdownInLoop_state c).symm.trans hstate)
    exact hk.same ⟨rfl,rfl,rfl,rfl,rfl,rfl⟩
  | forceCloseInLoop => exact absurd hstate (forceCloseInLoop_state c)
  | startReadInLoop =>
    have hs := startReadInLoop_switches c
    show Throttled c.startReadInLoop (q++c.startReadInLoop.pendingFunctors)
    rw [hs.pending]
    exact (h (hs.state.symm.trans hstate)).startReadFunctor
  | stopReadInLoop =>
    have hknown := (h ((stopReadInLoop_state c).symm.trans hstate)).known .stopReadInLoop (by simp)
    cases hknown
  | addTimer cb => exact hpop (c.runAfter cb) ⟨rfl,rfl,rfl,rfl,rfl,rfl⟩ rfl rfl hstate
  | writeComplete cb =>
    cases cb with
    | optionalDoneHighWaterMarkCallback =>
      have hs := startReadInLoop_switches c
      have hpending : c.optionalDoneHighWaterMarkCallback.pendingFunctors = c.pendingFunctors := hs.pending
      show Throttled c.optionalDoneHighWaterMarkCallback (q++c.optionalDoneHighWaterMarkCallback.pendingFunctors)
      rw [hpending]
      exact (h (hs.state.symm.trans hstate)).writeComplete
    | user =>
      have hknown := (h hstate).known (.writeComplete .user) (by simp)
      cases hknown
  | highWaterMark cb size =>
    cases cb with
    | optionalHighWaterMarkCallback =>
      have hs := stopReadInLoop_switches c
      have hpending : c.optionalHighWaterMarkCallback.pendingFunctors = c.pendingFunctors := hs.pending
      show Throttled c.optionalHighWaterMarkCallback (q++c.optionalHighWaterMarkCallback.pendingFunctors)
      rw [hpending]
      exact (h (hs.state.symm.trans hstate)).highWater
    | user =>
      have hknown := (h hstate).known (.highWaterMark .user size) (by simp)
      cases hknown
  | connectDestroyed => exact absurd hstate (connectDestroyed_state c)
  | user => exact hpop c (.refl c) rfl rfl hstate

/-- One task keeps the invariant, as long as the connection stays connected. -/
theorem run_throttled {server : Option HttpServer} {c : TcpConnection} {e : Choice} {t : Task}
    {p : TcpConnection × List Task} {rest : List Functor} (hrun : c.run server e t = some p)
    (hstate : p.1.state = .kConnected) (hcall : ∀ a, t = .call a → a.leavesPressure = true)
    (hdrain : t = .callback .write → ¬ c.Strands e.write (rest++c.pendingFunctors))
    (h : c.state = .kConnected → Throttled c (functorsIn [t]++rest++c.pendingFunctors)) :
    Throttled p.1 (rest++p.1.pendingFunctors) := by
  cases t with
  | callback cb =>
    cases cb with
    | close =>
      cases hrun
      cases hstate
    | error =>
      cases hrun
      exact h hstate
    | read =>
      cases hrun
      rcases hr : e.read with ⟨_ | ⟨x,xs⟩⟩ | _ <;> rw [hr] at hstate
      · cases hstate
      · exact Throttled.still (h hstate) ⟨rfl,rfl,rfl,rfl,rfl,rfl⟩ rfl
      · exact h hstate
    | write =>
      cases hrun
      rw [handleWrite_state] at hstate
      exact Throttled.handleWrite (h hstate) (hdrain rfl)
  | finishWrite =>
    cases hrun
    rw [finishWrite_state] at hstate
    have hne : c.state ≠ .kDisconnecting := by simp [hstate]
    rw [finishWrite,if_neg hne]
    exact h hstate
  | messageCallback =>
    rcases runMessageCallback_cases hrun with ⟨-,rfl⟩ | ⟨s,context,x,-,-,-,rfl⟩
    · exact h hstate
    · exact Throttled.still (h hstate) ⟨rfl,rfl,rfl,rfl,rfl,rfl⟩ rfl
  | connectionCallback =>
    cases hrun
    cases server with
    | none => exact h hstate
    | some s =>
      have hc : c.state = .kConnected := by
        rw [runConnectionCallback] at hstate
        split at hstate
        · assumption
        · exact hstate
      have hk := h hc
      simp only [runConnectionCallback,hc,if_true]
      exact ⟨.inr rfl,hk.complete,hk.known,hk.sync,hk.interest,hk.settled⟩
  | closeCallback =>
    cases hrun
    by_cases hloop : e.serverLoop = true
    · simp only [hloop,if_true] at hstate ⊢
      exact Throttled.queueInLoop (h hstate) rfl rfl
    · simp only [hloop] at hstate ⊢
      exact h hstate
  | removeChannel =>
    cases hrun
    exact Throttled.still (h hstate) ⟨rfl,rfl,rfl,rfl,rfl,rfl⟩ rfl
  | call a =>
    cases hrun
    exact call_throttled hstate (hcall a rfl) h
  | functor f =>
    cases hrun
    exact runFunctor_throttled hstate h
  | timer i =>
    cases hrun
    simp only [runTimer] at hstate ⊢
    split at hstate
    · exact absurd hstate (forceCloseInLoop_state _)
    · exact absurd hstate (forceClose_state _)
    · exact h hstate
  | other =>
    cases hrun
    exact h hstate

end TcpConnection
namespace World

/-- Nobody but the repository stops reading or installs these callbacks. -/
def LeavesPressure : Label → Prop
  | .loop e => ∀ a ∈ e.acts, a.leavesPressure = true
  | .call _ a => a.leavesPressure = true
  | .advance _ => True

/-- The step is a `handleWrite` that strands the connection. -/
def Strands (w : World) : Label → Prop
  | .loop e => w.todo.head? = some (.callback .write) ∧ w.conn.Strands e.write w.queue
  | _ => False

def unpushed : Pc → Option Functor
  | .idle => none
  | .storing f => some f
  | .pushing f => some f

structure Pressured (w : World) : Prop where
  calls : ∀ a, .call a ∈ w.todo → a.leavesPressure = true
  threads : ∀ t, ∀ f ∈ unpushed (w.threads t), f.known = true ∧ f.isHighWater = false
  throttled : w.conn.state = .kConnected → w.conn.Throttled w.queue

theorem threadCall_pressure {c : TcpConnection} {thread : ℕ} {a : Action} {p : TcpConnection × Pc}
    (h : threadCall c thread a = some p) (ha : a.leavesPressure = true) :
    (p.1.state = c.state ∧ SameValve c p.1 ∧ p.1.pendingFunctors = c.pendingFunctors) ∧
      ∀ f ∈ unpushed p.2, f.known = true ∧ f.isHighWater = false := by
  have hpc : ∀ (b : Prop) [Decidable b] (f : Functor), f.known = true → f.isHighWater = false →
      ∀ g ∈ unpushed (if b then .storing f else .idle), g.known = true ∧ g.isHighWater = false := by
    intro b _ f hf hmark g hg
    split at hg
    · cases hg
      exact ⟨hf,hmark⟩
    · cases hg
  cases a with
  | send message =>
    simp only [threadCall,Option.some.injEq] at h
    split at h <;> subst h
    · refine ⟨⟨rfl,⟨rfl,rfl,rfl,rfl,rfl,rfl⟩,rfl⟩,fun f hf => ?_⟩
      cases hf
      exact ⟨rfl,rfl⟩
    · exact ⟨⟨rfl,.refl c,rfl⟩,fun f hf => (by cases hf)⟩
  | shutdown => cases h; exact ⟨⟨rfl,.refl c,rfl⟩,hpc _ _ rfl rfl⟩
  | shutdownAndForceCloseAfter => cases h; exact ⟨⟨rfl,.refl c,rfl⟩,hpc _ _ rfl rfl⟩
  | forceClose => cases h; exact ⟨⟨rfl,.refl c,rfl⟩,hpc _ _ rfl rfl⟩
  | forceCloseWithDelay => cases h; exact ⟨⟨rfl,.refl c,rfl⟩,hpc _ _ rfl rfl⟩
  | startRead =>
    cases h
    exact ⟨⟨rfl,.refl c,rfl⟩,fun f hf => by cases hf; exact ⟨rfl,rfl⟩⟩
  | connectDestroyed =>
    cases h
    exact ⟨⟨rfl,.refl c,rfl⟩,fun f hf => by cases hf; exact ⟨rfl,rfl⟩⟩
  | queueInLoop =>
    cases h
    exact ⟨⟨rfl,.refl c,rfl⟩,fun f hf => by cases hf; exact ⟨rfl,rfl⟩⟩
  | stopRead => cases ha
  | setWriteCompleteCallback cb => cases ha
  | setHighWaterMarkCallback cb mark => cases ha
  | retrieve n => cases h

theorem functor_update {threads : ℕ → Pc} {P : Functor → Prop} {thread : ℕ} {pc : Pc}
    (h : ∀ t, ∀ f ∈ unpushed (threads t), P f) (hpc : ∀ f ∈ unpushed pc, P f) (t : ℕ) :
    ∀ f ∈ unpushed (Function.update threads thread pc t), P f := by
  by_cases ht : t = thread
  · rw [ht,Function.update_self]
    exact hpc
  · rw [Function.update_of_ne ht]
    exact h t

theorem step_pressured {server : Option HttpServer} {w w' : World} {l : Label} (hl : LeavesPressure l)
    (hdrain : ¬ w.Strands l) (hs : w.Swapped) (hw : w.Pressured) (h : step server w l = some w') :
    w'.Pressured := by
  rcases step_cases h with ⟨e,t,ts,p,rfl,htodo,hp,rfl⟩ | ⟨e,rfl,htodo,ht⟩ |
    ⟨thread,a,p,rfl,hthread,hidle,hp,rfl⟩ | ⟨thread,p,rfl,hp,rfl⟩
  · have hqueue : w.queue = functorsIn [t]++(functorsIn ts++w.functors)++w.conn.pendingFunctors := by
      rw [queue,htodo,← List.singleton_append (l:=ts),functorsIn_append,List.append_assoc (functorsIn [t])]
    refine ⟨fun a ha => ?_,hw.threads,fun hstate => ?_⟩
    · rcases List.mem_append.mp ha with ha | ha
      · rcases run_follows hp _ ha with ha | ⟨message,rfl⟩ | rfl
        · exact hl a ha
        · rfl
        · rfl
      · exact hw.calls a (by rw [htodo]; exact .tail _ ha)
    · rw [queue_run hp]
      refine run_throttled hp hstate (fun a ha => hw.calls a (by rw [htodo,ha]; exact .head _)) ?_ ?_
      · rintro rfl hstrands
        refine hdrain ⟨by rw [htodo]; rfl,?_⟩
        rw [hqueue]
        exact hstrands
      · intro hc
        rw [← hqueue]
        exact hw.throttled hc
  · obtain ⟨-,hqueue⟩ := turn_queue ht htodo hs
    obtain ⟨hconn,hthreads⟩ := turn_conn ht
    refine ⟨fun a ha => absurd ha (turn_calls ht htodo a),by rw [hthreads]; exact hw.threads,?_⟩
    rw [hqueue,hconn]
    exact fun hc => (hw.throttled hc).same ⟨rfl,rfl,rfl,rfl,rfl,rfl⟩
  · obtain ⟨⟨hstate,hsame,hpending⟩,hf⟩ := threadCall_pressure hp hl
    refine ⟨hw.calls,functor_update hw.threads hf,fun hc => ?_⟩
    have hqueue : queue { w with conn := p.1, threads := Function.update w.threads thread p.2 } = w.queue := by
      rw [queue,hpending]
      rfl
    rw [hqueue]
    exact (hw.throttled (hstate.symm.trans hc)).same hsame
  · rcases threadAdvance_cases hp with ⟨next,hpc,rfl⟩ | ⟨f,hpc,rfl⟩
    · have hnext := hw.threads thread
      rw [hpc] at hnext
      exact ⟨hw.calls,functor_update hw.threads hnext,fun hc => by cases hc⟩
    · have hnext := hw.threads thread f (by rw [hpc]; rfl)
      refine ⟨hw.calls,functor_update hw.threads (fun g hg => by cases hg),fun hc => ?_⟩
      have hqueue : queue { w with
          conn := w.conn.queueInLoop f
          threads := Function.update w.threads thread .idle } = w.queue++[f] := by
        simp [queue,queueInLoop]
      rw [hqueue]
      exact ((hw.throttled hc).push hnext.1 hnext.2).same ⟨rfl,rfl,rfl,rfl,rfl,rfl⟩

theorem established_pressured (mark : ℕ) :
    (established (some .optionalHighWaterMarkCallback) mark none).Pressured := by
  refine ⟨fun a ha => ?_,fun t f hf => (by cases hf),fun _ => ?_⟩
  · simp [established,connectEstablished] at ha
  · have hr : (Channel.create.enableReading).isReading = true := by decide
    have hw : (Channel.create.enableReading).isWriting = false := by decide
    refine ⟨.inr rfl,.inl rfl,fun f hf => (by cases hf),hr,?_,?_⟩
    · show (Channel.create.enableReading).isWriting = true ↔ ([] : ByteQueue) ≠ []
      simp [hw]
    · intro hoff
      cases hoff

/-- In every run in which no `handleWrite` strands the connection: whenever the loop is
about to poll with nothing queued and the connection is connected with reading off, bytes
are buffered, write interest is on, and draining them switches reading on. -/
theorem reading_resumes (server : Option HttpServer) (mark : ℕ) {labels : List Label} {w : World}
    (h : Run (step server) (established (some .optionalHighWaterMarkCallback) mark none) labels w)
    (hothers : ∀ l ∈ labels, LeavesPressure l)
    (hdrain : Along (step server) (fun w l => ¬ w.Strands l)
      (established (some .optionalHighWaterMarkCallback) mark none) labels)
    (hphase : w.phase = .polling) (htodo : w.todo = []) (hpending : w.conn.pendingFunctors = [])
    (hstate : w.conn.state = .kConnected)
    (hoff : w.conn.reading = false ∨ w.conn.channel.isReading = false) :
    w.conn.outputBuffer ≠ [] ∧ w.conn.channel.isWriting = true ∧
      w.conn.writeCompleteCallback = some .optionalDoneHighWaterMarkCallback := by
  have hinv : w.Swapped ∧ w.Pressured := by
    refine h.invariant_along (I:=fun w => w.Swapped ∧ w.Pressured) ?_ ((Along.of_labels hothers).and hdrain) ?_
    · intro s l t hI hC hstep
      exact ⟨step_swapped hI.1 hstep,step_pressured hC.1 hC.2 hI.1 hI.2 hstep⟩
    · exact ⟨fun hne => absurd rfl hne,established_pressured mark⟩
  have hk := hinv.2.throttled hstate
  have hqueue : w.queue = [] := by
    rw [queue,htodo,hpending,hinv.1 (by rw [hphase]; decide)]
    rfl
  rw [hqueue] at hk
  have hreading : w.conn.reading = false := hoff.elim id fun hr => hk.sync.symm.trans hr
  obtain ⟨hbuffer,hdone⟩ := hk.settled hreading
  exact ⟨hbuffer,hk.interest.mpr hbuffer,hdone⟩

instance (w : World) (l : Label) : Decidable (w.Strands l) :=
  match l with
  | .loop _ => inferInstanceAs (Decidable (_ ∧ _ ∧ _ ∧ _ ∧ _))
  | .call _ _ => isFalse id
  | .advance _ => isFalse id

instance (l : Label) : Decidable (LeavesPressure l) :=
  match l with
  | .loop _ => inferInstanceAs (Decidable (∀ a ∈ _, _))
  | .call _ _ => inferInstanceAs (Decidable (_ = true))
  | .advance _ => isTrue trivial

/-- A message callback sends five bytes over a mark of four, one of them is written. -/
def crossed : List Label :=
  [.loop {},.loop {},.loop { active := [.conn Channel.POLLIN] },.loop {},.loop { read := .received [1] },
    .loop { acts := [.send [1,2,3,4,5]] },.loop { write := .wrote 1 },.loop {},.loop {},.loop {},.loop {}]

theorem reading_resumes_crossed :
    ∃ w, exec (step none) (established (some .optionalHighWaterMarkCallback) 4 none) crossed = some w ∧
      w.conn.reading = false ∧ w.conn.outputBuffer ≠ [] ∧
      w.conn.writeCompleteCallback = some .optionalDoneHighWaterMarkCallback := by
  obtain ⟨w,hw⟩ : ∃ w, exec (step none) (established (some .optionalHighWaterMarkCallback) 4 none) crossed =
      some w := Option.isSome_iff_exists.mp (by decide +kernel)
  have hstate : (exec (step none) (established (some .optionalHighWaterMarkCallback) 4 none) crossed).map
      (fun w => (w.phase,w.todo,w.conn.pendingFunctors,w.conn.state,w.conn.reading)) =
        some (.polling,[],[],.kConnected,false) := by decide +kernel
  rw [hw] at hstate
  simp only [Option.map_some,Option.some.injEq,Prod.mk.injEq] at hstate
  obtain ⟨hphase,htodo,hpending,hconnected,hoff⟩ := hstate
  obtain ⟨hbuffer,-,hdone⟩ := reading_resumes none 4 ((run_iff_exec _ _ _ _).mpr hw) (by decide)
    (by decide +kernel) hphase htodo hpending hconnected (.inl hoff)
  exact ⟨w,hw,hoff,hbuffer,hdone⟩

/-- A readable and a writable connection in one poll result: the message callback's send
reaches the mark, then `handleWrite` drains all with no write-complete callback yet. -/
def drainedFirst : List Label :=
  [.loop {},.loop {},.loop { active := [.conn Channel.POLLIN] },.loop {},.loop { read := .received [1] },
    .loop { acts := [.send [1,2,3]] },.loop { write := .wrote 0 },.loop {},.loop {},
    .loop { active := [.conn (Channel.POLLIN ||| Channel.POLLOUT)] },.loop {},.loop { read := .received [1] },
    .loop { acts := [.send [4]] },.loop {},.loop { write := .wrote 4 },.loop {},.loop {},.loop {},.loop {},.loop {}]

/-- Then the high-water functor stops reading behind an empty buffer. -/
theorem reading_wedges :
    ¬ ∀ (server : Option HttpServer) (mark : ℕ) (labels : List Label) (w : World),
      Run (step server) (established (some .optionalHighWaterMarkCallback) mark none) labels w →
      (∀ l ∈ labels, LeavesPressure l) → w.phase = .polling → w.todo = [] → w.conn.pendingFunctors = [] →
      w.conn.state = .kConnected → w.conn.reading = false →
      w.conn.outputBuffer ≠ [] ∧ w.conn.channel.isWriting = true ∧
        w.conn.writeCompleteCallback = some .optionalDoneHighWaterMarkCallback := by
  intro h
  obtain ⟨w,hw⟩ : ∃ w, exec (step none) (established (some .optionalHighWaterMarkCallback) 4 none) drainedFirst =
      some w := Option.isSome_iff_exists.mp (by decide +kernel)
  have hstate : (exec (step none) (established (some .optionalHighWaterMarkCallback) 4 none) drainedFirst).map
      (fun w => (w.phase,w.todo,w.conn.pendingFunctors,w.conn.state,w.conn.reading)) =
        some (.polling,[],[],.kConnected,false) := by decide +kernel
  have hbuffer : (exec (step none) (established (some .optionalHighWaterMarkCallback) 4 none) drainedFirst).map
      (·.conn.outputBuffer) = some [] := by decide +kernel
  rw [hw] at hstate hbuffer
  simp only [Option.map_some,Option.some.injEq,Prod.mk.injEq] at hstate hbuffer
  obtain ⟨hphase,htodo,hpending,hconnected,hoff⟩ := hstate
  exact (h none 4 drainedFirst w ((run_iff_exec _ _ _ _).mpr hw) (by decide) hphase htodo hpending
    hconnected hoff).1 hbuffer

end World
end GgLib
