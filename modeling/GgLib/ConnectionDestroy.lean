import GgLib.ConnectionFinal
import GgLib.ConnectionRecord

/-! What `connectDestroyed` finishes. It treats one state of the connection, so what it
leaves depends on the state and on the interest that the methods before it left. -/
namespace GgLib

open LabelledSystem TcpConnection

namespace TcpConnection

/-- A call of `connectionCallback_`: that of `connectEstablished` reports UP, those of
`handleClose` and of `connectDestroyed` report DOWN. -/
def Event.isReport : Event → Bool
  | .connectionCallback => true
  | .handleClose => true
  | _ => false

def reports (trace : List Event) : List Event := trace.filter Event.isReport

/-- The life of the connection is over. -/
structure Finished (c : TcpConnection) : Prop where
  state : c.state = .kDisconnected
  channel : c.channel.isNoneEvent = true
  reports : ∃ down, reports c.trace = [.connectionCallback,down]

def Task.startsRead : Task → Bool
  | .call .startRead => true
  | .functor .startReadInLoop => true
  | .functor (.writeComplete .optionalDoneHighWaterMarkCallback) => true
  | _ => false

def Task.stopsRead : Task → Bool
  | .call .stopRead => true
  | .functor .stopReadInLoop => true
  | .functor (.highWaterMark .optionalHighWaterMarkCallback _) => true
  | _ => false

/-- `connectDestroyed` comes while the connection disconnects, or a connection that is
disconnected is closed or read again. -/
def Task.spoils (c : TcpConnection) (e : Choice) (t : Task) : Prop :=
  (c.state = .kDisconnecting ∧ t.destroys = true) ∨
    (c.state = .kDisconnected ∧ (t.startsRead = true ∨ t.closesNow c e))

/-- A connection before `Channel::remove`: it was reported UP, and is finished once it is
disconnected. -/
structure Living (c : TcpConnection) : Prop where
  established : c.state ≠ .kConnecting
  up : c.state ≠ .kDisconnected → reports c.trace = [.connectionCallback]
  down : c.state = .kDisconnected → Finished c

@[simp] theorem reports_append (es fs : List Event) : reports (es++fs) = reports es++reports fs :=
  List.filter_append es fs

theorem isReport_of_not_loud {ev : Event} (h : ev.loud = false) : ev.isReport = false := by
  cases ev <;> first | rfl | cases h

theorem reports_eq_nil {es : List Event} (h : ∀ ev ∈ es, ev.isReport = false) : reports es = [] :=
  List.filter_eq_nil_iff.mpr fun ev hev => by simp [h ev hev]

/-- All that brings the interest of a connection that has none and is not connected back. -/
theorem updates_idle {c : TcpConnection} {e : Choice} {t : Task} {events : BitVec 32}
    (hs : c.state ≠ .kConnected) (hnone : c.channel.events = Channel.kNoneEvent) (h : t.updates c e events) :
    t.startsRead = true ∨ (t.stopsRead = true ∧ c.reading = true ∧ events = Channel.kNoneEvent) ∨
      (t.closesNow c e ∧ events = Channel.kNoneEvent) ∨
      (c.state ≠ .kDisconnected ∧ ∃ thread message, t = .functor (.sendInLoop thread message)) := by
  have hreading : c.channel.isReading = false := by simp [Channel.isReading,hnone,Channel.kNoneEvent]
  have hwriting : c.channel.isWriting = false := by simp [Channel.isWriting,hnone,Channel.kNoneEvent]
  have hdisable : c.channel.disableReading.events = Channel.kNoneEvent := by
    simp [Channel.disableReading,Channel.update,hnone,Channel.kNoneEvent]
  have hstop : Action.stopRead.updates c events → c.reading = true ∧ events = Channel.kNoneEvent := by
    rintro ⟨hr | hr,heq⟩
    · exact ⟨hr,heq.trans hdisable⟩
    · cases hreading.symm.trans hr
  cases t with
  | callback cb =>
    cases cb with
    | close => exact .inr (.inr (.inl ⟨trivial,h⟩))
    | error => cases h
    | read => exact .inr (.inr (.inl h))
    | write => cases hwriting.symm.trans h.1
  | call a =>
    cases a with
    | send message => exact absurd h.1 hs
    | startRead => exact .inl rfl
    | stopRead => exact .inr (.inl ⟨rfl,hstop h⟩)
    | connectDestroyed => exact absurd h.1 hs
    | _ => cases h
  | functor f =>
    cases f with
    | sendInLoop thread message => exact .inr (.inr (.inr ⟨h.1,thread,message,rfl⟩))
    | forceCloseInLoop => exact .inr (.inr (.inl h))
    | startReadInLoop => exact .inl rfl
    | stopReadInLoop => exact .inr (.inl ⟨rfl,hstop h⟩)
    | writeComplete cb =>
      cases cb with
      | optionalDoneHighWaterMarkCallback => exact .inl rfl
      | user => cases h
    | highWaterMark cb size =>
      cases cb with
      | optionalHighWaterMarkCallback => exact .inr (.inl ⟨rfl,hstop h⟩)
      | user => cases h
    | connectDestroyed => exact absurd h.1 hs
    | _ => cases h
  | timer i => exact .inr (.inr (.inl ⟨⟨h.1,h.2.1⟩,h.2.2⟩))
  | _ => cases h

/-- A disconnected connection without interest gets one only from `startReadInLoop`. -/
theorem updates_disconnected {c : TcpConnection} {e : Choice} {t : Task} {events : BitVec 32}
    (hs : c.state = .kDisconnected) (hnone : c.channel.events = Channel.kNoneEvent)
    (hstart : t.startsRead = false) (h : t.updates c e events) : events = Channel.kNoneEvent := by
  rcases updates_idle (by simp [hs]) hnone h with hstarts | ⟨-,-,hevents⟩ | ⟨-,hevents⟩ | ⟨hne,-⟩
  · cases hstart.symm.trans hstarts
  · exact hevents
  · exact hevents
  · exact absurd hs hne

theorem foldl_interest_none {es : List Event} (h : ∀ events, .update events ∈ es → events = Channel.kNoneEvent) :
    es.foldl Event.interest Channel.kNoneEvent = Channel.kNoneEvent := by
  induction es with
  | nil => rfl
  | cons ev es ih =>
    have hev : Event.interest Channel.kNoneEvent ev = Channel.kNoneEvent := by
      cases ev with
      | update events => exact h events (.head _)
      | _ => rfl
    rw [List.foldl_cons,hev]
    exact ih fun events hmem => h events (.tail _ hmem)

theorem run_removes {server : Option HttpServer} {c : TcpConnection} {e : Choice} {t : Task}
    {p : TcpConnection × List Task} (h : c.run server e t = some p) (hremove : .removeChannel ∈ p.2) :
    t.destroys = true := run_leadsTo h .removeChannel hremove

theorem Finished.removed {c : TcpConnection} (h : Finished c) :
    Finished (({ c with channel := c.channel.remove } : TcpConnection).record .remove) where
  state := h.state
  channel := h.channel
  reports := by simpa [record,TcpConnection.reports,Event.isReport] using h.reports

theorem Living.same {c c' : TcpConnection} (hc : Living c) (hstate : c'.state = c.state)
    (hchannel : c'.channel = c.channel) (hreports : reports c'.trace = reports c.trace) : Living c' where
  established := hstate ▸ hc.established
  up := fun hs => hreports.trans (hc.up (hstate ▸ hs))
  down := fun hs => by
    obtain ⟨-,hnone,hdown⟩ := hc.down (hstate ▸ hs)
    exact ⟨hs,hchannel ▸ hnone,hreports ▸ hdown⟩

/-- A task that is no second close and opens no reading again, up to `Channel::remove`. -/
theorem Living.run {server : Option HttpServer} {c : TcpConnection} {e : Choice} {t : Task}
    {p : TcpConnection × List Task} (hc : Living c) (ht : ¬ t.spoils c e) (h : c.run server e t = some p) :
    Living p.1 := by
  obtain ⟨es,hes,hrecords,hevents⟩ := (run_appends h).trace
  constructor
  · rcases run_state h with hst | ⟨-,hst⟩ | hst <;> rw [hst]
    · exact hc.established
    · decide
    · decide
  · intro hs
    rcases run_closes h with ⟨hmute,-⟩ | ⟨-,hclosed,-⟩ | ⟨-,hclosed | ⟨hst,htrace⟩⟩
    · obtain ⟨es,hes,hquiet⟩ := hmute.trace
      have hreports : reports es = [] := reports_eq_nil fun ev hev => isReport_of_not_loud (hquiet ev hev)
      rw [hes,reports_append,hreports,List.append_nil]
      exact hc.up fun hd => hs (hmute.state hd)
    · exact absurd hclosed.1 hs
    · exact absurd hclosed.1 hs
    · rw [htrace,reports_append]
      exact (List.append_nil _).trans (hc.up fun hd => hs (hst.trans hd))
  · intro hs
    by_cases hd : c.state = .kDisconnected
    · have hfinished := hc.down hd
      have hnone : c.channel.events = Channel.kNoneEvent := of_decide_eq_true hfinished.channel
      have hstart : t.startsRead = false := Bool.eq_false_iff.mpr fun h => ht (.inr ⟨hd,.inl h⟩)
      have hreports : reports es = [] := by
        refine reports_eq_nil fun ev hev => ?_
        cases ev with
        | handleClose => exact absurd (.inr ⟨hd,.inr (hrecords _ hev)⟩) ht
        | connectionCallback => cases hd.symm.trans (hrecords _ hev).2
        | _ => rfl
      refine ⟨hs,decide_eq_true ?_,?_⟩
      · rw [hevents,hnone]
        exact foldl_interest_none fun events hmem => updates_disconnected hd hnone hstart (hrecords _ hmem)
      · rw [hes,reports_append,hreports,List.append_nil]
        exact hfinished.reports
    · rcases run_disconnects h hs with hd' | ⟨ev,hev,htrace⟩
      · exact absurd hd' hd
      · obtain rfl := List.append_cancel_left (hes.symm.trans htrace)
        refine ⟨hs,decide_eq_true ?_,ev,?_⟩
        · rcases hev with rfl | rfl <;> exact hevents
        · rw [htrace,reports_append,hc.up hd]
          rcases hev with rfl | rfl <;> rfl

end TcpConnection

namespace World

/-- The step brings the connection out of what `connectDestroyed` expects. -/
def Spoils (w : World) : Label → Prop
  | .loop e => ∃ t ∈ w.todo.head?, t.spoils w.conn e
  | l => w.StoresOver l

/-- The next task is the first `Channel::remove`. -/
def Removes (w : World) : Prop := w.todo.head? = some .removeChannel ∧ .remove ∉ w.conn.trace

/-- Until the first `Channel::remove`, which waits only for a disconnected connection. -/
structure Registered (w : World) : Prop where
  living : Living w.conn
  removing : .removeChannel ∈ w.todo → w.conn.state = .kDisconnected

theorem step_registered {server : Option HttpServer} {w w' : World} {l : Label} (hw : w.Registered)
    (hl : ¬ w.Spoils l) (h : step server w l = some w') : w'.Registered := by
  rcases step_cases h with ⟨e,t,ts,p,rfl,htodo,hp,rfl⟩ | ⟨e,rfl,htodo,ht⟩ | ⟨thread,a,p,rfl,-,-,hp,rfl⟩ |
    ⟨thread,p,rfl,hp,rfl⟩
  · have hspoils : ¬ t.spoils w.conn e := fun hs => hl ⟨t,by rw [htodo]; rfl,hs⟩
    refine ⟨hw.living.run hspoils hp,fun hmem => ?_⟩
    rcases List.mem_append.mp hmem with hmem | hmem
    · have hdestroys := run_removes hp hmem
      cases hs : w.conn.state with
      | kConnecting => exact absurd hs hw.living.established
      | kConnected =>
        rw [run_destroys hp hdestroys,connectDestroyed,if_pos hs]
        rfl
      | kDisconnecting => exact absurd (.inl ⟨hs,hdestroys⟩) hspoils
      | kDisconnected => exact run_final hp hs
    · exact run_final hp (hw.removing (by rw [htodo]; exact .tail _ hmem))
  · obtain ⟨hconn,-⟩ := turn_conn ht
    constructor
    · rw [hconn]
      exact hw.living.same rfl rfl rfl
    · intro hmem
      rcases (turn_todo ht htodo).1 with h | ⟨a,-,h⟩ | ⟨f,-,h⟩ <;> rw [h] at hmem
      · cases hmem
      · cases a <;> simp [Active.tasks] at hmem
      · simp at hmem
  · rcases threadCall_cases hp with ⟨message,-,-,rfl⟩ | rfl | ⟨f,rfl,-⟩ | ⟨f,rfl,-,-⟩
    · exact ⟨hw.living.same rfl rfl (by simp [record,reports,Event.isReport]),hw.removing⟩
    all_goals exact ⟨hw.living,hw.removing⟩
  · rcases threadAdvance_cases hp with ⟨next,hpc,rfl⟩ | ⟨f,hpc,rfl⟩
    · have hs : w.conn.state ≠ .kDisconnected := fun hs => hl ⟨hs,by rw [hpc]; rfl⟩
      exact ⟨⟨by simp [setState],fun _ => hw.living.up hs,by simp [setState]⟩,
        fun hmem => absurd (hw.removing hmem) hs⟩
    · exact ⟨hw.living.same rfl rfl rfl,hw.removing⟩

theorem established_registered (highWaterMarkCallback : Option HighWaterMarkCallback) (highWaterMark : ℕ)
    (writeCompleteCallback : Option WriteCompleteCallback) :
    (established highWaterMarkCallback highWaterMark writeCompleteCallback).Registered := by
  refine ⟨⟨?_,fun _ => ?_,?_⟩,?_⟩
  · exact nofun
  · rfl
  · exact nofun
  · simp [established,connectEstablished]

/-- With any history of calls from any threads: when `Channel::remove` is called, and when it
has returned, the life of the connection is over, if until then `connectDestroyed` found it
connected or disconnected, and, once disconnected, it was not closed, read or stored into again. -/
theorem destroyed_finishes (server : Option HttpServer)
    (highWaterMarkCallback : Option HighWaterMarkCallback) (highWaterMark : ℕ)
    (writeCompleteCallback : Option WriteCompleteCallback) (labels : List Label) (w : World)
    (hrun : Run (step server) (established highWaterMarkCallback highWaterMark writeCompleteCallback) labels w)
    (hspoils : Along (step server) (fun w l => .remove ∉ w.conn.trace → ¬ w.Spoils l)
      (established highWaterMarkCallback highWaterMark writeCompleteCallback) labels)
    (hw : w.Removes) :
    Finished w.conn ∧ ∀ e, ∀ w' ∈ step server w (.loop e), .remove ∈ w'.conn.trace ∧ Finished w'.conn := by
  have hregistered : .remove ∉ w.conn.trace → w.Registered := by
    refine hrun.invariant_along (I:=fun w => .remove ∉ w.conn.trace → w.Registered) ?_ hspoils
      fun _ => established_registered highWaterMarkCallback highWaterMark writeCompleteCallback
    intro w l w' hI hC hstep hnot
    obtain ⟨es,hes⟩ := step_trace hstep
    have hbefore : .remove ∉ w.conn.trace := fun hmem => hnot (hes ▸ List.mem_append_left _ hmem)
    exact step_registered (hI hbefore) (hC hbefore) hstep
  have hlast := hregistered hw.2
  have hfinished := hlast.living.down (hlast.removing (List.mem_of_head? hw.1))
  refine ⟨hfinished,fun e w' hstep => ?_⟩
  obtain ⟨ts,htodo⟩ := List.head?_eq_some_iff.mp hw.1
  simp only [step,loopStep,htodo] at hstep
  cases hstep
  exact ⟨by simp [record],hfinished.removed⟩

instance (c : TcpConnection) : Decidable c.live := inferInstanceAs (Decidable (_ ∨ _))

instance (c : TcpConnection) (e : Choice) (t : Task) : Decidable (t.closesNow c e) :=
  match t with
  | .callback .close => isTrue trivial
  | .callback .read => inferInstanceAs (Decidable (e.read = .received []))
  | .functor .forceCloseInLoop => inferInstanceAs (Decidable c.live)
  | .timer _ => inferInstanceAs (Decidable (_ ∧ _))
  | .callback .error | .callback .write | .finishWrite | .messageCallback | .connectionCallback
  | .closeCallback | .removeChannel | .call _ | .other => isFalse id
  | .functor (.sendInLoop _ _) | .functor .shutdownInLoop | .functor .shutdownAndForceCloseInLoop
  | .functor .startReadInLoop | .functor .stopReadInLoop | .functor (.addTimer _) | .functor (.writeComplete _)
  | .functor (.highWaterMark _ _) | .functor .connectDestroyed | .functor .user => isFalse id

instance (w : World) (l : Label) : Decidable (w.StoresOver l) :=
  match l with
  | .advance _ => inferInstanceAs (Decidable (_ ∧ _))
  | .loop _ | .call _ _ => isFalse id

instance (w : World) (l : Label) : Decidable (w.Spoils l) :=
  match l with
  | .loop e => inferInstanceAs (Decidable (∃ t ∈ w.todo.head?,
      (w.conn.state = .kDisconnecting ∧ t.destroys = true) ∨
        (w.conn.state = .kDisconnected ∧ (t.startsRead = true ∨ t.closesNow w.conn e))))
  | .call thread a => inferInstanceAs (Decidable (w.StoresOver (.call thread a)))
  | .advance thread => inferInstanceAs (Decidable (w.StoresOver (.advance thread)))

instance (w : World) : Decidable w.Removes := inferInstanceAs (Decidable (_ ∧ _))

/-- The loop reads the end of the stream and closes the connection, whose server is on this
loop too and queues `connectDestroyed`. -/
def closedThenDestroyed : List Label :=
  [.loop {},.loop {},.loop { active := [.conn Channel.POLLIN] },.loop {},.loop { read := .received [] },.loop {},
    .loop {},.loop {},.loop {},.loop {}]

theorem destroyed_finishes_closed :
    ∃ w, exec (step none) (established none 64 none) closedThenDestroyed = some w ∧ w.Removes ∧
      Finished w.conn := by
  obtain ⟨w,hw⟩ : ∃ w, exec (step none) (established none 64 none) closedThenDestroyed = some w :=
    Option.isSome_iff_exists.mp (by decide +kernel)
  have hremoves : (exec (step none) (established none 64 none) closedThenDestroyed).map
      (fun w => decide w.Removes) = some true := by decide +kernel
  rw [hw] at hremoves
  have hlast : w.Removes := of_decide_eq_true (Option.some.inj hremoves)
  exact ⟨w,hw,hlast,(destroyed_finishes none none 64 none closedThenDestroyed w
    ((run_iff_exec _ _ _ _).mpr hw) (by decide +kernel) hlast).1⟩

/-- `connectionCallback_` calls `shutdown`, then the destructor of the server, on the thread of
another loop, has `connectDestroyed` run. -/
def destroyedWhileDisconnecting : List Label :=
  [.loop { acts := [.shutdown] },.loop {},.call 1 .connectDestroyed,.advance 1,.loop {},.loop {},.loop {},.loop {},
    .loop {}]

theorem destroyed_not_finished :
    ¬ ∀ (server : Option HttpServer) (highWaterMarkCallback : Option HighWaterMarkCallback)
      (highWaterMark : ℕ) (writeCompleteCallback : Option WriteCompleteCallback) (labels : List Label) (w : World),
      Run (step server) (established highWaterMarkCallback highWaterMark writeCompleteCallback) labels w →
      w.Removes → Finished w.conn := by
  intro h
  obtain ⟨w,hw⟩ : ∃ w, exec (step none) (established none 64 none) destroyedWhileDisconnecting = some w :=
    Option.isSome_iff_exists.mp (by decide +kernel)
  have hlast : (exec (step none) (established none 64 none) destroyedWhileDisconnecting).map
      (fun w => (decide w.Removes,w.conn.state)) = some (true,.kDisconnecting) := by decide +kernel
  rw [hw] at hlast
  obtain ⟨hremoves,hstate⟩ : w.Removes ∧ w.conn.state = .kDisconnecting := by simpa using hlast
  have hfinished := h none none 64 none destroyedWhileDisconnecting w ((run_iff_exec _ _ _ _).mpr hw) hremoves
  cases hstate.symm.trans hfinished.state

/-- There the channel still has its read interest, and DOWN was never reported. -/
example : (exec (step none) (established none 64 none) destroyedWhileDisconnecting).map
    (fun w => (w.conn.channel.isNoneEvent,reports w.conn.trace)) = some (false,[.connectionCallback]) := by
  decide +kernel

end World
end GgLib
