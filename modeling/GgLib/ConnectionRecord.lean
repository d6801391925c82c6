import GgLib.ConnectionEdits

/-! What a task of the loop thread appends to the record and to the queue of its connection, and what it makes of the
state. The interest of the channel is always that of the last recorded update. -/
namespace GgLib

open LabelledSystem TcpConnection

namespace TcpConnection

/-- The connection at most records events in `q` and queues functors of the loop's own, and
its channel has the interest of the last update. -/
structure Appends (q : Event → Prop) (closeCallback : Bool) (c c' : TcpConnection) : Prop where
  trace : ∃ es, c'.trace = c.trace++es ∧ (∀ ev ∈ es, q ev) ∧
    c'.channel.events = es.foldl Event.interest c.channel.events
  pending : ∃ fs, c'.pendingFunctors = c.pendingFunctors++fs ∧ ∀ f ∈ fs, f.isOwn closeCallback = true

namespace Appends

variable {q : Event → Prop} {closeCallback : Bool} {c c' c'' : TcpConnection}

theorem same (htrace : c'.trace = c.trace) (hchannel : c'.channel.events = c.channel.events)
    (hpending : c'.pendingFunctors = c.pendingFunctors) : Appends q closeCallback c c' :=
  ⟨⟨[],by simp [htrace],by simp,hchannel⟩,[],by simp [hpending],by simp⟩

theorem trans (h : Appends q closeCallback c c') (h' : Appends q closeCallback c' c'') :
    Appends q closeCallback c c'' := by
  obtain ⟨es,hes,hq,hevents⟩ := h.trace
  obtain ⟨es',hes',hq',hevents'⟩ := h'.trace
  obtain ⟨fs,hfs,hown⟩ := h.pending
  obtain ⟨fs',hfs',hown'⟩ := h'.pending
  refine ⟨⟨es++es',by rw [hes',hes,List.append_assoc],fun ev hev => ?_,?_⟩,
    fs++fs',by rw [hfs',hfs,List.append_assoc],fun f hf => ?_⟩
  · exact (List.mem_append.mp hev).elim (hq ev) (hq' ev)
  · rw [hevents',hevents,List.foldl_append]
  · exact (List.mem_append.mp hf).elim (hown f) (hown' f)

theorem edit {c₀ : TcpConnection} {e : Choice} {t : Task} (c : TcpConnection) {d : Edit} (hd : t.may c₀ e d) :
    Appends (t.records c₀ e) t.isCloseCallback c (d.apply c) := by
  cases d with
  | record ev =>
    refine ⟨⟨[ev],rfl,List.forall_mem_singleton.mpr hd.2,?_⟩,[],(List.append_nil _).symm,by simp⟩
    cases ev with
    | update events => cases hd.1
    | _ => rfl
  | write bytes => exact ⟨⟨[_],rfl,List.forall_mem_singleton.mpr hd.1,rfl⟩,[],(List.append_nil _).symm,by simp⟩
  | updateChannel channel => exact ⟨⟨[_],rfl,List.forall_mem_singleton.mpr hd,rfl⟩,[],(List.append_nil _).symm,by simp⟩
  | queueInLoop f =>
    exact ⟨⟨[],(List.append_nil _).symm,by simp,rfl⟩,[f],rfl,List.forall_mem_singleton.mpr hd⟩
  | retrieveWritten n =>
    obtain rfl : t = .callback .write := hd
    exact ⟨⟨[_],rfl,by simp [Task.records,Task.moves],rfl⟩,[],(List.append_nil _).symm,by simp⟩
  | _ => exact .same rfl rfl rfl

end Appends

theorem run_appends {server : Option HttpServer} {c : TcpConnection} {e : Choice} {t : Task}
    {p : TcpConnection × List Task} (h : c.run server e t = some p) :
    Appends (t.records c e) t.isCloseCallback c p.1 :=
  (run_edited h).induct (.same rfl rfl rfl) fun c' _ hd hc' => hc'.trans (.edit c' hd)

/-! ## How a task closes the connection -/

theorem handleClose_trace (c : TcpConnection) :
    c.handleClose.1.trace = c.trace++[.update Channel.kNoneEvent,.handleClose] :=
  List.append_assoc c.trace [_] [_]

theorem connectDestroyed_trace {c : TcpConnection} (h : c.state = .kConnected) :
    c.connectDestroyed.1.trace = c.trace++[.update Channel.kNoneEvent,.connectionCallback] := by
  rw [connectDestroyed,if_pos h]
  exact List.append_assoc c.trace [_] [_]

theorem run_closesNow {server : Option HttpServer} {c : TcpConnection} {e : Choice} {t : Task}
    {p : TcpConnection × List Task} (h : c.run server e t = some p) (ht : t.closesNow c e) :
    p.1.state = .kDisconnected ∧ p.1.channel.events = Channel.kNoneEvent ∧
      p.1.trace = c.trace++[.update Channel.kNoneEvent,.handleClose] ∧
      p.2 = [.connectionCallback,.closeCallback] := by
  have hforce : ∀ c' : TcpConnection, c'.live → c'.forceCloseInLoop = c'.handleClose := fun c' hlive => if_pos hlive
  cases t with
  | callback cb =>
    cases cb with
    | close =>
      cases h
      exact ⟨rfl,rfl,handleClose_trace c,rfl⟩
    | read =>
      cases h
      have hr : e.read = .received [] := ht
      rw [hr]
      exact ⟨rfl,rfl,handleClose_trace c,rfl⟩
    | error => cases ht
    | write => cases ht
  | functor f =>
    cases f with
    | forceCloseInLoop =>
      cases h
      rw [runFunctor,hforce c ht]
      exact ⟨rfl,rfl,handleClose_trace c,rfl⟩
    | _ => cases ht
  | timer i =>
    cases h
    let c' : TcpConnection := { c with timers := c.timers.eraseIdx i }
    have heq : c.runTimer i = c'.handleClose := by
      simp only [runTimer,ht.1]
      exact hforce c' ht.2
    rw [heq]
    exact ⟨rfl,rfl,handleClose_trace c',rfl⟩
  | _ => cases ht

theorem run_destroys {server : Option HttpServer} {c : TcpConnection} {e : Choice} {t : Task}
    {p : TcpConnection × List Task} (h : c.run server e t = some p) (ht : t.destroys = true) :
    p = c.connectDestroyed := by
  cases t with
  | call a =>
    cases a with
    | connectDestroyed => exact (Option.some.inj h).symm
    | _ => cases ht
  | functor f =>
    cases f with
    | connectDestroyed => exact (Option.some.inj h).symm
    | _ => cases ht
  | _ => cases ht

/-- The connection has no interest left, and the last that is recorded is the report. -/
def Reported (c c' : TcpConnection) : Prop :=
  ∃ ev, (ev = .handleClose ∨ ev = .connectionCallback) ∧ c'.trace = c.trace++[.update Channel.kNoneEvent,ev]

theorem run_reported {server : Option HttpServer} {c : TcpConnection} {e : Choice} {t : Task}
    {p : TcpConnection × List Task} (h : c.run server e t = some p) (ht : t.closes c e) :
    p.1.state = .kDisconnected ∧ Reported c p.1 := by
  rcases ht with hnow | ⟨hdestroys,hs⟩
  · obtain ⟨hstate,-,htrace,-⟩ := run_closesNow h hnow
    exact ⟨hstate,.handleClose,.inl rfl,htrace⟩
  · rw [run_destroys h hdestroys]
    refine ⟨?_,.connectionCallback,.inr rfl,connectDestroyed_trace hs⟩
    rw [connectDestroyed,if_pos hs]
    rfl

theorem run_sets {server : Option HttpServer} {c : TcpConnection} {e : Choice} {t : Task}
    {p : TcpConnection × List Task} (h : c.run server e t = some p) :
    p.1.state = c.state ∨ t.sets c e p.1.state := by
  refine (run_edited h).induct (I:=fun c' => c'.state = c.state ∨ t.sets c e c'.state) (.inl rfl) fun c' d hd hc' => ?_
  cases d with
  | setState state => exact .inr hd
  | _ => exact hc'

/-- Any other task at most starts to disconnect a connection that is not disconnected. -/
theorem run_open {server : Option HttpServer} {c : TcpConnection} {e : Choice} {t : Task}
    {p : TcpConnection × List Task} (h : c.run server e t = some p) (ht : ¬ t.closes c e) :
    p.1.state = c.state ∨ (c.live ∧ p.1.state = .kDisconnecting) := by
  rcases run_sets h with hsame | hsets
  · exact .inl hsame
  · cases hs : p.1.state <;> rw [hs] at hsets
    case kDisconnected => exact absurd hsets ht
    case kDisconnecting => exact .inr ⟨hsets.1,rfl⟩
    all_goals cases hsets

theorem live_ne {c : TcpConnection} (h : c.live) : c.state ≠ .kDisconnected := by
  rcases h with h | h <;> simp [h]

theorem run_disconnects {server : Option HttpServer} {c : TcpConnection} {e : Choice} {t : Task}
    {p : TcpConnection × List Task} (h : c.run server e t = some p) (hs : p.1.state = .kDisconnected) :
    c.state = .kDisconnected ∨ Reported c p.1 := by
  by_cases ht : t.closes c e
  · exact .inr (run_reported h ht).2
  · rcases run_open h ht with hstate | ⟨-,hstate⟩
    · exact .inl (hstate.symm.trans hs)
    · cases hstate.symm.trans hs

/-- A task keeps the state, starts to disconnect a connection that is not disconnected, or
disconnects it. -/
theorem run_state {server : Option HttpServer} {c : TcpConnection} {e : Choice} {t : Task}
    {p : TcpConnection × List Task} (h : c.run server e t = some p) :
    p.1.state = c.state ∨ (c.state ≠ .kDisconnected ∧ p.1.state = .kDisconnecting) ∨ p.1.state = .kDisconnected := by
  by_cases ht : t.closes c e
  · exact .inr (.inr (run_reported h ht).1)
  · exact (run_open h ht).imp_right fun hstate => .inl ⟨live_ne hstate.1,hstate.2⟩

theorem run_notConnected {server : Option HttpServer} {c : TcpConnection} {e : Choice} {t : Task}
    {p : TcpConnection × List Task} (h : c.run server e t = some p) (hs : c.state ≠ .kConnected) :
    p.1.state ≠ .kConnected := by
  rcases run_state h with hst | ⟨-,hst⟩ | hst
  · rwa [hst]
  · simp [hst]
  · simp [hst]

theorem run_final {server : Option HttpServer} {c : TcpConnection} {e : Choice} {t : Task}
    {p : TcpConnection × List Task} (h : c.run server e t = some p) (hs : c.state = .kDisconnected) :
    p.1.state = .kDisconnected := by
  rcases run_state h with hst | ⟨hne,-⟩ | hst
  · exact hst.trans hs
  · exact absurd hs hne
  · exact hst

end TcpConnection

namespace World

theorem step_trace {server : Option HttpServer} {w w' : World} {l : Label} (h : step server w l = some w') :
    ∃ es, w'.conn.trace = w.conn.trace++es := by
  rcases step_cases h with ⟨e,t,ts,p,-,-,hp,rfl⟩ | ⟨e,-,-,ht⟩ | ⟨thread,a,p,-,-,-,hp,rfl⟩ | ⟨thread,p,-,hp,rfl⟩
  · obtain ⟨es,hes,-⟩ := (run_appends hp).trace
    exact ⟨es,hes⟩
  · rw [(turn_conn ht).1]
    exact ⟨[],(List.append_nil _).symm⟩
  · rcases threadCall_cases hp with ⟨message,-,-,rfl⟩ | rfl | ⟨f,rfl,-⟩ | ⟨f,rfl,-⟩
    · exact ⟨[_],rfl⟩
    all_goals exact ⟨[],(List.append_nil _).symm⟩
  · rcases threadAdvance_cases hp with ⟨next,-,rfl⟩ | ⟨f,-,rfl⟩ <;> exact ⟨[],(List.append_nil _).symm⟩

end World
end GgLib
