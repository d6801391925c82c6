import GgLib.ConnectionDestroy
import GgLib.Poller

/-! A closed connection and its poller. What `handleClose` undoes with `disableAll` comes
back with the next call of `Channel::update`. -/
namespace GgLib

open LabelledSystem TcpConnection

namespace EPollPoller

/-- A descriptor that is in the set of the kernel stands there with the interest of its
channel, any other channel has none. -/
def Follows (p : EPollPoller) (fd : ℕ) (events : BitVec 32) : Prop :=
  (p.index fd = kAdded ∧ p.channels fd = true ∧ p.kernel fd = some events) ∨
    (p.kernel fd = none ∧ events = Channel.kNoneEvent ∧
      ((p.index fd = kNew ∧ p.channels fd = false) ∨ (p.index fd = kDeleted ∧ p.channels fd = true)))

/-- No `updateChannel` fails, and one with no event ends the watch if there was one. -/
theorem Follows.updateChannel {p : EPollPoller} {fd : ℕ} {events : BitVec 32} (h : p.Follows fd events)
    (events' : BitVec 32) :
    ∃ p', p.updateChannel fd events' = some p' ∧ p'.Follows fd events' ∧
      (events ≠ Channel.kNoneEvent → events' = Channel.kNoneEvent → p'.kernel fd = none) := by
  rcases h with ⟨hindex,hchannels,hkernel⟩ | ⟨hkernel,hevents,⟨hindex,hchannels⟩ | ⟨hindex,hchannels⟩⟩
  · by_cases hnone : events' = Channel.kNoneEvent
    · refine ⟨⟨Function.update p.index fd kDeleted,p.channels,Function.update p.kernel fd none⟩,?_,?_,?_⟩
      · simp [EPollPoller.updateChannel,hindex,hchannels,hnone,update,setIndex,kNew,kAdded,kDeleted]
      · exact .inr ⟨by simp,hnone,.inr ⟨by simp,hchannels⟩⟩
      · simp
    · refine ⟨⟨p.index,p.channels,Function.update p.kernel fd (some events')⟩,?_,?_,fun _ h => absurd h hnone⟩
      · simp [EPollPoller.updateChannel,hindex,hchannels,hnone,update,hkernel,kNew,kAdded,kDeleted]
      · exact .inl ⟨hindex,hchannels,by simp⟩
  · refine ⟨⟨Function.update p.index fd kAdded,Function.update p.channels fd true,
      Function.update p.kernel fd (some events')⟩,?_,.inl ?_,fun h => absurd hevents h⟩
    · simp [EPollPoller.updateChannel,hindex,hchannels,update,setIndex,hkernel]
    · simp
  · refine ⟨⟨Function.update p.index fd kAdded,p.channels,Function.update p.kernel fd (some events')⟩,?_,.inl ?_,
      fun h => absurd hevents h⟩
    · simp [EPollPoller.updateChannel,hindex,hchannels,update,setIndex,hkernel,kNew,kDeleted]
    · simp [hchannels]

end EPollPoller

namespace TcpConnection

/-- A recorded `Channel::update` on the poller, for the descriptor of the connection. -/
def Event.register (fd : ℕ) (p : EPollPoller) : Event → Option EPollPoller
  | .update events => p.updateChannel fd events
  | _ => some p

def registered (fd : ℕ) (trace : List Event) : Option EPollPoller := trace.foldlM (Event.register fd) .create

def updates (trace : List Event) : List (BitVec 32) :=
  trace.filterMap fun
    | .update events => some events
    | _ => none

def AwaitsRemoval (c : TcpConnection) : Prop := .handleClose ∈ c.trace ∧ .remove ∉ c.trace

/-- The poller does not have the descriptor in the set of the kernel. -/
def Unwatched (fd : ℕ) (c : TcpConnection) : Prop := ∃ p ∈ registered fd c.trace, p.kernel fd = none

/-- On a closed connection the task calls `Channel::update`. -/
def Task.reopens (c : TcpConnection) (e : Choice) (t : Task) : Prop :=
  t.startsRead = true ∨ (t.stopsRead = true ∧ c.reading = true) ∨ t.closesNow c e ∨
    (c.state ≠ .kDisconnected ∧ ∃ thread message, t = .functor (.sendInLoop thread message))

theorem registered_append (fd : ℕ) (es fs : List Event) :
    registered fd (es++fs) = (registered fd es).bind fun p => fs.foldlM (Event.register fd) p :=
  List.foldlM_append

theorem foldlM_register {fd : ℕ} {p : EPollPoller} {events : BitVec 32} (h : p.Follows fd events) (es : List Event) :
    ∃ p', es.foldlM (Event.register fd) p = some p' ∧ p'.Follows fd (es.foldl Event.interest events) := by
  induction es generalizing p events with
  | nil => exact ⟨p,rfl,h⟩
  | cons ev es ih =>
    cases ev with
    | update events' =>
      obtain ⟨p',hp',hfollows,-⟩ := h.updateChannel events'
      obtain ⟨p'',hp'',hfollows'⟩ := ih hfollows
      exact ⟨p'',by simp [Event.register,hp',hp''],hfollows'⟩
    | _ => exact ih h

/-- The poller has followed the channel so far. -/
def Followed (fd : ℕ) (c : TcpConnection) : Prop :=
  ∃ p, registered fd c.trace = some p ∧ p.Follows fd c.channel.events

theorem Followed.append {fd : ℕ} {c c' : TcpConnection} (h : Followed fd c) (es : List Event)
    (htrace : c'.trace = c.trace++es) (hevents : c'.channel.events = es.foldl Event.interest c.channel.events) :
    Followed fd c' := by
  obtain ⟨p,hp,hfollows⟩ := h
  obtain ⟨p',hp',hfollows'⟩ := foldlM_register hfollows es
  refine ⟨p',?_,hevents ▸ hfollows'⟩
  rw [htrace,registered_append,hp]
  exact hp'

theorem Followed.closed {fd : ℕ} {c c' : TcpConnection} (h : Followed fd c)
    (hnone : c.channel.isNoneEvent = false) (htrace : c'.trace = c.trace++[.update Channel.kNoneEvent,.handleClose]) :
    Unwatched fd c' := by
  obtain ⟨p,hp,hfollows⟩ := h
  obtain ⟨p',hp',-,hkernel⟩ := hfollows.updateChannel Channel.kNoneEvent
  refine ⟨p',?_,hkernel (of_decide_eq_false hnone) rfl⟩
  rw [htrace,registered_append,hp]
  simp [Event.register,hp']

@[simp] theorem updates_append (es fs : List Event) : updates (es++fs) = updates es++updates fs :=
  List.filterMap_append

/-- The connection is shut off from its poller. -/
structure Off (fd : ℕ) (c : TcpConnection) : Prop where
  state : c.state ≠ .kConnected
  channel : c.channel.isNoneEvent = true
  unwatched : Unwatched fd c

theorem updates_eq_nil {es : List Event} (h : ∀ events, .update events ∉ es) : updates es = [] := by
  rw [updates,List.filterMap_eq_nil_iff]
  intro ev hev
  cases ev with
  | update events => exact absurd hev (h events)
  | _ => rfl

theorem foldlM_register_eq {fd : ℕ} {es : List Event} (h : ∀ events, .update events ∉ es) (p : EPollPoller) :
    es.foldlM (Event.register fd) p = some p := by
  induction es with
  | nil => rfl
  | cons ev es ih =>
    have hes := ih fun events hmem => h events (.tail _ hmem)
    cases ev with
    | update events => exact absurd (.head _) (h events)
    | _ => exact hes

theorem foldl_interest_same {es : List Event} (h : ∀ events, .update events ∉ es) (events : BitVec 32) :
    es.foldl Event.interest events = events := by
  induction es with
  | nil => rfl
  | cons ev es ih =>
    have hes := ih fun events hmem => h events (.tail _ hmem)
    cases ev with
    | update events => exact absurd (.head _) (h events)
    | _ => exact hes

theorem Off.append {fd : ℕ} {c c' : TcpConnection} {es : List Event} (h : Off fd c) (hs : c'.state ≠ .kConnected)
    (hchannel : c'.channel.isNoneEvent = c.channel.isNoneEvent) (htrace : c'.trace = c.trace++es)
    (hes : ∀ events, .update events ∉ es) : Off fd c' := by
  obtain ⟨p,hp,hkernel⟩ := h.unwatched
  have hp' : registered fd c.trace = some p := hp
  refine ⟨hs,hchannel.trans h.channel,p,?_,hkernel⟩
  rw [htrace,registered_append,hp']
  exact foldlM_register_eq hes p

/-- A task of a connection that is off calls no `Channel::update` unless it reopens it. -/
theorem Off.updates {server : Option HttpServer} {fd : ℕ} {c : TcpConnection} {e : Choice} {t : Task}
    {p : TcpConnection × List Task} (h : Off fd c) (ht : ¬ t.reopens c e) (hp : c.run server e t = some p) :
    ∃ es, p.1.trace = c.trace++es ∧ (∀ events, .update events ∉ es) ∧ .handleClose ∉ es ∧ Off fd p.1 := by
  obtain ⟨es,hes,hrecords,hevents⟩ := (run_appends hp).trace
  have hnot : ∀ events, .update events ∉ es := by
    intro events hmem
    rcases updates_idle h.state (of_decide_eq_true h.channel) (hrecords _ hmem) with hr | ⟨hr,hreading,-⟩ | ⟨hr,-⟩ | hr
    · exact ht (.inl hr)
    · exact ht (.inr (.inl ⟨hr,hreading⟩))
    · exact ht (.inr (.inr (.inl hr)))
    · exact ht (.inr (.inr (.inr hr)))
  refine ⟨es,hes,hnot,fun hmem => ht (.inr (.inr (.inl (hrecords _ hmem)))),
    h.append (run_notConnected hp h.state) ?_ hes hnot⟩
  have hsame : p.1.channel.events = c.channel.events := by
    rw [hevents]
    exact foldl_interest_same hnot _
  rw [Channel.isNoneEvent,hsame]
  rfl

end TcpConnection

namespace World

/-- The step dispatches an event of the descriptor to the connection. -/
def Dispatches (w : World) : Label → Prop
  | .loop _ => w.todo = [] ∧ w.phase = .handling ∧ ∃ a ∈ w.active.head?, a.isConn = true
  | _ => False

/-- A closed connection is off, and the step neither dispatches to it nor registers it. -/
def Unregistered (server : Option HttpServer) (fd : ℕ) (w : World) (l : Label) : Prop :=
  AwaitsRemoval w.conn →
    w.conn.channel.isNoneEvent = true ∧ Unwatched fd w.conn ∧ ¬ w.Dispatches l ∧
      ∀ w' ∈ step server w l, updates w'.conn.trace = updates w.conn.trace

/-- `epoll_wait` reports no descriptor that is not in its set. -/
def PollsWatched (fd : ℕ) (w : World) : Label → Prop
  | .loop e => w.todo = [] ∧ w.phase = .polling ∧ Unwatched fd w.conn → ∀ a ∈ e.active, a.isConn = false
  | _ => True

/-- The step closes the connection while no event is enabled or its channel is still to be
dispatched, or behind the close it runs a method that calls `Channel::update`. -/
def Reopens (w : World) : Label → Prop
  | .loop e => .remove ∉ w.conn.trace ∧ ∃ t ∈ w.todo.head?,
      (.handleClose ∉ w.conn.trace ∧ t.closesNow w.conn e ∧
        (w.conn.channel.isNoneEvent = true ∨ ∃ a ∈ w.active, a.isConn = true)) ∨
      (.handleClose ∈ w.conn.trace ∧ t.reopens w.conn e)
  | _ => False

/-- The poller follows the connection, and once that is closed it is off and not active. -/
structure Watching (fd : ℕ) (w : World) : Prop where
  followed : .remove ∉ w.conn.trace → Followed fd w.conn
  off : AwaitsRemoval w.conn → Off fd w.conn ∧ ∀ a ∈ w.active, a.isConn = false

theorem Watching.keep {fd : ℕ} {w w' : World} (hw : w.Watching fd) (es : List Event)
    (htrace : w'.conn.trace = w.conn.trace++es) (hupdate : ∀ events, .update events ∉ es)
    (hclose : .handleClose ∉ es) (hchannel : w'.conn.channel = w.conn.channel)
    (hs : w.conn.state ≠ .kConnected → w'.conn.state ≠ .kConnected)
    (hactive : AwaitsRemoval w.conn → ∀ a ∈ w'.active, a.isConn = false) :
    w'.Watching fd ∧ (AwaitsRemoval w.conn → updates w'.conn.trace = updates w.conn.trace) := by
  have hremove : .remove ∉ w'.conn.trace → .remove ∉ w.conn.trace :=
    fun h hmem => h (by rw [htrace]; exact List.mem_append_left _ hmem)
  refine ⟨⟨fun hnot => (hw.followed (hremove hnot)).append es htrace ?_,fun hclosed => ?_⟩,fun _ => ?_⟩
  · rw [hchannel,foldl_interest_same hupdate]
  · have hbefore : AwaitsRemoval w.conn := by
      refine ⟨?_,hremove hclosed.2⟩
      have hmem := hclosed.1
      rw [htrace] at hmem
      exact (List.mem_append.mp hmem).resolve_right hclose
    have hoff := (hw.off hbefore).1
    exact ⟨hoff.append (hs hoff.state) (by rw [hchannel]) htrace hupdate,hactive hbefore⟩
  · rw [htrace,updates_append,updates_eq_nil hupdate,List.append_nil]

theorem Watching.task {server : Option HttpServer} {fd : ℕ} {w : World} {e : Choice} {t : Task} {ts : List Task}
    {p : TcpConnection × List Task} (hw : w.Watching fd) (hl : ¬ w.Reopens (.loop e)) (htodo : w.todo = t::ts)
    (hp : w.conn.run server e t = some p) :
    Watching fd { w with conn := p.1, todo := p.2++ts } ∧
      (AwaitsRemoval w.conn → updates p.1.trace = updates w.conn.trace) := by
  obtain ⟨es,hes,hrecords,hevents⟩ := (run_appends hp).trace
  have hhead : t ∈ w.todo.head? := by rw [htodo]; rfl
  have hremove : .remove ∉ p.1.trace → .remove ∉ w.conn.trace :=
    fun h hmem => h (by rw [hes]; exact List.mem_append_left _ hmem)
  have hkeeps : AwaitsRemoval w.conn → ¬ t.reopens w.conn e :=
    fun hclosed hr => hl ⟨hclosed.2,t,hhead,.inr ⟨hclosed.1,hr⟩⟩
  refine ⟨⟨fun hnot => (hw.followed (hremove hnot)).append es hes hevents,fun hclosed => ?_⟩,fun hclosed => ?_⟩
  · by_cases hbefore : .handleClose ∈ w.conn.trace
    · have hclosed' : AwaitsRemoval w.conn := ⟨hbefore,hremove hclosed.2⟩
      obtain ⟨-,-,-,-,hoff⟩ := (hw.off hclosed').1.updates (hkeeps hclosed') hp
      exact ⟨hoff,(hw.off hclosed').2⟩
    · have hmem : .handleClose ∈ es := by
        have hmem := hclosed.1
        rw [hes] at hmem
        exact (List.mem_append.mp hmem).resolve_left hbefore
      have hcloses : t.closesNow w.conn e := hrecords _ hmem
      have hfine : ¬ (w.conn.channel.isNoneEvent = true ∨ ∃ a ∈ w.active, a.isConn = true) :=
        fun h => hl ⟨hremove hclosed.2,t,hhead,.inl ⟨hbefore,hcloses,h⟩⟩
      obtain ⟨hstate,hnone,htrace,-⟩ := run_closesNow hp hcloses
      refine ⟨⟨by simp [hstate],decide_eq_true hnone,?_⟩,fun a ha => ?_⟩
      · exact (hw.followed (hremove hclosed.2)).closed (Bool.eq_false_iff.mpr fun h => hfine (.inl h)) htrace
      · exact Bool.eq_false_iff.mpr fun h => hfine (.inr ⟨a,ha,h⟩)
  · obtain ⟨es,hes,hupdate,-⟩ := (hw.off hclosed).1.updates (hkeeps hclosed) hp
    rw [hes,updates_append,updates_eq_nil hupdate,List.append_nil]

/-- A step that does not reopen the connection registers nothing behind the close. -/
theorem step_watching {server : Option HttpServer} {fd : ℕ} {w w' : World} {l : Label} (hw : w.Watching fd)
    (hl : ¬ w.Reopens l) (hpolls : w.PollsWatched fd l) (h : step server w l = some w') :
    w'.Watching fd ∧ (AwaitsRemoval w.conn → updates w'.conn.trace = updates w.conn.trace) := by
  have hactive : AwaitsRemoval w.conn → ∀ a ∈ w.active, a.isConn = false := fun hclosed => (hw.off hclosed).2
  rcases step_cases h with ⟨e,t,ts,p,rfl,htodo,hp,rfl⟩ | ⟨e,rfl,htodo,ht⟩ | ⟨thread,a,p,rfl,-,-,hp,rfl⟩ |
    ⟨thread,p,rfl,hp,rfl⟩
  · exact hw.task hl htodo hp
  · obtain ⟨hconn,-⟩ := turn_conn ht
    refine hw.keep [] (by rw [hconn]; simp) nofun nofun (by rw [hconn]) (by rw [hconn]; exact id)
      fun hclosed => ?_
    rcases turn_active ht with ⟨hphase,hpolled⟩ | hsub
    · rw [hpolled]
      exact hpolls ⟨htodo,hphase,(hw.off hclosed).1.unwatched⟩
    · exact fun a ha => hactive hclosed a (hsub a ha)
  · rcases threadCall_cases hp with ⟨message,-,hs,rfl⟩ | rfl | ⟨f,rfl,-⟩ | ⟨f,rfl,-⟩
    · exact hw.keep [.accepted thread message] rfl (by simp) (by simp) rfl id hactive
    all_goals exact hw.keep [] (by simp) nofun nofun rfl id hactive
  · rcases threadAdvance_cases hp with ⟨next,-,rfl⟩ | ⟨f,-,rfl⟩
    · exact hw.keep [] (by simp [setState]) nofun nofun rfl (fun _ => nofun) hactive
    · exact hw.keep [] (by simp [queueInLoop]) nofun nofun rfl id hactive

theorem established_watching (fd : ℕ) (highWaterMarkCallback : Option HighWaterMarkCallback) (highWaterMark : ℕ)
    (writeCompleteCallback : Option WriteCompleteCallback) :
    (established highWaterMarkCallback highWaterMark writeCompleteCallback).Watching fd := by
  have hfollows : EPollPoller.Follows .create fd Channel.kNoneEvent := .inr ⟨rfl,rfl,.inl ⟨rfl,rfl⟩⟩
  have hcreate : Followed fd (create highWaterMarkCallback highWaterMark writeCompleteCallback) := ⟨_,rfl,hfollows⟩
  refine ⟨fun _ => hcreate.append [.update Channel.create.enableReading.events,.connectionCallback] rfl rfl,
    fun hclosed => ?_⟩
  have hmem := hclosed.1
  simp [established,connectEstablished,create,record,updateChannel,setState] at hmem

/-- With any calls from any threads, and from every callback: from `handleClose` up to
`Channel::remove` the connection stays off, as long as it is closed with an event enabled and
no dispatch ahead, and behind the close nothing runs that calls `Channel::update`. -/
theorem closed_unregistered (server : Option HttpServer) (fd : ℕ)
    (highWaterMarkCallback : Option HighWaterMarkCallback) (highWaterMark : ℕ)
    (writeCompleteCallback : Option WriteCompleteCallback) (labels : List Label)
    (hpolls : Along (step server) (PollsWatched fd)
      (established highWaterMarkCallback highWaterMark writeCompleteCallback) labels)
    (hreopens : Along (step server) (fun w l => ¬ w.Reopens l)
      (established highWaterMarkCallback highWaterMark writeCompleteCallback) labels) :
    Along (step server) (Unregistered server fd)
      (established highWaterMarkCallback highWaterMark writeCompleteCallback) labels := by
  refine (hreopens.and hpolls).imp (I:=Watching fd) (fun w l w' hw hl hs => (step_watching hw hl.1 hl.2 hs).1)
    (fun w l hw hl hclosed => ?_) (established_watching fd highWaterMarkCallback highWaterMark writeCompleteCallback)
  obtain ⟨hoff,hactive⟩ := hw.off hclosed
  refine ⟨hoff.channel,hoff.unwatched,?_,fun w' hs => (step_watching hw hl.1 hl.2 hs).2 hclosed⟩
  cases l with
  | loop e =>
    rintro ⟨-,-,a,ha,hconn⟩
    cases (hactive a (List.mem_of_head? ha)).symm.trans hconn
  | call thread a => exact id
  | advance thread => exact id

instance (fd : ℕ) (c : TcpConnection) : Decidable (Unwatched fd c) :=
  inferInstanceAs (Decidable (∃ p ∈ registered fd c.trace, p.kernel fd = none))

instance (c : TcpConnection) : Decidable (AwaitsRemoval c) := inferInstanceAs (Decidable (_ ∧ _))

instance (w : World) (l : Label) : Decidable (w.Dispatches l) :=
  match l with
  | .loop _ => inferInstanceAs (Decidable (_ ∧ _ ∧ ∃ a ∈ w.active.head?, a.isConn = true))
  | .call _ _ => isFalse id
  | .advance _ => isFalse id

instance (server : Option HttpServer) (fd : ℕ) (w : World) (l : Label) : Decidable (w.Unregistered server fd l) :=
  inferInstanceAs (Decidable (AwaitsRemoval w.conn → _ ∧ _ ∧ _ ∧ ∀ w' ∈ step server w l, _))

instance (fd : ℕ) (w : World) (l : Label) : Decidable (w.PollsWatched fd l) :=
  match l with
  | .loop e => inferInstanceAs (Decidable (_ → ∀ a ∈ e.active, a.isConn = false))
  | .call _ _ => isTrue trivial
  | .advance _ => isTrue trivial

instance (f : Functor) : Decidable (∃ thread message, f = .sendInLoop thread message) :=
  match f with
  | .sendInLoop thread message => isTrue ⟨thread,message,rfl⟩
  | .shutdownInLoop | .shutdownAndForceCloseInLoop | .forceCloseInLoop | .startReadInLoop | .stopReadInLoop
  | .addTimer _ | .writeComplete _ | .highWaterMark _ _ | .connectDestroyed | .user => isFalse nofun

instance (t : Task) : Decidable (∃ thread message, t = .functor (.sendInLoop thread message)) :=
  match t with
  | .functor f => decidable_of_iff (∃ thread message, f = .sendInLoop thread message) (by simp)
  | .callback _ | .finishWrite | .messageCallback | .connectionCallback | .closeCallback | .removeChannel
  | .call _ | .timer _ | .other => isFalse nofun

instance (c : TcpConnection) (e : Choice) (t : Task) : Decidable (t.reopens c e) :=
  inferInstanceAs (Decidable (_ ∨ _ ∨ _ ∨ _))

instance (w : World) (l : Label) : Decidable (w.Reopens l) :=
  match l with
  | .loop e => inferInstanceAs (Decidable (_ ∧ ∃ t ∈ w.todo.head?,
      (_ ∧ t.closesNow w.conn e ∧ (_ ∨ ∃ a ∈ w.active, a.isConn = true)) ∨ (_ ∧ t.reopens w.conn e)))
  | .call _ _ => isFalse id
  | .advance _ => isFalse id

theorem closed_unregistered_untilRemoved :
    Along (step none) (Unregistered none 5) (established none 64 none) closedThenDestroyed :=
  closed_unregistered none 5 none 64 none closedThenDestroyed (by decide +kernel) (by decide +kernel)

/-- Thread 1 calls `startRead` while the loop is about to read the end of the stream. -/
def restartedBehindClose : List Label :=
  [.loop {},.loop {},.loop { active := [.conn Channel.POLLIN] },.loop {},.call 1 .startRead,.advance 1,
    .loop { read := .received [] },.loop {},.loop {},.loop {},.loop {},.loop {}]

theorem closed_registered_again :
    ¬ ∀ (server : Option HttpServer) (fd : ℕ) (highWaterMarkCallback : Option HighWaterMarkCallback)
      (highWaterMark : ℕ) (writeCompleteCallback : Option WriteCompleteCallback) (labels : List Label),
      Along (step server) (PollsWatched fd)
        (established highWaterMarkCallback highWaterMark writeCompleteCallback) labels →
      Along (step server) (Unregistered server fd)
        (established highWaterMarkCallback highWaterMark writeCompleteCallback) labels := by
  intro h
  have hfalse : ¬ Along (step none) (Unregistered none 5) (established none 64 none) restartedBehindClose := by
    decide +kernel
  exact hfalse (h none 5 none 64 none restartedBehindClose (by decide +kernel))

/-- At the end of that run the poller watches the closed connection for reading. -/
example : (exec (step none) (established none 64 none) restartedBehindClose).map (fun w =>
    (decide (AwaitsRemoval w.conn),(registered 5 w.conn.trace).bind fun p => p.kernel 5)) =
      some (true,some Channel.kReadEvent) := by decide +kernel

end World
end GgLib
