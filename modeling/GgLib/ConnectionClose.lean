import GgLib.ConnectionRecord

/-! What is called on a connection after `handleClose`. The loop dispatches what poll
fixed before the close, and that decides whether the connection stays silent. -/
namespace GgLib

open LabelledSystem TcpConnection

namespace TcpConnection

/-- The calls that must not follow a close. -/
def Event.loud : Event → Bool
  | .handleClose => true
  | .messageCallback => true
  | .connectionCallback => true
  | _ => false

/-- `handleClose` happens at most once, and behind it neither `messageCallback_` nor
`connectionCallback_` is called; the callbacks of `handleClose` itself belong to it. -/
def Silent (trace : List Event) : Prop :=
  ∀ before behind, trace = before++.handleClose::behind → ∀ e ∈ behind, e.loud = false

theorem silent_snoc (trace : List Event) (e : Event) :
    Silent (trace++[e]) ↔ Silent trace ∧ (.handleClose ∈ trace → e.loud = false) := by
  constructor
  · intro h
    constructor
    · rintro before behind rfl f hf
      exact h before (behind++[e]) (by simp) f (List.mem_append_left _ hf)
    · intro hmem
      obtain ⟨before,behind,rfl⟩ := List.append_of_mem hmem
      exact h before (behind++[e]) (by simp) e (by simp)
  · rintro ⟨h,he⟩ before behind hsplit f hf
    rcases List.eq_nil_or_concat behind with rfl | ⟨behind,g,rfl⟩
    · cases hf
    · rw [List.concat_eq_append] at hsplit hf
      have hsplit' : trace++[e] = (before++.handleClose::behind)++[g] := by simpa using hsplit
      obtain ⟨rfl,hg⟩ := List.append_inj' hsplit' rfl
      cases hg
      rcases List.mem_append.mp hf with hf | hf
      · exact h before behind rfl f hf
      · rw [List.mem_singleton.mp hf]
        exact he (by simp)

theorem silent_append_mute {trace es : List Event} (h : ∀ e ∈ es, e.loud = false) :
    Silent (trace++es) ↔ Silent trace := by
  induction es generalizing trace with
  | nil => simp
  | cons e es ih =>
    rw [← List.singleton_append,← List.append_assoc,ih fun f hf => h f (.tail _ hf),silent_snoc]
    simp [h e (.head _)]

theorem silent_of_not_closed {trace : List Event} (h : .handleClose ∉ trace) : Silent trace := by
  rintro before behind rfl
  simp at h

/-- Nothing loud happens, and a disconnected connection stays disconnected. -/
structure Mute (c c' : TcpConnection) : Prop where
  trace : ∃ es, c'.trace = c.trace++es ∧ ∀ e ∈ es, e.loud = false
  state : c.state = .kDisconnected → c'.state = .kDisconnected

namespace Mute

variable {c c' : TcpConnection}

theorem same (htrace : c'.trace = c.trace) (hstate : c'.state = c.state) : Mute c c' :=
  ⟨⟨[],by simp [htrace],by simp⟩,fun h => hstate.trans h⟩

theorem refl (c : TcpConnection) : Mute c c := same rfl rfl

theorem record (c : TcpConnection) {e : Event} (h : e.loud = false) : Mute c (c.record e) :=
  ⟨⟨[e],rfl,by simpa using h⟩,id⟩

end Mute

def ClosedNow (c c' : TcpConnection) : Prop :=
  c'.state = .kDisconnected ∧ ∃ events e, c'.trace = c.trace++[.update events,e] ∧ e.loud = true

/-- The task calls `handleClose` or `messageCallback_` without looking at `state_`. -/
def Task.unguarded (e : Choice) : Task → Prop
  | .callback .close => True
  | .callback .read => e.read ≠ .failed
  | _ => False

/-- A task that looks at `state_` closes a connection only if it is not disconnected. -/
theorem closes_guarded {c : TcpConnection} {e : Choice} {t : Task} (h : t.closes c e) (hu : ¬ t.unguarded e) :
    c.state ≠ .kDisconnected := by
  rcases h with hnow | ⟨-,hs⟩
  · cases t with
    | callback cb =>
      cases cb with
      | close => exact absurd trivial hu
      | read =>
        refine absurd (fun hfailed => ?_) hu
        cases hfailed.symm.trans hnow
      | _ => cases hnow
    | functor f =>
      cases f with
      | forceCloseInLoop => exact live_ne hnow
      | _ => cases hnow
    | timer i => exact live_ne hnow.2
    | _ => cases hnow
  · simp [hs]

theorem run_mute {server : Option HttpServer} {c : TcpConnection} {e : Choice} {t : Task}
    {p : TcpConnection × List Task} (h : c.run server e t = some p) (hcloses : ¬ t.closes c e)
    (hu : ¬ t.unguarded e) : Mute c p.1 := by
  obtain ⟨es,hes,hrecords,-⟩ := (run_appends h).trace
  refine ⟨⟨es,hes,fun ev hev => ?_⟩,run_final h⟩
  have hrecord := hrecords ev hev
  cases ev with
  | handleClose => exact absurd (.inl hrecord) hcloses
  | connectionCallback => exact absurd (.inr hrecord) hcloses
  | messageCallback =>
    obtain ⟨rfl,bytes,-,hread⟩ := hrecord
    refine absurd (fun hfailed => ?_) hu
    cases hfailed.symm.trans hread
  | _ => rfl

theorem run_closes {server : Option HttpServer} {c : TcpConnection} {e : Choice} {t : Task}
    {p : TcpConnection × List Task} (h : c.run server e t = some p) :
    (Mute c p.1 ∧ ¬ t.unguarded e) ∨ (c.state ≠ .kDisconnected ∧ ClosedNow c p.1 ∧ ¬ t.unguarded e) ∨
      (t.unguarded e ∧ (ClosedNow c p.1 ∨ (p.1.state = c.state ∧ p.1.trace = c.trace++[.messageCallback]))) := by
  by_cases hcloses : t.closes c e
  · obtain ⟨hstate,ev,hev,htrace⟩ := run_reported h hcloses
    have hclosed : ClosedNow c p.1 := ⟨hstate,_,ev,htrace,by rcases hev with rfl | rfl <;> rfl⟩
    by_cases hu : t.unguarded e
    · exact .inr (.inr ⟨hu,.inl hclosed⟩)
    · exact .inr (.inl ⟨closes_guarded hcloses hu,hclosed,hu⟩)
  · by_cases hu : t.unguarded e
    · -- what is left is a read of data
      refine .inr (.inr ⟨hu,.inr ?_⟩)
      cases t with
      | callback cb =>
        cases cb with
        | close => exact absurd (.inl trivial) hcloses
        | read =>
          cases h
          rcases hr : e.read with ⟨_ | ⟨x,xs⟩⟩ | _
          · exact absurd (.inl hr) hcloses
          · exact ⟨rfl,rfl⟩
          · exact absurd hr hu
        | _ => cases hu
      | _ => cases hu
    · exact .inl ⟨run_mute h hcloses hu,hu⟩

end TcpConnection
namespace World

def storesState : Action → Bool
  | .shutdown => true
  | .shutdownAndForceCloseAfter => true
  | .forceClose => true
  | .forceCloseWithDelay => true
  | _ => false

/-- The steps of a connection whose state only its loop thread changes. -/
def onLoopThread (server : Option HttpServer) (w : World) : Label → Option World
  | .call thread a => if storesState a then none else step server w (.call thread a)
  | l => step server w l

/-- The step dispatches, behind a `handleClose`, a close callback or a read callback that
reads data or the end of the stream. -/
def Stale (w : World) : Label → Prop
  | .loop e => .handleClose ∈ w.conn.trace ∧ ∃ t ∈ w.todo.head?, t.unguarded e
  | _ => False

structure ClosedForGood (w : World) : Prop where
  state : .handleClose ∈ w.conn.trace → w.conn.state = .kDisconnected
  threads : ∀ t next, w.threads t ≠ .storing next

/-- A step runs one task, or it changes neither the state nor the calls. -/
theorem onLoopThread_cases {server : Option HttpServer} {w w' : World} {l : Label}
    (hw : ∀ t next, w.threads t ≠ .storing next) (h : onLoopThread server w l = some w') :
    (∃ e t ts p, l = .loop e ∧ w.todo = t::ts ∧ w.conn.run server e t = some p ∧ w'.conn = p.1 ∧
        w'.threads = w.threads) ∨
      (¬ w.Stale l ∧ Mute w.conn w'.conn ∧ w'.conn.state = w.conn.state ∧
        ∀ t next, w'.threads t ≠ .storing next) := by
  have hupdate : ∀ thread pc, (∀ next, pc ≠ .storing next) →
      ∀ t next, Function.update w.threads thread pc t ≠ .storing next := by
    intro thread pc hpc t next
    by_cases ht : t = thread
    · rw [ht,Function.update_self]
      exact hpc next
    · rw [Function.update_of_ne ht]
      exact hw t next
  have hstep : step server w l = some w' := by
    cases l with
    | loop e => exact h
    | call thread a =>
      rw [onLoopThread] at h
      split at h
      · cases h
      · exact h
    | advance thread => exact h
  rcases step_cases hstep with ⟨e,t,ts,p,rfl,htodo,hp,rfl⟩ | ⟨e,rfl,htodo,ht⟩ |
    ⟨thread,a,p,rfl,-,-,hp,rfl⟩ | ⟨thread,p,rfl,hp,rfl⟩
  · exact .inl ⟨e,t,ts,p,rfl,htodo,hp,rfl,rfl⟩
  · obtain ⟨hconn,hthreads⟩ := turn_conn ht
    refine .inr ⟨by simp [Stale,htodo],?_,by rw [hconn],by rw [hthreads]; exact hw⟩
    rw [hconn]
    exact .same rfl rfl
  · have ha : storesState a = false := by
      rw [onLoopThread] at h
      split at h
      · cases h
      · simpa using ‹¬ storesState a = true›
    refine .inr ⟨id,?_⟩
    cases a with
    | send message =>
      simp only [threadCall,Option.some.injEq] at hp
      split at hp <;> subst hp
      · exact ⟨.record _ rfl,rfl,hupdate _ _ (by simp)⟩
      · exact ⟨.refl _,rfl,hupdate _ _ (by simp)⟩
    | startRead => cases hp; exact ⟨.refl _,rfl,hupdate _ _ (by simp)⟩
    | stopRead => cases hp; exact ⟨.refl _,rfl,hupdate _ _ (by simp)⟩
    | connectDestroyed => cases hp; exact ⟨.refl _,rfl,hupdate _ _ (by simp)⟩
    | queueInLoop => cases hp; exact ⟨.refl _,rfl,hupdate _ _ (by simp)⟩
    | setWriteCompleteCallback cb => cases hp
    | setHighWaterMarkCallback cb mark => cases hp
    | retrieve n => cases hp
    | _ => cases ha
  · refine .inr ⟨id,?_⟩
    rcases threadAdvance_cases hp with ⟨next,hpc,rfl⟩ | ⟨f,hpc,rfl⟩
    · exact absurd hpc (hw thread next)
    · exact ⟨.same rfl rfl,rfl,hupdate _ _ (by simp)⟩

theorem Mute.closed {c c' : TcpConnection} (h : Mute c c') :
    .handleClose ∈ c'.trace ↔ .handleClose ∈ c.trace := by
  obtain ⟨es,hes,hmute⟩ := h.trace
  have hnot : .handleClose ∉ es := fun hmem => by cases hmute _ hmem
  rw [hes,List.mem_append,or_iff_left hnot]

theorem step_closedForGood (server : Option HttpServer) (w : World) (l : Label) (w' : World)
    (hw : w.ClosedForGood) (h : onLoopThread server w l = some w') : w'.ClosedForGood := by
  rcases onLoopThread_cases hw.threads h with ⟨e,t,ts,p,-,-,hp,hconn,hthreads⟩ | ⟨-,hmute,hstate,hthreads⟩
  · refine ⟨?_,by rw [hthreads]; exact hw.threads⟩
    rw [hconn]
    rcases run_closes hp with ⟨hmute,-⟩ | ⟨-,hclosed,-⟩ | ⟨-,hclosed | ⟨hstate,htrace⟩⟩
    · rw [Mute.closed hmute]
      exact fun hmem => hmute.state (hw.state hmem)
    · exact fun _ => hclosed.1
    · exact fun _ => hclosed.1
    · rw [hstate,htrace]
      simpa using hw.state
  · refine ⟨?_,hthreads⟩
    rw [Mute.closed hmute,hstate]
    exact hw.state

/-- One step keeps the connection silent exactly if it dispatches nothing stale. -/
theorem step_silent_iff (server : Option HttpServer) (w : World) (l : Label) (w' : World)
    (hw : w.ClosedForGood) (h : onLoopThread server w l = some w') :
    Silent w'.conn.trace ↔ Silent w.conn.trace ∧ ¬ w.Stale l := by
  have hmuteiff : ∀ c', Mute w.conn c' → (Silent c'.trace ↔ Silent w.conn.trace) := by
    intro c' hm
    obtain ⟨es,hes,hmute⟩ := hm.trace
    rw [hes,silent_append_mute hmute]
  have hclosediff : ∀ c', ClosedNow w.conn c' →
      (Silent c'.trace ↔ Silent w.conn.trace ∧ .handleClose ∉ w.conn.trace) := by
    rintro c' ⟨-,events,e,htrace,hloud⟩
    have hupdate : (Event.update events).loud = false := rfl
    rw [htrace,← List.singleton_append (l:=[e]),← List.append_assoc,silent_snoc,silent_snoc]
    simp [hloud,hupdate]
  rcases onLoopThread_cases hw.threads h with ⟨e,t,ts,p,rfl,htodo,hp,hconn,-⟩ | ⟨hstale,hmute,-,-⟩
  · have hstale : w.Stale (.loop e) ↔ .handleClose ∈ w.conn.trace ∧ t.unguarded e := by
      simp [Stale,htodo]
    rw [hstale,hconn]
    rcases run_closes hp with ⟨hmute,hu⟩ | ⟨hlive,hclosed,hu⟩ | ⟨hu,hclosed | ⟨-,htrace⟩⟩
    · rw [hmuteiff _ hmute]
      simp [hu]
    · rw [hclosediff _ hclosed]
      have hnot : .handleClose ∉ w.conn.trace := fun hmem => hlive (hw.state hmem)
      simp [hu,hnot]
    · rw [hclosediff _ hclosed]
      simp [hu]
    · rw [htrace,silent_snoc]
      simp [hu,Event.loud]
  · rw [hmuteiff _ hmute]
    simp [hstale]

/-- In every run of a connection whose state only its loop thread changes, with any poll
results, timers and functors: `handleClose` happened at most once with silence behind it
if and only if no step dispatched a stale close or read callback. -/
theorem closed_once_iff (server : Option HttpServer) (highWaterMarkCallback : Option HighWaterMarkCallback)
    (highWaterMark : ℕ) (writeCompleteCallback : Option WriteCompleteCallback)
    {labels : List Label} {w : World}
    (h : Run (onLoopThread server)
      (established highWaterMarkCallback highWaterMark writeCompleteCallback) labels w) :
    Silent w.conn.trace ↔ Along (onLoopThread server) (fun w l => ¬ w.Stale l)
      (established highWaterMarkCallback highWaterMark writeCompleteCallback) labels := by
  have hnot : .handleClose ∉
      (established highWaterMarkCallback highWaterMark writeCompleteCallback).conn.trace := by
    simp [established,connectEstablished,create,record,updateChannel,setState]
  have hstart : (established highWaterMarkCallback highWaterMark writeCompleteCallback).ClosedForGood :=
    ⟨fun hmem => absurd hmem hnot,fun t next => by simp [established]⟩
  rw [h.iff_along (step_closedForGood server) (step_silent_iff server) hstart]
  exact and_iff_right (silent_of_not_closed hnot)

instance (t : Task) (e : Choice) : Decidable (t.unguarded e) :=
  match t with
  | .callback .close => isTrue trivial
  | .callback .read => inferInstanceAs (Decidable (_ ≠ _))
  | .callback .error | .callback .write | .finishWrite | .messageCallback | .connectionCallback
  | .closeCallback | .removeChannel | .call _ | .functor _ | .timer _ | .other => isFalse id

instance (w : World) (l : Label) : Decidable (w.Stale l) :=
  match l with
  | .loop e => inferInstanceAs (Decidable (_ ∈ w.conn.trace ∧ ∃ t ∈ w.todo.head?, t.unguarded e))
  | .call _ _ => isFalse id
  | .advance _ => isFalse id

/-- A user shuts down with a timer; then the timer channel and the connection's channel are
active in one poll result. -/
def timerFirst (revents : BitVec 32) : List Label :=
  [.loop {},.loop {},.loop { active := [.other] },.loop {},.loop { acts := [.shutdownAndForceCloseAfter] },
    .loop {},.loop {},.loop {},.loop { active := [.timer 0,.conn revents] },.loop {},.loop {},.loop {},.loop {},
    .loop {},.loop { read := .received [1] }]

theorem closed_once_iff_timerFirst :
    ∃ w, exec (onLoopThread none) (established none 64 none) (timerFirst Channel.POLLOUT) = some w ∧
      (Silent w.conn.trace ↔ Along (onLoopThread none) (fun w l => ¬ w.Stale l) (established none 64 none)
        (timerFirst Channel.POLLOUT)) ∧ Silent w.conn.trace := by
  obtain ⟨w,hw⟩ : ∃ w, exec (onLoopThread none) (established none 64 none) (timerFirst Channel.POLLOUT) =
      some w := Option.isSome_iff_exists.mp (by decide +kernel)
  have hiff := closed_once_iff none none 64 none ((run_iff_exec _ _ _ _).mpr hw)
  exact ⟨w,hw,hiff,hiff.mpr (by decide +kernel)⟩

/-- The timer closes the connection, and then the bytes that poll had seen reach
`messageCallback_`. -/
theorem closed_not_silent :
    ¬ ∀ (server : Option HttpServer) (highWaterMarkCallback : Option HighWaterMarkCallback)
      (highWaterMark : ℕ) (writeCompleteCallback : Option WriteCompleteCallback)
      (labels : List Label) (w : World),
      Run (onLoopThread server)
        (established highWaterMarkCallback highWaterMark writeCompleteCallback) labels w →
      Silent w.conn.trace := by
  intro h
  obtain ⟨w,hw⟩ : ∃ w, exec (onLoopThread none) (established none 64 none) (timerFirst Channel.POLLIN) =
      some w := Option.isSome_iff_exists.mp (by decide +kernel)
  have htrace : (exec (onLoopThread none) (established none 64 none) (timerFirst Channel.POLLIN)).map
      (fun w => w.conn.trace.drop 4) = some [.handleClose,.messageCallback] := by decide +kernel
  rw [hw] at htrace
  have hdrop : w.conn.trace.drop 4 = [.handleClose,.messageCallback] := Option.some.inj htrace
  have hsplit : w.conn.trace = w.conn.trace.take 4++.handleClose::[.messageCallback] := by
    rw [← hdrop,List.take_append_drop]
  have hsilent := h none none 64 none _ w ((run_iff_exec _ _ _ _).mpr hw) _ _ hsplit .messageCallback (.head _)
  cases hsilent

end World
end GgLib
