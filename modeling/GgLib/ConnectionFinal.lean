import GgLib.ConnectionClose

/-! `kDisconnected` as the last state of a connection. The methods that other threads call
test `state_` in one step and store into it in another, and the loop thread can close the
connection in between. -/
namespace GgLib

open LabelledSystem TcpConnection

def Pc.isStoring : Pc → Bool
  | .storing _ => true
  | _ => false

def TcpConnection.Task.isDeferred : Task → Bool
  | .functor _ => true
  | .timer _ => true
  | _ => false

def Label.isLoop : Label → Bool
  | .loop _ => true
  | _ => false

/-- What `connectDestroyed` does behind its load of `kConnected`. -/
def TcpConnection.destroy (c : TcpConnection) : TcpConnection × List Task :=
  let c := c.setState .kDisconnected
  let c := c.updateChannel c.channel.disableAll
  (c.record .connectionCallback,[.connectionCallback,.removeChannel])

theorem TcpConnection.connectDestroyed_eq (c : TcpConnection) :
    c.connectDestroyed = if c.state = .kConnected then c.destroy else (c,[.removeChannel]) := rfl

theorem TcpConnection.run_deferred {server : Option HttpServer} {c : TcpConnection} {e : Choice} {t : Task}
    {p : TcpConnection × List Task} (h : c.run server e t = some p) (ht : t.isDeferred = true) :
    Mute c p.1 ∨ (c.state ≠ .kDisconnected ∧ ClosedNow c p.1) := by
  have hguarded : ¬ t.unguarded e := by
    cases t <;> first | exact id | cases ht
  rcases run_closes h with ⟨hmute,-⟩ | ⟨hlive,hclosed,-⟩ | ⟨hu,-⟩
  · exact .inl hmute
  · exact .inr ⟨hlive,hclosed⟩
  · exact absurd hu hguarded

namespace World

/-- Another thread stores `kDisconnecting` over `kDisconnected`. -/
def StoresOver (w : World) : Label → Prop
  | .advance thread => w.conn.state = .kDisconnected ∧ (w.threads thread).isStoring = true
  | _ => False

def RunsDeferred (w : World) : Label → Prop
  | .loop _ => ∃ t ∈ w.todo.head?, t.isDeferred = true
  | _ => False

/-- The step leaves `kDisconnected` alone, and no functor or timer in it calls `handleClose`
a second time. -/
def Final (server : Option HttpServer) (w : World) (l : Label) : Prop :=
  ∀ w' ∈ step server w l,
    (w.conn.state = .kDisconnected → w'.conn.state = .kDisconnected) ∧
      (w.RunsDeferred l → .handleClose ∈ w.conn.trace →
        w'.conn.trace.count .handleClose = w.conn.trace.count .handleClose)

def ClosedIsDisconnected (w : World) : Prop := .handleClose ∈ w.conn.trace → w.conn.state = .kDisconnected

/-- A step runs a task, or it makes no call on the connection and at most starts to
disconnect it; then `kDisconnected` can only be stored over. -/
theorem step_mute {server : Option HttpServer} {w w' : World} {l : Label} (h : step server w l = some w') :
    (∃ e t ts p, l = .loop e ∧ w.todo = t::ts ∧ w.conn.run server e t = some p ∧
        w' = { w with conn := p.1, todo := p.2++ts }) ∨
      (¬ w.RunsDeferred l ∧ w'.conn.trace.count .handleClose = w.conn.trace.count .handleClose ∧
        (w.StoresOver l ∨ Mute w.conn w'.conn)) := by
  rcases step_cases h with htask | ⟨e,rfl,htodo,ht⟩ | ⟨thread,a,p,rfl,-,-,hp,rfl⟩ | ⟨thread,p,rfl,hp,rfl⟩
  · exact .inl htask
  · obtain ⟨hconn,-⟩ := turn_conn ht
    rw [hconn]
    exact .inr ⟨by simp [RunsDeferred,htodo],rfl,.inr (.same rfl rfl)⟩
  · right
    rcases threadCall_cases hp with ⟨message,-,-,rfl⟩ | rfl | ⟨f,rfl,-⟩ | ⟨f,rfl,-,-⟩
    · exact ⟨id,by simp [record],.inr (.record _ rfl)⟩
    · exact ⟨id,rfl,.inr (.refl _)⟩
    · exact ⟨id,rfl,.inr (.refl _)⟩
    · exact ⟨id,rfl,.inr (.refl _)⟩
  · right
    rcases threadAdvance_cases hp with ⟨next,hpc,rfl⟩ | ⟨f,-,rfl⟩
    · refine ⟨id,rfl,?_⟩
      by_cases hs : w.conn.state = .kDisconnected
      · exact .inl ⟨hs,by rw [hpc]; rfl⟩
      · exact .inr ⟨⟨[],by simp [setState],by simp⟩,fun h => absurd h hs⟩
    · exact ⟨id,rfl,.inr (.same rfl rfl)⟩

theorem step_closedIsDisconnected {server : Option HttpServer} {w w' : World} {l : Label}
    (hw : w.ClosedIsDisconnected) (hl : ¬ w.StoresOver l) (h : step server w l = some w') :
    w'.ClosedIsDisconnected := by
  rcases step_mute h with ⟨e,t,ts,p,-,-,hp,rfl⟩ | ⟨-,-,hover | hmute⟩
  · rcases run_closes hp with ⟨hmute,-⟩ | ⟨-,hclosed,-⟩ | ⟨-,hclosed | ⟨hstate,htrace⟩⟩
    · exact fun hmem => hmute.state (hw ((Mute.closed hmute).mp hmem))
    · exact fun _ => hclosed.1
    · exact fun _ => hclosed.1
    · show .handleClose ∈ p.1.trace → p.1.state = .kDisconnected
      rw [hstate,htrace]
      simpa [ClosedIsDisconnected] using hw
  · exact absurd hover hl
  · exact fun hmem => hmute.state (hw ((Mute.closed hmute).mp hmem))

/-- A closed connection is final in a step exactly if no other thread stores over it. -/
theorem final_step_iff (server : Option HttpServer) {w : World} (hw : w.ClosedIsDisconnected) (l : Label) :
    w.Final server l ↔ ¬ w.StoresOver l := by
  constructor
  · intro hfinal hover
    cases l with
    | loop e => exact hover
    | call thread a => exact hover
    | advance thread =>
      obtain ⟨hs,hstoring⟩ := hover
      cases hpc : w.threads thread with
      | storing next =>
        have hstep : step server w (.advance thread) = some
            { w with
              conn := w.conn.setState .kDisconnecting
              threads := Function.update w.threads thread (.pushing next) } := by
          rw [step,hpc]
          rfl
        cases (hfinal _ hstep).1 hs
      | idle => simp [hpc,Pc.isStoring] at hstoring
      | pushing f => simp [hpc,Pc.isStoring] at hstoring
  · intro hl w' h
    rcases step_mute h with ⟨e,t,ts,p,rfl,htodo,hp,rfl⟩ | ⟨hdeferred,hcount,hover | hmute⟩
    · constructor
      · intro hs
        rcases run_closes hp with ⟨hmute,-⟩ | ⟨hlive,-,-⟩ | ⟨-,hclosed | ⟨hstate,-⟩⟩
        · exact hmute.state hs
        · exact absurd hs hlive
        · exact hclosed.1
        · exact hstate.trans hs
      · rintro ⟨t',ht',hdeferred⟩ hmem
        rw [htodo] at ht'
        cases ht'
        rcases run_deferred hp hdeferred with hmute | ⟨hlive,-⟩
        · obtain ⟨es,hes,hquiet⟩ := hmute.trace
          have hnot : .handleClose ∉ es := fun hclose => by cases hquiet _ hclose
          show p.1.trace.count _ = _
          rw [hes,List.count_append,List.count_eq_zero.mpr hnot,Nat.add_zero]
        · exact absurd (hw hmem) hlive
    · exact absurd hover hl
    · exact ⟨hmute.state,fun hrun => absurd hrun hdeferred⟩

theorem established_closedIsDisconnected {highWaterMarkCallback : Option HighWaterMarkCallback} {highWaterMark : ℕ}
    {writeCompleteCallback : Option WriteCompleteCallback} :
    ClosedIsDisconnected (established highWaterMarkCallback highWaterMark writeCompleteCallback) := by
  intro hmem
  simp [established,connectEstablished,create,record,updateChannel,setState] at hmem

/-- With any calls from any threads and any steps of the loop, along every sequence of steps:
`kDisconnected` is final, and no functor or timer closes a second time, if and only if no
thread that tested `state_` before the close stores into it behind the close. -/
theorem disconnected_final_iff (server : Option HttpServer)
    (highWaterMarkCallback : Option HighWaterMarkCallback) (highWaterMark : ℕ)
    (writeCompleteCallback : Option WriteCompleteCallback) (labels : List Label) :
    Along (step server) (Final server)
        (established highWaterMarkCallback highWaterMark writeCompleteCallback) labels ↔
      Along (step server) (fun w l => ¬ w.StoresOver l)
        (established highWaterMarkCallback highWaterMark writeCompleteCallback) labels := by
  refine Along.congr (I:=ClosedIsDisconnected) (fun _ _ _ hw hl hs => step_closedIsDisconnected hw hl hs)
    (fun _ l hw => final_step_iff server hw l) established_closedIsDisconnected

/-- A step, or `connectDestroyed` with steps of other threads between its load and its store of `state_`. A store of
another thread between the load and the store of any other method of the loop thread is as one before the method, or
behind it. -/
inductive FineLabel
  | step (l : Label)
  | connectDestroyed (between : List Label)
  deriving DecidableEq, Repr

def fineStep (server : Option HttpServer) (w : World) : FineLabel → Option World
  | .step l => step server w l
  | .connectDestroyed between =>
    match w.todo with
    | [] => none
    | t::ts =>
      if (t = .call .connectDestroyed ∨ t = .functor .connectDestroyed) ∧ w.conn.state = .kConnected ∧
          ∀ l ∈ between, l.isLoop = false then
        (exec (step server) w between).map fun w =>
          { w with conn := w.conn.destroy.1, todo := w.conn.destroy.2++ts }
      else none

theorem fineStep_nil (server : Option HttpServer) {w : World} {t : Task} {ts : List Task} (htodo : w.todo = t::ts)
    (ht : t = .call .connectDestroyed ∨ t = .functor .connectDestroyed) (hs : w.conn.state = .kConnected) (e : Choice) :
    fineStep server w (.connectDestroyed []) = step server w (.loop e) := by
  have hdestroy : w.conn.connectDestroyed = w.conn.destroy := by rw [connectDestroyed_eq,if_pos hs]
  have hrun : w.conn.run server e t = some w.conn.destroy := by
    rw [← hdestroy]
    rcases ht with rfl | rfl <;> rfl
  have hbetween : ∀ l ∈ ([] : List Label), l.isLoop = false := fun l hl => absurd hl List.not_mem_nil
  simp only [fineStep,htodo,if_pos (And.intro ht (And.intro hs hbetween)),exec,step,loopStep,hrun,Option.map_some]

/-- `Final`, of the steps in between too. -/
def FineFinal (server : Option HttpServer) (w : World) : FineLabel → Prop
  | .step l => w.Final server l
  | .connectDestroyed between =>
    ∀ w' ∈ fineStep server w (.connectDestroyed between),
      Along (step server) (Final server) w between ∧ w'.conn.state = .kDisconnected ∧
        w'.conn.trace.count .handleClose = w.conn.trace.count .handleClose

def FineStoresOver (w : World) : FineLabel → Prop
  | .step l => w.StoresOver l
  | .connectDestroyed _ => False

theorem live_not_storesOver {w : World} (hlive : w.conn.live) (l : Label) : ¬ w.StoresOver l := by
  intro hover
  cases l with
  | loop e => exact hover
  | call thread a => exact hover
  | advance thread => exact live_ne hlive hover.1

theorem otherThread_live {server : Option HttpServer} {w w' : World} {l : Label} (hl : l.isLoop = false)
    (hlive : w.conn.live) (h : step server w l = some w') :
    w'.conn.live ∧ w'.conn.trace.count .handleClose = w.conn.trace.count .handleClose := by
  rcases step_cases h with ⟨e,-,-,-,rfl,-⟩ | ⟨e,rfl,-⟩ | ⟨thread,a,p,rfl,-,-,hp,rfl⟩ | ⟨thread,p,rfl,hp,rfl⟩
  · cases hl
  · cases hl
  · rcases threadCall_cases hp with ⟨message,-,-,rfl⟩ | rfl | ⟨f,rfl,-⟩ | ⟨f,rfl,-,-⟩
    · exact ⟨hlive,by simp [record]⟩
    · exact ⟨hlive,rfl⟩
    · exact ⟨hlive,rfl⟩
    · exact ⟨hlive,rfl⟩
  · rcases threadAdvance_cases hp with ⟨next,-,rfl⟩ | ⟨f,-,rfl⟩
    · exact ⟨.inr rfl,rfl⟩
    · exact ⟨hlive,rfl⟩

/-- Steps of other threads between the load and the store find a connection that is not closed. -/
theorem connectDestroyed_final (server : Option HttpServer) {w : World} (hw : w.ClosedIsDisconnected)
    (between : List Label) : w.FineFinal server (.connectDestroyed between) := by
  intro w' h
  rw [fineStep] at h
  split at h
  · cases h
  · split at h
    · rename_i hdestroys
      obtain ⟨-,hs,hbetween⟩ := hdestroys
      obtain ⟨w₁,hexec,rfl⟩ := Option.map_eq_some_iff.mp h
      have hlive : w.conn.live := .inl hs
      refine ⟨?_,rfl,?_⟩
      · refine Along.imp (I:=fun w => w.ClosedIsDisconnected ∧ w.conn.live) (C:=fun _ l => l.isLoop = false) ?_ ?_
          ⟨hw,hlive⟩ (Along.of_labels hbetween)
        · rintro v l v' ⟨hclosed,hlive⟩ hl hstep
          exact ⟨step_closedIsDisconnected hclosed (live_not_storesOver hlive l) hstep,
            (otherThread_live hl hlive hstep).1⟩
        · rintro v l ⟨hclosed,hlive⟩ -
          exact (final_step_iff server hclosed l).mpr (live_not_storesOver hlive l)
      · have hrun := (run_iff_exec _ _ _ _).mpr hexec
        have hkept := hrun.invariant_along
          (I:=fun v => v.conn.live ∧ v.conn.trace.count .handleClose = w.conn.trace.count .handleClose)
          (C:=fun _ l => l.isLoop = false) ?_ (Along.of_labels hbetween) ⟨hlive,rfl⟩
        · have hcount : w₁.conn.destroy.1.trace.count .handleClose = w₁.conn.trace.count .handleClose := by
            simp [destroy,record,updateChannel,setState]
          exact hcount.trans hkept.2
        · rintro v l v' ⟨hlive,hcount⟩ hl hstep
          obtain ⟨hlive',hcount'⟩ := otherThread_live hl hlive hstep
          exact ⟨hlive',hcount'.trans hcount⟩
    · cases h

theorem fineStep_closedIsDisconnected {server : Option HttpServer} {w w' : World} {l : FineLabel}
    (hw : w.ClosedIsDisconnected) (hl : ¬ w.FineStoresOver l) (h : fineStep server w l = some w') :
    w'.ClosedIsDisconnected := by
  cases l with
  | step l => exact step_closedIsDisconnected hw hl h
  | connectDestroyed between => exact fun _ => (connectDestroyed_final server hw between w' h).2.1

/-- With the load and the store of `connectDestroyed` apart no other run breaks it: a store in between is overwritten,
and only one behind the close counts. -/
theorem disconnected_final_fine (server : Option HttpServer)
    (highWaterMarkCallback : Option HighWaterMarkCallback) (highWaterMark : ℕ)
    (writeCompleteCallback : Option WriteCompleteCallback) (labels : List FineLabel) :
    Along (fineStep server) (FineFinal server)
        (established highWaterMarkCallback highWaterMark writeCompleteCallback) labels ↔
      Along (fineStep server) (fun w l => ¬ w.FineStoresOver l)
        (established highWaterMarkCallback highWaterMark writeCompleteCallback) labels := by
  refine Along.congr (I:=ClosedIsDisconnected) (fun _ _ _ hw hl hs => fineStep_closedIsDisconnected hw hl hs)
    (fun w l hw => ?_) established_closedIsDisconnected
  cases l with
  | step l => exact final_step_iff server hw l
  | connectDestroyed between => exact ⟨fun _ => id,fun _ => connectDestroyed_final server hw between⟩

instance (w : World) (l : Label) : Decidable (w.RunsDeferred l) :=
  match l with
  | .loop _ => inferInstanceAs (Decidable (∃ t ∈ w.todo.head?, t.isDeferred = true))
  | .call _ _ => isFalse id
  | .advance _ => isFalse id

instance (server : Option HttpServer) (w : World) (l : Label) : Decidable (w.Final server l) :=
  inferInstanceAs (Decidable (∀ w' ∈ step server w l, _))

/-- Thread 1 finds the connection connected in `forceClose`; the loop reads the end of the
stream and closes it; then the thread stores and its functor closes the connection again. -/
def storeBehindClose : List Label :=
  [.loop {},.loop {},.loop { active := [.conn Channel.POLLIN] },.loop {},.call 1 .forceClose,
    .loop { read := .received [] },.advance 1,.advance 1,.loop {},.loop {},.loop {},.loop {},.loop {}]

theorem disconnected_not_final :
    ¬ ∀ (server : Option HttpServer) (highWaterMarkCallback : Option HighWaterMarkCallback)
      (highWaterMark : ℕ) (writeCompleteCallback : Option WriteCompleteCallback) (labels : List Label),
      Along (step server) (Final server)
        (established highWaterMarkCallback highWaterMark writeCompleteCallback) labels := by
  intro h
  have hfalse : ¬ Along (step none) (Final none) (established none 64 none) storeBehindClose := by
    decide +kernel
  exact hfalse (h none none 64 none storeBehindClose)

/-- In that run `handleClose` is called twice. -/
example : (exec (step none) (established none 64 none) storeBehindClose).map
    (fun w => w.conn.trace.count .handleClose) = some 2 := by decide +kernel

end World
end GgLib
