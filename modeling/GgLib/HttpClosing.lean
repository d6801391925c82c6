import GgLib.HttpStream

/-! Behind `forceClose` no message is handled: its functor closes the connection before the loop polls again, and the
channel is active once in a poll. So `onMessage` always runs on a session whose answers have not closed it. -/
namespace GgLib

open ByteQueue LabelledSystem TcpConnection

namespace TcpConnection

/-- The read callback, or what it goes on to. -/
def Task.onRead : Task → Bool
  | .callback .read | .messageCallback | .call _ => true
  | _ => false

def Task.delivers : Task → Bool
  | .callback .read | .messageCallback => true
  | _ => false

theorem Task.onRead_of_delivers {t : Task} (h : t.delivers = true) : t.onRead = true := by
  cases t with
  | callback cb => cases cb <;> first | rfl | cases h
  | messageCallback => rfl
  | _ => cases h

/-- The first task is not followed by another message of the same poll. -/
def Task.Alone (t t' : Task) : Prop := t.onRead = true → t'.delivers = false

theorem Task.leadsTo.onRead {c : TcpConnection} {e : Choice} {t t' : Task} (hacts : e.acts = [])
    (h : t.leadsTo c e t') (ht' : t'.onRead = true) : t.onRead = true := by
  cases t' with
  | messageCallback =>
    rw [h.1]
    rfl
  | call a =>
    rcases h with h | ⟨rfl,-⟩
    · simp [hacts] at h
    · rfl
  | callback cb => cases h
  | _ => cases ht'

theorem Task.leadsTo.delivers {c : TcpConnection} {e : Choice} {t t' : Task} (h : t.leadsTo c e t')
    (ht' : t'.delivers = true) : t.delivers = true := by
  cases t' with
  | messageCallback =>
    rw [h.1]
    rfl
  | callback cb => cases h
  | _ => cases ht'

/-- A task of the server starts to disconnect the connection only with `forceClose`. -/
theorem run_forceCloses {server : Option HttpServer} {c : TcpConnection} {e : Choice} {t : Task}
    {p : TcpConnection × List Task} (h : c.run server e t = some p) (howned : t.owned) (htimers : c.timers = [])
    (hs : p.1.state = .kDisconnecting) :
    c.state = .kDisconnecting ∨
      (t = .call .forceClose ∧ p = ((c.setState .kDisconnecting).queueInLoop .forceCloseInLoop,[])) := by
  rcases run_sets h with hsame | hsets
  · exact .inl (hsame.symm.trans hs)
  rw [hs] at hsets
  obtain ⟨-,⟨a,rfl⟩ | ⟨i,rfl,hi⟩⟩ := hsets
  case inr => simp [htimers] at hi
  cases h
  cases a with
  | send message =>
    left
    rw [call] at hs
    split at hs
    · simpa [record] using hs
    · exact hs
  | forceClose =>
    rw [call,TcpConnection.forceClose] at hs ⊢
    split at hs
    · exact .inr ⟨rfl,by rw [if_pos ‹_›]⟩
    · exact .inl hs
  | _ => rcases howned with howned | howned <;> cases howned

theorem run_forceCloseInLoop_state {server : Option HttpServer} {c : TcpConnection} {e : Choice}
    {p : TcpConnection × List Task} (h : c.run server e (.functor .forceCloseInLoop) = some p) :
    p.1.state ≠ .kDisconnecting := by
  intro hs
  by_cases hlive : c.live
  · cases (run_closesNow h hlive).1.symm.trans hs
  · cases h
    rw [runFunctor,TcpConnection.forceCloseInLoop] at hs
    split at hs
    · exact hlive ‹_›
    · exact hlive (.inr hs)

theorem run_alone {server : Option HttpServer} {c : TcpConnection} {e : Choice} {t : Task}
    {p : TcpConnection × List Task} (h : c.run server e t = some p) : p.2.Pairwise Task.Alone := by
  by_cases hreads : t.reads e
  · obtain ⟨rfl,chunk,hne,hread⟩ := hreads
    cases h
    rw [hread]
    cases chunk with
    | nil => exact absurd rfl hne
    | cons x xs => exact List.pairwise_singleton _ _
  · refine List.pairwise_of_forall_mem_list fun t' _ u hu _ => ?_
    have hleads := run_leadsTo h u hu
    cases u with
    | messageCallback => exact absurd hleads hreads
    | callback cb => cases hleads
    | _ => rfl

theorem handleEvent_alone (revents : BitVec 32) :
    ((Channel.handleEventWithGuard revents).map Task.callback).Pairwise Task.Alone := by
  rw [Channel.handleEventWithGuard]
  split <;> split <;> split <;> split <;> simp [Task.Alone,Task.onRead,Task.delivers]

end TcpConnection

theorem Active.isConn_of_onRead {a : Active} {t : Task} (ht : t ∈ a.tasks) (hread : t.onRead = true) :
    a.isConn = true := by
  cases a with
  | conn revents => rfl
  | timer i =>
    rw [List.mem_singleton.mp ht] at hread
    cases hread
  | other =>
    rw [List.mem_singleton.mp ht] at hread
    cases hread

namespace HttpStream

variable {server : HttpServer} {h : HttpStream} {w w' : World}

/-- The functor of `forceClose` runs before the next poll, and no message is handled till then. -/
structure Ending (w : World) : Prop where
  quiet : ∀ t ∈ w.todo, t.delivers = false
  queued : match w.phase with
    | .polling => False
    | .handling => w.active.countP Active.isConn = 0 ∧ .forceCloseInLoop ∈ w.conn.pendingFunctors
    | .calling => .forceCloseInLoop ∈ functorsIn w.todo++w.functors

/-- A poll brings at most one message to the connection. -/
structure Polled (w : World) : Prop where
  alone : w.todo.Pairwise Task.Alone
  once : w.phase = .handling → w.active.countP Active.isConn ≤ 1
  last : (∃ t ∈ w.todo, t.onRead = true) → w.phase = .handling ∧ w.active.countP Active.isConn = 0
  ending : w.conn.state = .kDisconnecting → Ending w

theorem established_polled (highWaterMarkCallback : Option HighWaterMarkCallback) (highWaterMark : ℕ)
    (writeCompleteCallback : Option WriteCompleteCallback) :
    Polled (.established highWaterMarkCallback highWaterMark writeCompleteCallback) := by
  refine ⟨List.pairwise_singleton _ _,fun hphase => ?_,fun hread => ?_,fun hstate => ?_⟩
  · cases hphase
  · obtain ⟨t,ht,hread⟩ := hread
    rw [List.mem_singleton.mp ht] at hread
    cases hread
  · cases hstate

theorem Ending.run {e : Choice} {t : Task} {ts : List Task} {p : TcpConnection × List Task} (hw : Ending w)
    (htodo : w.todo = t::ts) (h : w.conn.run (some server) e t = some p) (hs : p.1.state = .kDisconnecting) :
    Ending { w with conn := p.1, todo := p.2++ts } := by
  have hquiet := hw.quiet
  have hqueued := hw.queued
  rw [htodo] at hquiet
  refine ⟨fun t' ht' => ?_,?_⟩
  · rcases List.mem_append.mp ht' with ht' | ht'
    · refine Bool.eq_false_iff.mpr fun hdelivers => ?_
      have ht := (run_leadsTo h t' ht').delivers hdelivers
      rw [hquiet t (.head _)] at ht
      cases ht
    · exact hquiet t' (.tail _ ht')
  · cases hphase : w.phase with
    | polling => simp [hphase] at hqueued
    | handling =>
      simp only [hphase] at hqueued ⊢
      obtain ⟨hactive,hmem⟩ := hqueued
      obtain ⟨fs,hpending,-⟩ := (run_appends h).pending
      exact ⟨hactive,by rw [hpending]; exact List.mem_append_left _ hmem⟩
    | calling =>
      simp only [hphase,htodo] at hqueued ⊢
      rw [functorsIn_append,run_functorsIn h,List.nil_append]
      cases t with
      | functor f =>
        have hne : .forceCloseInLoop ≠ f := fun heq => run_forceCloseInLoop_state (heq ▸ h) hs
        simpa [hne] using hqueued
      | _ => exact hqueued

theorem Polled.run {e : Choice} {t : Task} {ts : List Task} {p : TcpConnection × List Task} (hw : Polled w)
    (howned : Owned w) (hacts : e.acts = []) (htodo : w.todo = t::ts)
    (h : w.conn.run (some server) e t = some p) : Polled { w with conn := p.1, todo := p.2++ts } := by
  have halone := hw.alone
  have hlast := hw.last
  rw [htodo,List.pairwise_cons] at halone
  rw [htodo] at hlast
  obtain ⟨hfirst,hrest⟩ := halone
  have hleads := run_leadsTo h
  refine ⟨?_,hw.once,?_,fun hs => ?_⟩
  · exact List.pairwise_append.mpr
      ⟨run_alone h,hrest,fun t' ht' u hu hread => hfirst u hu ((hleads t' ht').onRead hacts hread)⟩
  · rintro ⟨t',ht',hread⟩
    rcases List.mem_append.mp ht' with ht' | ht'
    · exact hlast ⟨t,.head _,(hleads t' ht').onRead hacts hread⟩
    · exact hlast ⟨t',.tail _ ht',hread⟩
  · have ht := howned.todo t (by rw [htodo]; exact .head _)
    rcases run_forceCloses h ht howned.timers hs with hbefore | ⟨rfl,rfl⟩
    · exact (hw.ending hbefore).run htodo h hs
    · obtain ⟨hphase,hactive⟩ := hlast ⟨_,.head _,rfl⟩
      refine ⟨fun u hu => hfirst u hu rfl,?_⟩
      simp only [hphase]
      exact ⟨hactive,List.mem_append_right _ (.head _)⟩

theorem Polled.pop {a : Active} {active : List Active} (hw : Polled w) (hphase : w.phase = .handling)
    (hactive : w.active = a::active) : Polled { w with active, todo := a.tasks } := by
  have honce := hw.once hphase
  rw [hactive,List.countP_cons] at honce
  refine ⟨?_,fun _ => ?_,?_,fun hs => ?_⟩
  · cases a with
    | conn revents => exact handleEvent_alone revents
    | timer i => exact List.pairwise_singleton _ _
    | other => exact List.pairwise_singleton _ _
  · exact (Nat.le_add_right _ _).trans honce
  · rintro ⟨t,ht,hread⟩
    rw [if_pos (Active.isConn_of_onRead ht hread)] at honce
    exact ⟨hphase,Nat.le_zero.mp (Nat.le_of_succ_le_succ honce)⟩
  · have hqueued := (hw.ending hs).queued
    simp only [hphase,hactive,List.countP_cons] at hqueued
    obtain ⟨hnone,hmem⟩ := hqueued
    refine ⟨fun t ht => Bool.eq_false_iff.mpr fun hdelivers => ?_,?_⟩
    · rw [if_pos (Active.isConn_of_onRead ht (Task.onRead_of_delivers hdelivers))] at hnone
      cases hnone
    · simp only [hphase]
      exact ⟨Nat.le_zero.mp (hnone ▸ Nat.le_add_right _ _),hmem⟩

theorem Polled.turn {e : Choice} (hw : Polled w) (h : w.turn e = some w') (htodo : w.todo = []) : Polled w' := by
  have hending := hw.ending
  have hidle : ¬ ∃ t ∈ w.todo, t.onRead = true := by simp [htodo]
  rw [World.turn] at h
  cases hphase : w.phase with
  | polling =>
    simp only [hphase] at h
    split at h <;> cases h
    rename_i hpollable
    refine ⟨hw.alone,fun _ => hpollable.trans (by split <;> simp),fun hread => absurd hread hidle,fun hs => ?_⟩
    have hqueued := (hending hs).queued
    simp [hphase] at hqueued
  | handling =>
    simp only [hphase] at h
    split at h <;> cases h
    · rename_i a active hactive
      have hpop := hw.pop hphase hactive
      rwa [hphase] at hpop
    · -- the functors are swapped out
      refine ⟨hw.alone,fun hnow => (by cases hnow),fun hread => absurd hread hidle,fun hs => ?_⟩
      have hqueued := (hending hs).queued
      simp only [hphase] at hqueued
      exact ⟨(hending hs).quiet,List.mem_append_right _ hqueued.2⟩
  | calling =>
    simp only [hphase] at h
    split at h <;> cases h
    · rename_i f functors hfunctors
      refine ⟨List.pairwise_singleton _ _,fun hnow => (by cases hnow),fun hread => ?_,fun hs => ?_⟩
      · obtain ⟨t,ht,hread⟩ := hread
        rw [List.mem_singleton.mp ht] at hread
        cases hread
      · have hqueued := (hending hs).queued
        simp only [hphase,htodo,hfunctors] at hqueued
        refine ⟨fun t ht => ?_,hqueued⟩
        rw [List.mem_singleton.mp ht]
        rfl
    · -- the functor of `forceClose` is still to run
      rename_i hfunctors
      refine ⟨hw.alone,fun hnow => (by cases hnow),fun hread => absurd hread hidle,fun hs => ?_⟩
      have hqueued := (hending hs).queued
      simp [hphase,htodo,hfunctors] at hqueued

theorem Polled.thread {l : Label} (hw : Polled w) (howned : Owned w) (hl : ServerOnly l) {thread : ℕ}
    {p : TcpConnection × Pc}
    (h : (∃ a, l = .call thread a ∧ World.threadCall w.conn thread a = some p) ∨
      (l = .advance thread ∧ World.threadAdvance w.conn (w.threads thread) = some p)) :
    Polled { w with conn := p.1, threads := Function.update w.threads thread p.2 } := by
  obtain ⟨fs,hconn,-,-⟩ := thread_queues howned hl h
  rw [hconn]
  refine ⟨hw.alone,hw.once,hw.last,fun hs => ⟨(hw.ending hs).quiet,?_⟩⟩
  have hqueued := (hw.ending hs).queued
  cases hphase : w.phase with
  | polling => simp [hphase] at hqueued
  | handling =>
    simp only [hphase] at hqueued ⊢
    exact ⟨hqueued.1,List.mem_append_left _ hqueued.2⟩
  | calling =>
    simp only [hphase] at hqueued ⊢
    exact hqueued

theorem step_polled {l : Label} (hl : ServerOnly l) (howned : Owned h.world) (hw : Polled h.world) {h' : HttpStream}
    (hstep : step server h l = some h') : Polled h'.world := by
  obtain ⟨world,hworld,rfl⟩ := Option.map_eq_some_iff.mp hstep
  rcases World.step_cases hworld with ⟨e,t,ts,p,rfl,htodo,hp,rfl⟩ | ⟨e,rfl,htodo,ht⟩ |
    ⟨thread,a,p,rfl,-,-,hp,rfl⟩ | ⟨thread,p,rfl,hp,rfl⟩
  · exact hw.run howned hl.1 htodo hp
  · exact hw.turn ht htodo
  · exact hw.thread howned hl (.inl ⟨a,rfl,hp⟩)
  · exact hw.thread howned hl (.inr ⟨rfl,hp⟩)

theorem run_polled {highWaterMarkCallback : Option HighWaterMarkCallback} {highWaterMark : ℕ}
    {writeCompleteCallback : Option WriteCompleteCallback} {labels : List Label}
    (hrun : Run (step server) (established highWaterMarkCallback highWaterMark writeCompleteCallback) labels h)
    (hlabels : ∀ l ∈ labels, ServerOnly l) : Polled h.world :=
  (hrun.invariant_along (I:=fun h => (Owned h.world ∧ Stage server h.received h.world) ∧ Polled h.world)
    (C:=fun _ l => ServerOnly l)
    (fun _ _ _ hI hl hstep => ⟨step_stage hl hI.1.1 hI.1.2 hstep,step_polled hl hI.1.1 hI.2 hstep⟩)
    (.of_labels hlabels)
    ⟨⟨established_owned _ _ _,established_stage _ _ _⟩,established_polled _ _ _⟩).2

/-- The session between two chunks, where no answer has closed it. -/
def session (server : HttpServer) (stream : List Byte) : HttpServer.Session :=
  ⟨(server.progress stream).context,(lineDecoder.frames stream).2,server.reply stream,server.handled stream,false⟩

theorem session_follows {stream : List Byte} (hopen : (server.progress stream).closed = false) :
    (session server stream).Follows server (server.progress stream) where
  context := rfl
  sent := by
    rw [HttpServer.progress_answers]
    rfl
  handled := by
    rw [HttpServer.progress_answers]
    rfl
  closed := hopen.symm
  reading := HttpServer.progress_reading server
  waiting _ := lineDecoder.next_frames_snd _

/-- Where `onMessage` runs on a connection that is not closed, it does what `receive` does on a session that its answers
have not closed: no chunk is delivered behind `forceClose`. -/
theorem message_receives {highWaterMarkCallback : Option HighWaterMarkCallback} {highWaterMark : ℕ}
    {writeCompleteCallback : Option WriteCompleteCallback} {labels : List Label}
    (hrun : Run (step server) (established highWaterMarkCallback highWaterMark writeCompleteCallback) labels h)
    (hlabels : ∀ l ∈ labels, ServerOnly l) {ts : List Task} (htodo : h.world.todo = .messageCallback::ts)
    (hstate : h.world.conn.state ≠ .kDisconnected) {e : Choice} {p : TcpConnection × List Task}
    (hp : h.world.conn.run (some server) e .messageCallback = some p) :
    ∃ (before chunk out : List Byte) (s s' : HttpServer.Session), h.received = before++chunk ∧
      s.Follows server (server.progress before) ∧ s.closed = false ∧ server.receive s chunk = some s' ∧
      s'.sent = s.sent++out ∧ p.2 = .call (.send out)::(if s'.closed then [.call .forceClose] else []) ∧
      p.1.context = some s'.context ∧ p.1.inputBuffer = s'.inputBuffer := by
  have hstage := run_stage hrun hlabels
  have hpolled := run_polled hrun hlabels
  have hquiet : h.world.conn.state ≠ .kDisconnecting := by
    intro hs
    have hnot := (hpolled.ending hs).quiet .messageCallback (by rw [htodo]; exact .head _)
    cases hnot
  cases hstage with
  | reading before chunk ts' split state todo calm keeps output =>
    have hcallback : runMessageCallback (some server) h.world.conn e = some p := hp
    rcases runMessageCallback_cases hcallback with ⟨hnone,-⟩ | ⟨s,c,x,hs,hcontext,hx,rfl⟩
    · cases hnone
    cases hs
    rw [keeps.context] at hcontext
    cases hcontext
    rw [keeps.input,keeps.answered] at hx
    refine ⟨before,chunk,x.outBuf,session server before,
      ⟨x.context,x.buf,server.reply before++x.outBuf,server.handled before++x.handled,x.needClose⟩,split,
      session_follows keeps.opened,rfl,?_,rfl,rfl,rfl,rfl⟩
    simp only [HttpServer.receive,session,pushBack,hx]
    rfl
  | starting state todo => simp [htodo] at todo
  | waiting state todo => cases todo .messageCallback (by rw [htodo]; exact .head _)
  | sending out ts' state todo => simp [htodo] at todo
  | closing ts' state todo => simp [htodo] at todo
  | closed state => exact absurd state hquiet
  | disconnected state => exact absurd state hstate

end HttpStream
end GgLib
