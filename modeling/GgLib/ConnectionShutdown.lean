import GgLib.ConnectionStream

/-! `shutdown` called by a thread behind its `send`s: whether `shutdownWrite` waits for the
messages. The state changes at once, while the messages and `shutdownInLoop` are queued. -/
namespace GgLib

open LabelledSystem TcpConnection

namespace TcpConnection

def bytesOf (thread : ℕ) (messages : List (ℕ × List Byte)) : List Byte := (ofThread thread messages).flatten

@[simp] theorem bytesOf_nil (t : ℕ) : bytesOf t [] = [] := rfl
@[simp] theorem bytesOf_append (t : ℕ) (ms ms' : List (ℕ × List Byte)) :
    bytesOf t (ms++ms') = bytesOf t ms++bytesOf t ms' := by
  simp [bytesOf]
@[simp] theorem bytesOf_self (t : ℕ) (m : List Byte) : bytesOf t [(t,m)] = m := by
  simp [bytesOf]
theorem bytesOf_other {t t' : ℕ} (h : t' ≠ t) (m : List Byte) : bytesOf t [(t',m)] = [] := by
  simp [bytesOf,ofThread_other h]

theorem bytesOf_foreign {t u : ℕ} (hu : u ≠ t) {f : Functor} (h : ∀ m ∈ sends [f], m.1 = u) :
    bytesOf t (sends [f]) = [] := by
  cases f with
  | sendInLoop v message =>
    have hv : v = u := h (v,message) (by simp [sends])
    exact bytesOf_other (by rw [hv]; exact hu) message
  | _ => rfl

/-- `handleClose` or a closing `connectDestroyed` has run; the first report is that of
`connectEstablished`. -/
def closed (trace : List Event) : Prop := .handleClose ∈ trace ∨ 1 < trace.count .connectionCallback

/-- The record up to the first `shutdownWrite`. -/
def beforeShutdown (trace : List Event) : List Event := trace.takeWhile fun ev => ev ≠ .shutdownWrite

/-- Before `shutdownWrite` was called, `::write` had accepted all that was sent, and with it
every byte of the messages of the thread. -/
def Delivered (thread : ℕ) (trace : List Event) : Prop :=
  .shutdownWrite ∈ trace →
    written (beforeShutdown trace) = (sent (beforeShutdown trace)).flatMap (·.2) ∧
      bytesOf thread (sent (beforeShutdown trace)) = bytesOf thread (accepted trace)

/-- A message of the thread meets a disconnected connection, or a connection that has been
closed over buffered bytes is shut down. -/
def Task.abandons (thread : ℕ) (c : TcpConnection) : Task → Prop
  | .functor (.sendInLoop u message) => u = thread ∧ message ≠ [] ∧ c.state = .kDisconnected
  | t => t.shutsDown c ∧ closed c.trace ∧ c.outputBuffer ≠ []

theorem closed_append {trace : List Event} (h : closed trace) (es : List Event) : closed (trace++es) := by
  rcases h with h | h
  · exact .inl (List.mem_append_left _ h)
  · exact .inr (by rw [List.count_append]; omega)

theorem beforeShutdown_first {trace : List Event} (h : .shutdownWrite ∉ trace) :
    beforeShutdown (trace++[.shutdownWrite]) = trace := by
  rw [beforeShutdown,List.takeWhile_append_of_pos]
  · simp
  · intro ev hev
    rw [decide_eq_true_iff]
    rintro rfl
    exact h hev

theorem beforeShutdown_append {trace : List Event} (h : .shutdownWrite ∈ trace) (es : List Event) :
    beforeShutdown (trace++es) = beforeShutdown trace := by
  induction trace with
  | nil => cases h
  | cons ev trace ih =>
    by_cases hev : ev = .shutdownWrite
    · simp [beforeShutdown,hev]
    · have hmem : .shutdownWrite ∈ trace := (List.mem_cons.mp h).resolve_left (Ne.symm hev)
      simpa [beforeShutdown,hev] using ih hmem

/-- Behind the first `shutdownWrite` only a new message of the thread matters. -/
theorem Delivered.append {thread : ℕ} {trace es : List Event} (h : Delivered thread trace)
    (hmem : .shutdownWrite ∈ trace) (haccepted : bytesOf thread (accepted es) = []) :
    Delivered thread (trace++es) := by
  intro _
  rw [beforeShutdown_append hmem,accepted_append,bytesOf_append,haccepted,List.append_nil]
  exact h hmem

theorem accepted_records {c : TcpConnection} {e : Choice} {t : Task} {es : List Event} {thread : ℕ}
    (hthread : thread ≠ 0) (h : ∀ ev ∈ es, t.records c e ev) : bytesOf thread (accepted es) = [] := by
  induction es with
  | nil => rfl
  | cons ev es ih =>
    have hrest := ih fun ev' hev' => h ev' (.tail _ hev')
    cases ev with
    | accepted u message =>
      have hu : u = 0 := (h _ (.head _)).1
      rw [accepted_cons,bytesOf_append,hrest,bytesOf_other (by rw [hu]; exact hthread.symm)]
      rfl
    | _ => simpa using hrest

/-- Apart from calls, a task that calls `shutdownWrite` does nothing else to the record. -/
theorem shutsDown_trace {server : Option HttpServer} {c : TcpConnection} {e : Choice} {t : Task}
    {p : TcpConnection × List Task} (h : c.run server e t = some p) (ht : t.shutsDown c)
    (hcall : ∀ a, t ≠ .call a) : p.1.trace = c.trace++[.shutdownWrite] ∧ c.channel.isWriting = false := by
  cases t with
  | finishWrite =>
    cases h
    exact ⟨by simp [finishWrite,shutdownInLoop,ht.1,ht.2,record],ht.2⟩
  | functor f =>
    cases h
    refine ⟨?_,ht.2⟩
    cases f with
    | shutdownInLoop => simp [runFunctor,shutdownInLoop,ht.2,record]
    | shutdownAndForceCloseInLoop =>
      simp [runFunctor,shutdownAndForceCloseInLoop,shutdownInLoop,ht.2,record,runAfter]
    | _ => cases ht.1
  | call a => exact absurd rfl (hcall a)
  | _ => cases ht

/-- The functor in front does not shut down over bytes of the thread in the one behind. -/
def Behind (thread : ℕ) (f g : Functor) : Prop := f.shuts = true → bytesOf thread (sends [g]) = []

theorem shuts_of_isOwn {closeCallback : Bool} {f : Functor} (h : f.isOwn closeCallback = true) : f.shuts = false := by
  cases f <;> simp_all [Functor.isOwn,Functor.shuts]

theorem isOwn_behind {closeCallback : Bool} {f : Functor} (h : f.isOwn closeCallback = true) (thread : ℕ)
    (g : Functor) :
    Behind thread f g ∧ Behind thread g f := by
  constructor
  · intro hshuts
    simp [shuts_of_isOwn h] at hshuts
  · intro _
    rw [sends_of_isOwn h]
    rfl

theorem pairwise_insert {α : Type*} {R : α → α → Prop} {l m r : List α} (h : (l++r).Pairwise R)
    (hm : ∀ x ∈ m, ∀ y, R x y ∧ R y x) : (l++m++r).Pairwise R := by
  rw [List.pairwise_append] at h
  obtain ⟨hl,hr,hlr⟩ := h
  have hmm : m.Pairwise R := List.pairwise_of_forall_mem_list fun x hx y _ => (hm x hx y).1
  rw [List.append_assoc,List.pairwise_append,List.pairwise_append]
  refine ⟨hl,⟨hmm,hr,fun x hx y _ => (hm x hx y).1⟩,fun x hx y hy => ?_⟩
  rcases List.mem_append.mp hy with hy | hy
  · exact (hm y hy x).2
  · exact hlr x hx y hy

theorem bytesOf_sends_eq_nil {thread : ℕ} {fs : List Functor}
    (h : ∀ f ∈ fs, bytesOf thread (sends [f]) = []) : bytesOf thread (sends fs) = [] := by
  induction fs with
  | nil => rfl
  | cons f fs ih =>
    rw [← List.singleton_append,sends_append,bytesOf_append,h f (.head _),ih fun g hg => h g (.tail _ hg)]
    rfl

end TcpConnection

def Pc.functors : Pc → List Functor
  | .idle => []
  | .storing f => [f]
  | .pushing f => [f]

namespace World

/-- The functors that have not run, and behind them the one the thread is about to push. -/
def line (w : World) (thread : ℕ) : List Functor := w.queue++(w.threads thread).functors

/-- Nobody but the thread calls `shutdown` or `shutdownAndForceCloseAfter`. -/
def ShutsFrom (thread : ℕ) : Label → Prop
  | .loop e => ∀ a ∈ e.acts, a.shuts = false
  | .call u a => a.shuts = true → u = thread
  | .advance _ => True

/-- While the write side is open, `::write` does not fail with `EPIPE` or `ECONNRESET`. -/
def OpenWrites (w : World) (l : Label) : Prop := .shutdownWrite ∉ w.conn.trace → NoFault l

/-- `handleWrite` has drained the buffer of a disconnecting connection while messages of the
thread are still queued or in flight. -/
def Overtakes (thread : ℕ) (w : World) : Label → Prop
  | .loop _ => w.todo.head? = some .finishWrite ∧ w.conn.state = .kDisconnecting ∧
    bytesOf thread (sends (w.line thread)) ≠ []
  | _ => False

def Abandons (thread : ℕ) (w : World) : Label → Prop
  | .loop _ => ∃ t ∈ w.todo.head?, t.abandons thread w.conn
  | _ => False

/-- The order of the calls of the thread, as the loop sees it. -/
structure Lined (thread : ℕ) (w : World) : Prop where
  shutters : ∀ u, u ≠ thread → ∀ f ∈ (w.threads u).functors, f.shuts = false
  own : ∀ u, ∀ m ∈ sends (w.threads u).functors, m.1 = u
  behind : (w.line thread).Pairwise (Behind thread)
  down : ∀ f, f ∈ w.queue ∨ w.threads thread = .pushing f → f.shuts = true → w.conn.state ≠ .kConnected
  calls : ∀ a, .call a ∈ w.todo → a.shuts = false
  final : .shutdownWrite ∈ w.conn.trace → w.conn.state ≠ .kConnected

/-- The stream before `shutdownWrite`. -/
structure Intact (thread : ℕ) (w : World) : Prop where
  bytes : written w.conn.trace++w.conn.outputBuffer = (sent w.conn.trace).flatMap (·.2)
  interest : ¬ closed w.conn.trace → (w.conn.channel.isWriting = true ↔ w.conn.outputBuffer ≠ [])
  gone : w.conn.state = .kDisconnected → closed w.conn.trace
  up : .connectionCallback ∈ w.conn.trace
  order : bytesOf thread (accepted w.conn.trace) =
    bytesOf thread (sent w.conn.trace)++bytesOf thread (sends (w.line thread))

/-- A task takes itself off the queue and puts the loop's own functors behind it. -/
theorem queue_task {server : Option HttpServer} {w : World} {e : Choice} {t : Task} {ts : List Task}
    {p : TcpConnection × List Task} (htodo : w.todo = t::ts) (h : w.conn.run server e t = some p) :
    ∃ rest fs, w.queue = functorsIn [t]++rest ∧ queue { w with conn := p.1, todo := p.2++ts } = rest++fs ∧
      ∀ f ∈ fs, f.isOwn t.isCloseCallback = true := by
  obtain ⟨fs,hfs,hown⟩ := (run_appends h).pending
  refine ⟨functorsIn ts++w.functors++w.conn.pendingFunctors,fs,?_,?_,hown⟩
  · rw [queue,htodo,← List.singleton_append (x:=t) (l:=ts),functorsIn_append]
    simp
  · rw [queue_run h,hfs]
    simp

theorem Lined.task {server : Option HttpServer} {thread : ℕ} {w : World} {e : Choice} {t : Task}
    {ts : List Task} {p : TcpConnection × List Task} (hl : ShutsFrom thread (.loop e)) (hw : w.Lined thread)
    (htodo : w.todo = t::ts) (h : w.conn.run server e t = some p) :
    Lined thread { w with conn := p.1, todo := p.2++ts } := by
  obtain ⟨rest,fs,hqueue,hqueue',hown⟩ := queue_task htodo h
  refine ⟨hw.shutters,hw.own,?_,?_,?_,?_⟩
  · have hbehind := hw.behind
    rw [line,hqueue,List.append_assoc] at hbehind
    rw [line,hqueue']
    exact pairwise_insert (List.pairwise_append.mp hbehind).2.1 fun f hf g => isOwn_behind (hown f hf) thread g
  · intro f hf hshuts
    refine run_notConnected h (hw.down f ?_ hshuts)
    rcases hf with hf | hf
    · rw [hqueue'] at hf
      rcases List.mem_append.mp hf with hf | hf
      · exact .inl (by rw [hqueue]; exact List.mem_append_right _ hf)
      · simp [shuts_of_isOwn (hown f hf)] at hshuts
    · exact .inr hf
  · intro a ha
    rcases List.mem_append.mp ha with ha | ha
    · rcases run_follows h _ ha with ha | ⟨message,rfl⟩ | rfl
      · exact hl a ha
      · rfl
      · rfl
    · exact hw.calls a (by rw [htodo]; exact .tail _ ha)
  · intro hmem
    refine run_notConnected h ?_
    obtain ⟨es,hes,hrecords,-⟩ := (run_appends h).trace
    rw [hes] at hmem
    rcases List.mem_append.mp hmem with hmem | hmem
    · exact hw.final hmem
    · have ht : t.shutsDown w.conn := hrecords _ hmem
      cases t with
      | finishWrite => simp [ht.1]
      | functor f => exact hw.down f (.inl (by rw [hqueue]; exact .head _)) ht.1
      | call a => exact absurd ((hw.calls a (by rw [htodo]; exact .head _)).symm.trans ht) (by decide)
      | _ => cases ht

theorem Lined.turn {thread : ℕ} {w w' : World} {e : Choice} (hw : w.Lined thread) (hs : w.Swapped)
    (htodo : w.todo = []) (h : w.turn e = some w') : w'.Lined thread := by
  obtain ⟨-,hqueue⟩ := turn_queue h htodo hs
  obtain ⟨hconn,hthreads⟩ := turn_conn h
  refine ⟨by rw [hthreads]; exact hw.shutters,by rw [hthreads]; exact hw.own,?_,?_,
    fun a ha => absurd ha (turn_calls h htodo a),?_⟩
  · rw [line,hqueue,hthreads]
    exact hw.behind
  · rw [hqueue,hthreads,hconn]
    exact hw.down
  · rw [hconn]
    exact hw.final

theorem Lined.thread {thread u : ℕ} {w : World} {c : TcpConnection} {pc : Pc} (hw : w.Lined thread)
    (hstate : w.conn.state ≠ .kConnected → c.state ≠ .kConnected)
    (htrace : .shutdownWrite ∈ c.trace → .shutdownWrite ∈ w.conn.trace)
    (hpending : c.pendingFunctors = w.conn.pendingFunctors)
    (hshuts : u ≠ thread → ∀ f ∈ pc.functors, f.shuts = false) (hown : ∀ m ∈ sends pc.functors, m.1 = u)
    (hbehind : u = thread → ∀ g ∈ pc.functors, ∀ f ∈ w.queue, Behind thread f g)
    (hpush : u = thread → ∀ f, pc = .pushing f → f.shuts = true → c.state ≠ .kConnected) :
    Lined thread { w with conn := c, threads := Function.update w.threads u pc } := by
  have hqueue : queue { w with conn := c, threads := Function.update w.threads u pc } = w.queue := by
    simp [queue,hpending]
  have hpairwise := List.pairwise_append.mp hw.behind
  refine ⟨?_,?_,?_,?_,hw.calls,fun hmem => hstate (hw.final (htrace hmem))⟩
  · exact (Function.forall_update_iff w.threads fun v pc => v ≠ thread → ∀ f ∈ pc.functors, f.shuts = false).mpr
      ⟨hshuts,fun v _ => hw.shutters v⟩
  · exact (Function.forall_update_iff w.threads fun v pc => ∀ m ∈ sends pc.functors, m.1 = v).mpr
      ⟨hown,fun v _ => hw.own v⟩
  · rw [line,hqueue]
    dsimp only
    by_cases hu : u = thread
    · subst hu
      have hone : pc.functors.Pairwise (Behind u) := by cases pc <;> simp [Pc.functors]
      rw [Function.update_self]
      exact List.pairwise_append.mpr ⟨hpairwise.1,hone,fun f hf g hg => hbehind rfl g hg f hf⟩
    · rw [Function.update_of_ne (Ne.symm hu)]
      exact hw.behind
  · rw [hqueue]
    dsimp only
    rintro f (hf | hf)
    · exact fun hs => hstate (hw.down f (.inl hf) hs)
    · by_cases hu : u = thread
      · subst hu
        exact hpush rfl f (by simpa using hf)
      · rw [Function.update_of_ne (Ne.symm hu)] at hf
        exact fun hs => hstate (hw.down f (.inr hf) hs)

theorem Lined.call {thread u : ℕ} {w : World} {a : Action} {p : TcpConnection × Pc}
    (hl : ShutsFrom thread (.call u a)) (hw : w.Lined thread) (h : threadCall w.conn u a = some p) :
    Lined thread { w with conn := p.1, threads := Function.update w.threads u p.2 } := by
  rcases threadCall_cases h with ⟨message,-,hs,rfl⟩ | rfl | ⟨f,rfl,hf⟩ | ⟨f,rfl,-,hf⟩
  · refine hw.thread id (by simp [record]) rfl ?_ ?_ ?_ ?_
    · simp [Pc.functors,Functor.shuts]
    · simp [Pc.functors,sends]
    · intro _ g _ f hf hshuts
      exact absurd hs (hw.down f (.inl hf) hshuts)
    · rintro - f ⟨⟩ hshuts
      simp [Functor.shuts] at hshuts
  · exact hw.thread id id rfl (by simp [Pc.functors]) (by simp [Pc.functors,sends]) (by simp [Pc.functors]) (by simp)
  · have hplain : sends [f] = [] ∧ f.shuts = false := by
      simp only [List.mem_cons,Prod.mk.injEq,List.not_mem_nil,or_false] at hf
      rcases hf with ⟨-,rfl⟩ | ⟨-,rfl⟩ | ⟨-,rfl⟩ | ⟨-,rfl⟩ <;> exact ⟨rfl,rfl⟩
    refine hw.thread id id rfl ?_ ?_ ?_ ?_
    · simp [Pc.functors,hplain.2]
    · simp [Pc.functors,hplain.1]
    · simp [Pc.functors,Behind,hplain.1]
    · rintro - g ⟨⟩ hshuts
      simp [hplain.2] at hshuts
  · have hplain : sends [f] = [] ∧ (f.shuts = true → a.shuts = true) := by
      simp only [List.mem_cons,Prod.mk.injEq,List.not_mem_nil,or_false] at hf
      rcases hf with ⟨rfl,rfl⟩ | ⟨rfl,rfl⟩ | ⟨rfl,rfl⟩ | ⟨rfl,rfl⟩ <;> exact ⟨rfl,by decide⟩
    refine hw.thread id id rfl ?_ ?_ ?_ (by simp)
    · intro hu
      have hnot : f.shuts = false := by
        rw [Bool.eq_false_iff]
        exact fun hshuts => hu (hl (hplain.2 hshuts))
      simp [Pc.functors,hnot]
    · simp [Pc.functors,hplain.1]
    · simp [Pc.functors,Behind,hplain.1]

/-- The store, or the push that makes the functor of the thread one of the queue. -/
theorem Lined.advance {thread u : ℕ} {w : World} {p : TcpConnection × Pc} (hw : w.Lined thread)
    (h : threadAdvance w.conn (w.threads u) = some p) :
    Lined thread { w with conn := p.1, threads := Function.update w.threads u p.2 } := by
  have hshuts := hw.shutters u
  have hown := hw.own u
  have hpairwise := hw.behind
  rcases threadAdvance_cases h with ⟨next,hpc,rfl⟩ | ⟨f,hpc,rfl⟩
  · rw [hpc] at hshuts hown
    refine hw.thread (by simp [setState]) id rfl hshuts hown ?_ (by simp [setState])
    rintro rfl g hg f hf
    rw [line,hpc] at hpairwise
    exact (List.pairwise_append.mp hpairwise).2.2 f hf g hg
  · rw [hpc] at hshuts hown
    have hqueue : queue { w with conn := w.conn.queueInLoop f, threads := Function.update w.threads u .idle } =
        w.queue++[f] := by
      simp [queue,queueInLoop]
    refine ⟨?_,?_,?_,?_,hw.calls,hw.final⟩
    · exact (Function.forall_update_iff w.threads fun v pc => v ≠ thread → ∀ f ∈ pc.functors, f.shuts = false).mpr
        ⟨by simp [Pc.functors],fun v _ => hw.shutters v⟩
    · exact (Function.forall_update_iff w.threads fun v pc => ∀ m ∈ sends pc.functors, m.1 = v).mpr
        ⟨by simp [Pc.functors,sends],fun v _ => hw.own v⟩
    · rw [line,hqueue]
      dsimp only
      by_cases hu : u = thread
      · subst hu
        rw [line,hpc] at hpairwise
        simpa [Pc.functors] using hpairwise
      · rw [Function.update_of_ne (Ne.symm hu)]
        refine pairwise_insert hpairwise fun g hg f' => ?_
        rw [List.mem_singleton.mp hg]
        have hnot : f.shuts = false := hshuts hu f (.head _)
        exact ⟨fun hs => by simp [hnot] at hs,fun _ => bytesOf_foreign hu hown⟩
    · rw [hqueue]
      dsimp only
      rintro g (hg | hg)
      · rcases List.mem_append.mp hg with hg | hg
        · exact hw.down g (.inl hg)
        · rw [List.mem_singleton.mp hg]
          by_cases hu : u = thread
          · exact hw.down f (.inr (hu ▸ hpc))
          · exact fun hs => by simp [hshuts hu f (.head _)] at hs
      · by_cases hu : u = thread
        · subst hu
          simp at hg
        · rw [Function.update_of_ne (Ne.symm hu)] at hg
          exact hw.down g (.inr hg)

theorem step_lined {server : Option HttpServer} {thread : ℕ} {w w' : World} {l : Label}
    (hl : ShutsFrom thread l) (hs : w.Swapped) (hw : w.Lined thread) (h : step server w l = some w') :
    w'.Lined thread := by
  rcases step_cases h with ⟨e,t,ts,p,rfl,htodo,hp,rfl⟩ | ⟨e,rfl,htodo,ht⟩ | ⟨u,a,p,rfl,-,-,hp,rfl⟩ |
    ⟨u,p,rfl,hp,rfl⟩
  · exact hw.task hl htodo hp
  · exact hw.turn hs htodo ht
  · exact hw.call hl hp
  · exact hw.advance hp

theorem line_task {server : Option HttpServer} {w : World} {e : Choice} {t : Task} {ts : List Task}
    {p : TcpConnection × List Task} (htodo : w.todo = t::ts) (h : w.conn.run server e t = some p) (thread : ℕ) :
    sends (w.line thread) =
      sends (functorsIn [t])++sends (line { w with conn := p.1, todo := p.2++ts } thread) := by
  obtain ⟨rest,fs,hqueue,hqueue',hown⟩ := queue_task htodo h
  have hfs : sends fs = [] := by
    rw [sends,List.filterMap_eq_nil_iff]
    intro f hf
    have hone := sends_of_isOwn (hown f hf)
    cases f <;> first | rfl | cases hone
  rw [line,line,hqueue,hqueue']
  simp [hfs]

theorem run_closed {server : Option HttpServer} {c : TcpConnection} {e : Choice} {t : Task}
    {p : TcpConnection × List Task} (h : c.run server e t = some p) (hc : closed c.trace) : closed p.1.trace := by
  obtain ⟨es,hes,-,-⟩ := (run_appends h).trace
  rw [hes]
  exact closed_append hc es

theorem Intact.disconnects {server : Option HttpServer} {thread : ℕ} {w : World} {e : Choice} {t : Task}
    {p : TcpConnection × List Task} (hw : w.Intact thread) (h : w.conn.run server e t = some p)
    (hs : p.1.state = .kDisconnected) : closed p.1.trace := by
  rcases run_disconnects h hs with hs | ⟨ev,rfl | rfl,htrace⟩
  · exact run_closed h (hw.gone hs)
  · exact .inl (by rw [htrace]; simp)
  · have hup := List.count_pos_iff.mpr hw.up
    refine .inr ?_
    rw [htrace,List.count_append]
    simpa using hup

/-- A task that adds `messages` to the stream, which for the thread are what it takes off the line. -/
theorem Intact.grow {server : Option HttpServer} {thread : ℕ} {w : World} {e : Choice} {t : Task}
    {ts : List Task} {p : TcpConnection × List Task} (hw : w.Intact thread) (messages : List (ℕ × List Byte))
    (htodo : w.todo = t::ts) (h : w.conn.run server e t = some p)
    (hbytes : written p.1.trace++p.1.outputBuffer =
      written w.conn.trace++w.conn.outputBuffer++messages.flatMap (·.2))
    (hsent : sent p.1.trace = sent w.conn.trace++messages)
    (haccepted : bytesOf thread (accepted p.1.trace) = bytesOf thread (accepted w.conn.trace))
    (hmessages : bytesOf thread (sends (functorsIn [t])) = bytesOf thread messages)
    (hinterest : ¬ closed p.1.trace → (p.1.channel.isWriting = true ↔ p.1.outputBuffer ≠ [])) :
    Intact thread { w with conn := p.1, todo := p.2++ts } := by
  obtain ⟨es,hes,-,-⟩ := (run_appends h).trace
  refine ⟨?_,hinterest,?_,?_,?_⟩
  · rw [hbytes,hw.bytes,hsent,List.flatMap_append]
  · exact fun hs => hw.disconnects h hs
  · show _ ∈ p.1.trace
    rw [hes]
    exact List.mem_append_left _ hw.up
  · have horder := hw.order
    rw [line_task htodo h,bytesOf_append,hmessages] at horder
    rw [haccepted,horder,hsent,bytesOf_append,List.append_assoc]

/-- `sendInLoop` out of the queue sends its message, or gives up one that is none of the thread's. -/
theorem Intact.sendFunctor {server : Option HttpServer} {thread u : ℕ} {message : List Byte} {w : World} {e : Choice}
    {ts : List Task} {p : TcpConnection × List Task} (hfault : NoFault (.loop e))
    (hl : ¬ Abandons thread w (.loop e)) (hw : w.Intact thread)
    (htodo : w.todo = .functor (.sendInLoop u message)::ts)
    (h : w.conn.run server e (.functor (.sendInLoop u message)) = some p) :
    Intact thread { w with conn := p.1, todo := p.2++ts } := by
  have hp : p.1 = w.conn.sendInLoop u message e.write := by
    cases h
    rfl
  by_cases hs : w.conn.state = .kDisconnected
  · -- the message is given up, so it is none of the thread or has no bytes
    have hsame : p.1 = w.conn := by rw [hp,sendInLoop,if_pos hs]
    have hempty : bytesOf thread [(u,message)] = [] := by
      by_cases hu : u = thread
      · subst hu
        have hnil : message = [] := by
          refine Classical.byContradiction fun hne => hl ?_
          simp [Abandons,htodo,Task.abandons,hne,hs]
        simp [hnil]
      · exact bytesOf_other hu message
    refine hw.grow [] htodo h ?_ ?_ ?_ hempty ?_
    · rw [hsame]
      simp
    · rw [hsame,List.append_nil]
    · rw [hsame]
    · rw [hsame]
      exact hw.interest
  · have hgrows := sendInLoop_grows hs u message hfault
    rw [← hp] at hgrows
    refine hw.grow [(u,message)] htodo h hgrows.bytes hgrows.sent (by rw [hgrows.accepted]) rfl fun hnot => ?_
    rw [hp]
    exact sendInLoop_interest hs u message e.write (hw.interest (mt (run_closed h) hnot))

theorem Intact.task {server : Option HttpServer} {thread : ℕ} {w : World} {e : Choice} {t : Task}
    {ts : List Task} {p : TcpConnection × List Task} (hthread : thread ≠ 0) (hfault : NoFault (.loop e))
    (hl : ¬ Abandons thread w (.loop e)) (hw : w.Intact thread) (htodo : w.todo = t::ts)
    (h : w.conn.run server e t = some p) : Intact thread { w with conn := p.1, todo := p.2++ts } := by
  have hopen : ¬ closed p.1.trace → ¬ closed w.conn.trace := mt (run_closed h)
  have hzero : ∀ message, bytesOf thread [(0,message)] = [] := bytesOf_other hthread.symm
  have hplain : (∀ u message, t ≠ .functor (.sendInLoop u message)) → sends (functorsIn [t]) = [] := by
    intro hne
    rw [sends_functorsIn hne]
    rfl
  rcases run_stream h with ⟨hmoves,hstill⟩ | ⟨u,message,rfl,-⟩ | ⟨message,rfl,hc,hp⟩ | ⟨rfl,hp⟩
  · have hne : ∀ u message, t ≠ .functor (.sendInLoop u message) := by
      rintro u message rfl
      cases hmoves
    have hkept : Kept w.conn p.1 := hstill.elim (·.toKept) (·.1.toKept)
    refine hw.grow [] htodo h hkept.grows.bytes hkept.grows.sent (by rw [hkept.accepted])
      (by rw [hplain hne]) fun hnot => ?_
    rcases hstill with hq | ⟨hshut,-⟩
    · rw [hq.writing,hq.outputBuffer]
      exact hw.interest (hopen hnot)
    · exact absurd (hw.disconnects h hshut.state) hnot
  · exact hw.sendFunctor hfault hl htodo h
  · have hlive : (w.conn.record (.accepted 0 message)).state ≠ .kDisconnected := by
      show w.conn.state ≠ _
      simp [hc]
    have hgrows := sendInLoop_grows hlive 0 message hfault
    rw [← hp] at hgrows
    refine hw.grow [(0,message)] htodo h ?_ ?_ ?_ ?_ fun hnot => ?_
    · rw [hgrows.bytes]
      simp [record]
    · rw [hgrows.sent]
      simp [record]
    · rw [hgrows.accepted]
      simp [record,hzero]
    · rw [hplain (by simp),hzero]
      rfl
    · rw [hp]
      exact sendInLoop_interest hlive 0 message e.write (hw.interest (hopen hnot))
  · have hgrows := handleWrite_grows w.conn e.write
    rw [← hp] at hgrows
    refine hw.grow [] htodo h hgrows.bytes hgrows.sent (by rw [hgrows.accepted]) (by rw [hplain (by simp)])
      fun hnot => ?_
    rw [hp]
    exact handleWrite_interest e.write (hw.interest (hopen hnot))

theorem Intact.keep {thread : ℕ} {w w' : World} (hw : w.Intact thread)
    (htrace : w'.conn.trace = w.conn.trace) (hbuffer : w'.conn.outputBuffer = w.conn.outputBuffer)
    (hwriting : w'.conn.channel.isWriting = w.conn.channel.isWriting)
    (hstate : w'.conn.state = .kDisconnected → w.conn.state = .kDisconnected)
    (hline : bytesOf thread (sends (w'.line thread)) = bytesOf thread (sends (w.line thread))) :
    w'.Intact thread := by
  refine ⟨?_,?_,?_,?_,?_⟩
  · rw [htrace,hbuffer]
    exact hw.bytes
  · rw [htrace,hbuffer,hwriting]
    exact hw.interest
  · rw [htrace]
    exact fun hs => hw.gone (hstate hs)
  · rw [htrace]
    exact hw.up
  · rw [htrace,hline]
    exact hw.order

theorem Intact.turn {thread : ℕ} {w w' : World} {e : Choice} (hw : w.Intact thread) (hs : w.Swapped)
    (htodo : w.todo = []) (h : w.turn e = some w') : w'.Intact thread := by
  obtain ⟨-,hqueue⟩ := turn_queue h htodo hs
  obtain ⟨hconn,hthreads⟩ := turn_conn h
  refine hw.keep (by rw [hconn]) (by rw [hconn]) (by rw [hconn]) (by rw [hconn]; exact id) ?_
  rw [line,line,hqueue,hthreads]

/-- A thread of its own accepts a message, or what it is about to push holds none. -/
theorem Intact.call {thread u : ℕ} {w : World} {a : Action} {p : TcpConnection × Pc} (hw : w.Intact thread)
    (hidle : w.threads u = .idle) (h : threadCall w.conn u a = some p) :
    Intact thread { w with conn := p.1, threads := Function.update w.threads u p.2 } := by
  have hquiet : ∀ pc : Pc, sends pc.functors = [] →
      Intact thread { w with threads := Function.update w.threads u pc } := by
    intro pc hpc
    refine hw.keep rfl rfl rfl id ?_
    rw [line,line,sends_append,sends_append]
    dsimp only [queue]
    by_cases hu : u = thread
    · subst hu
      rw [Function.update_self,hpc,hidle]
      rfl
    · rw [Function.update_of_ne (Ne.symm hu)]
  rcases threadCall_cases h with ⟨message,-,-,rfl⟩ | rfl | ⟨f,rfl,hf⟩ | ⟨f,rfl,-,hf⟩
  · refine ⟨?_,?_,?_,?_,?_⟩
    · simpa [record] using hw.bytes
    · intro hnot
      exact hw.interest fun hc => hnot (closed_append hc _)
    · exact fun hs => closed_append (hw.gone hs) _
    · exact List.mem_append_left _ hw.up
    · have horder := hw.order
      rw [line] at horder ⊢
      dsimp only [record,queue] at horder ⊢
      simp only [accepted_append,sent_append,bytesOf_append,horder]
      by_cases hu : u = thread
      · subst hu
        rw [Function.update_self,hidle]
        simp [Pc.functors,sends]
      · rw [Function.update_of_ne (Ne.symm hu)]
        simp [bytesOf_other hu]
  · exact hquiet .idle rfl
  · refine hquiet (.pushing f) ?_
    simp only [List.mem_cons,Prod.mk.injEq,List.not_mem_nil,or_false] at hf
    rcases hf with ⟨-,rfl⟩ | ⟨-,rfl⟩ | ⟨-,rfl⟩ | ⟨-,rfl⟩ <;> rfl
  · refine hquiet (.storing f) ?_
    simp only [List.mem_cons,Prod.mk.injEq,List.not_mem_nil,or_false] at hf
    rcases hf with ⟨-,rfl⟩ | ⟨-,rfl⟩ | ⟨-,rfl⟩ | ⟨-,rfl⟩ <;> rfl

theorem Intact.advance {thread u : ℕ} {w : World} {p : TcpConnection × Pc} (hl : w.Lined thread)
    (hw : w.Intact thread) (h : threadAdvance w.conn (w.threads u) = some p) :
    Intact thread { w with conn := p.1, threads := Function.update w.threads u p.2 } := by
  have hown := hl.own u
  rcases threadAdvance_cases h with ⟨next,hpc,rfl⟩ | ⟨f,hpc,rfl⟩
  · refine hw.keep rfl rfl rfl nofun ?_
    rw [line,line]
    dsimp only [setState,queue]
    by_cases hu : u = thread
    · subst hu
      rw [Function.update_self,hpc]
      rfl
    · rw [Function.update_of_ne (Ne.symm hu)]
  · rw [hpc] at hown
    refine hw.keep rfl rfl rfl id ?_
    rw [line,line]
    dsimp only [queueInLoop,queue]
    by_cases hu : u = thread
    · subst hu
      rw [Function.update_self,hpc]
      simp [Pc.functors]
    · rw [Function.update_of_ne (Ne.symm hu)]
      have hforeign : bytesOf thread (sends [f]) = [] := bytesOf_foreign hu hown
      simp only [sends_append,bytesOf_append,hforeign,List.append_nil]

theorem step_intact {server : Option HttpServer} {thread : ℕ} {w w' : World} {l : Label}
    (hthread : thread ≠ 0) (hfault : NoFault l) (habandons : ¬ Abandons thread w l) (hs : w.Swapped)
    (hl : w.Lined thread) (hw : w.Intact thread) (h : step server w l = some w') : w'.Intact thread := by
  rcases step_cases h with ⟨e,t,ts,p,rfl,htodo,hp,rfl⟩ | ⟨e,rfl,htodo,ht⟩ | ⟨u,a,p,rfl,-,hidle,hp,rfl⟩ |
    ⟨u,p,rfl,hp,rfl⟩
  · exact hw.task hthread hfault habandons htodo hp
  · exact hw.turn hs htodo ht
  · exact hw.call hidle hp
  · exact hw.advance hl hp

/-- The first `shutdownWrite` finds the buffer empty and no message of the thread on its way. -/
theorem Intact.shutdown {server : Option HttpServer} {thread : ℕ} {w : World} {e : Choice} {t : Task}
    {ts : List Task} {p : TcpConnection × List Task} (hl : w.Lined thread) (hw : w.Intact thread)
    (hnot : .shutdownWrite ∉ w.conn.trace) (hovertakes : ¬ Overtakes thread w (.loop e))
    (habandons : ¬ Abandons thread w (.loop e)) (htodo : w.todo = t::ts)
    (h : w.conn.run server e t = some p) : Delivered thread p.1.trace := by
  intro hmem
  obtain ⟨es,hes,hrecords,-⟩ := (run_appends h).trace
  have ht : t.shutsDown w.conn := by
    rw [hes] at hmem
    exact hrecords _ ((List.mem_append.mp hmem).resolve_left hnot)
  have hcall : ∀ a, t ≠ .call a := by
    rintro a rfl
    exact absurd ((hl.calls a (by rw [htodo]; exact .head _)).symm.trans ht) (by decide)
  obtain ⟨htrace,hwriting⟩ := shutsDown_trace h ht hcall
  have hbuffer : w.conn.outputBuffer = [] := by
    refine Classical.byContradiction fun hne => ?_
    by_cases hc : closed w.conn.trace
    · refine habandons ⟨t,by rw [htodo]; rfl,?_⟩
      cases t with
      | functor f =>
        cases f with
        | sendInLoop u message => cases ht.1
        | _ => exact ⟨ht,hc,hne⟩
      | _ => exact ⟨ht,hc,hne⟩
    · exact absurd ((hw.interest hc).mpr hne) (by simp [hwriting])
  have hline : bytesOf thread (sends (w.line thread)) = [] := by
    cases t with
    | finishWrite =>
      refine Classical.byContradiction fun hne => hovertakes ?_
      exact ⟨by rw [htodo]; rfl,ht.1,hne⟩
    | functor f =>
      obtain ⟨rest,fs,hqueue,-,-⟩ := queue_task htodo h
      have hline : w.line thread = f::(rest++(w.threads thread).functors) := by
        rw [line,hqueue]
        rfl
      have hbehind := hl.behind
      rw [hline,List.pairwise_cons] at hbehind
      have hown : bytesOf thread (sends [f]) = [] := by
        cases f <;> first | rfl | cases ht.1
      rw [hline,← List.singleton_append,sends_append,bytesOf_append,hown,List.nil_append]
      exact bytesOf_sends_eq_nil fun g hg => hbehind.1 g hg ht.1
    | call a => exact absurd rfl (hcall a)
    | _ => cases ht
  rw [htrace,beforeShutdown_first hnot,accepted_append]
  constructor
  · rw [← hw.bytes,hbuffer,List.append_nil]
  · simpa [hline] using hw.order.symm

/-- What holds of a run with the calls of one thread. -/
structure Keeps (thread : ℕ) (w : World) : Prop where
  swapped : w.Swapped
  lined : w.Lined thread
  delivered : Delivered thread w.conn.trace
  intact : .shutdownWrite ∉ w.conn.trace → w.Intact thread

/-- Only a task of the loop calls `shutdownWrite`, and behind it the thread has no more
messages accepted. -/
theorem step_extends {server : Option HttpServer} {thread : ℕ} {w w' : World} {l : Label}
    (hthread : thread ≠ 0) (h : step server w l = some w') :
    (∃ e t ts p, l = .loop e ∧ w.todo = t::ts ∧ w.conn.run server e t = some p ∧
        w' = { w with conn := p.1, todo := p.2++ts } ∧
        ∃ es, w'.conn.trace = w.conn.trace++es ∧ bytesOf thread (accepted es) = []) ∨
      w'.conn.trace = w.conn.trace ∨
      (w.conn.state = .kConnected ∧ ∃ u message, w'.conn.trace = w.conn.trace++[.accepted u message]) := by
  rcases step_cases h with ⟨e,t,ts,p,rfl,htodo,hp,rfl⟩ | ⟨e,rfl,htodo,ht⟩ | ⟨u,a,p,rfl,-,-,hp,rfl⟩ |
    ⟨u,p,rfl,hp,rfl⟩
  · obtain ⟨es,hes,hrecords,-⟩ := (run_appends hp).trace
    exact .inl ⟨e,t,ts,p,rfl,htodo,hp,rfl,es,hes,accepted_records hthread hrecords⟩
  · rw [(turn_conn ht).1]
    exact .inr (.inl rfl)
  · rcases threadCall_cases hp with ⟨message,-,hs,rfl⟩ | rfl | ⟨f,rfl,-⟩ | ⟨f,rfl,-,-⟩
    · exact .inr (.inr ⟨hs,u,message,rfl⟩)
    · exact .inr (.inl rfl)
    · exact .inr (.inl rfl)
    · exact .inr (.inl rfl)
  · rcases threadAdvance_cases hp with ⟨next,-,rfl⟩ | ⟨f,-,rfl⟩
    · exact .inr (.inl rfl)
    · exact .inr (.inl rfl)

theorem step_keeps {server : Option HttpServer} {thread : ℕ} {w w' : World} {l : Label}
    (hthread : thread ≠ 0) (hl : ShutsFrom thread l) (hopen : OpenWrites w l)
    (hC : .shutdownWrite ∉ w.conn.trace → ¬ Overtakes thread w l ∧ ¬ Abandons thread w l)
    (hw : w.Keeps thread) (h : step server w l = some w') : w'.Keeps thread := by
  refine ⟨step_swapped hw.swapped h,step_lined hl hw.swapped hw.lined h,?_,fun hnot => ?_⟩
  · by_cases hmem : .shutdownWrite ∈ w.conn.trace
    · rcases step_extends hthread h with ⟨e,t,ts,p,-,-,-,-,es,hes,haccepted⟩ | htrace | ⟨hs,-⟩
      · rw [hes]
        exact hw.delivered.append hmem haccepted
      · rw [htrace]
        exact hw.delivered
      · exact absurd hs (hw.lined.final hmem)
    · rcases step_extends hthread h with ⟨e,t,ts,p,rfl,htodo,hp,rfl,-⟩ | htrace | ⟨-,u,message,htrace⟩
      · exact (hw.intact hmem).shutdown hw.lined hmem (hC hmem).1 (hC hmem).2 htodo hp
      · rw [htrace]
        exact hw.delivered
      · rw [htrace]
        intro hin
        simp [hmem] at hin
  · have hbefore : .shutdownWrite ∉ w.conn.trace := by
      rcases step_extends hthread h with ⟨e,t,ts,p,-,-,-,-,es,hes,-⟩ | htrace | ⟨-,u,message,htrace⟩
      · exact fun hin => hnot (by rw [hes]; exact List.mem_append_left _ hin)
      · rwa [htrace] at hnot
      · exact fun hin => hnot (by rw [htrace]; exact List.mem_append_left _ hin)
    exact step_intact hthread (hopen hbefore) (hC hbefore).2 hw.swapped hw.lined (hw.intact hbefore) h

theorem established_keeps (highWaterMarkCallback : Option HighWaterMarkCallback) (highWaterMark : ℕ)
    (writeCompleteCallback : Option WriteCompleteCallback) (thread : ℕ) :
    (established highWaterMarkCallback highWaterMark writeCompleteCallback).Keeps thread := by
  have hinorder := established_inOrder highWaterMarkCallback highWaterMark writeCompleteCallback
  have htrace : (established highWaterMarkCallback highWaterMark writeCompleteCallback).conn.trace =
      [.update Channel.create.enableReading.events,.connectionCallback] := rfl
  refine ⟨fun hne => absurd rfl hne,⟨nofun,nofun,.nil,?_,?_,?_⟩,?_,fun _ => ⟨hinorder.streams.bytes,
    fun _ => hinorder.streams.interest,nofun,?_,rfl⟩⟩
  · rintro f (hf | hf) <;> cases hf
  · intro a ha
    simp [established,connectEstablished] at ha
  · rw [htrace]
    simp
  · rw [Delivered,htrace]
    simp
  · rw [htrace]
    simp

/-- One thread calls `send` and `shutdown`, and nobody else `shutdown`; everything else may
happen in any order. Before `shutdownWrite` is called, `::write` has accepted every byte of
the messages of the thread, as long as `handleWrite` does not take the part of
`shutdownInLoop` over messages on their way, and the connection is not closed over them. -/
theorem shutdown_delivers (server : Option HttpServer) (highWaterMarkCallback : Option HighWaterMarkCallback)
    (highWaterMark : ℕ) (writeCompleteCallback : Option WriteCompleteCallback) {thread : ℕ}
    (hthread : thread ≠ 0) {labels : List Label} {w : World}
    (h : Run (step server) (established highWaterMarkCallback highWaterMark writeCompleteCallback) labels w)
    (hcalls : ∀ l ∈ labels, ShutsFrom thread l)
    (hopen : Along (step server) OpenWrites
      (established highWaterMarkCallback highWaterMark writeCompleteCallback) labels)
    (hC : Along (step server)
      (fun w l => .shutdownWrite ∉ w.conn.trace → ¬ Overtakes thread w l ∧ ¬ Abandons thread w l)
      (established highWaterMarkCallback highWaterMark writeCompleteCallback) labels) :
    Delivered thread w.conn.trace := by
  have hlabels : Along (step server) (fun _ l => ShutsFrom thread l)
      (established highWaterMarkCallback highWaterMark writeCompleteCallback) labels := .of_labels hcalls
  have hkeeps : w.Keeps thread := by
    refine h.invariant_along (fun s l t hs hl hstep => ?_) ((hopen.and hC).and hlabels)
      (established_keeps highWaterMarkCallback highWaterMark writeCompleteCallback thread)
    exact step_keeps hthread hl.2 hl.1.1 hl.1.2 hs hstep
  exact hkeeps.delivered

instance (thread : ℕ) (l : Label) : Decidable (ShutsFrom thread l) :=
  match l with
  | .loop e => inferInstanceAs (Decidable (∀ a ∈ e.acts, a.shuts = false))
  | .call u a => inferInstanceAs (Decidable (a.shuts = true → u = thread))
  | .advance _ => isTrue trivial

instance (w : World) (l : Label) : Decidable (OpenWrites w l) :=
  inferInstanceAs (Decidable (.shutdownWrite ∉ w.conn.trace → NoFault l))

instance (thread : ℕ) (w : World) (l : Label) : Decidable (Overtakes thread w l) :=
  match l with
  | .loop _ => inferInstanceAs (Decidable (_ ∧ _ ∧ _))
  | .call _ _ => isFalse id
  | .advance _ => isFalse id

instance (c : TcpConnection) (t : Task) : Decidable (t.shutsDown c) :=
  match t with
  | .finishWrite | .functor _ => inferInstanceAs (Decidable (_ ∧ _))
  | .call a => inferInstanceAs (Decidable (a.shuts = true))
  | .callback _ | .messageCallback | .connectionCallback | .closeCallback | .removeChannel | .timer _
  | .other => isFalse id

instance (trace : List Event) : Decidable (closed trace) := inferInstanceAs (Decidable (_ ∨ _))

instance (thread : ℕ) (c : TcpConnection) (f : Functor) : Decidable (Task.abandons thread c (.functor f)) :=
  match f with
  | .sendInLoop _ _ => inferInstanceAs (Decidable (_ ∧ _ ∧ _))
  | .shutdownInLoop | .shutdownAndForceCloseInLoop | .forceCloseInLoop | .startReadInLoop | .stopReadInLoop
  | .addTimer _ | .writeComplete _ | .highWaterMark _ _ | .connectDestroyed | .user =>
    inferInstanceAs (Decidable (_ ∧ _ ∧ _))

instance (thread : ℕ) (c : TcpConnection) (t : Task) : Decidable (t.abandons thread c) :=
  match t with
  | .functor f => inferInstanceAs (Decidable (Task.abandons thread c (.functor f)))
  | .finishWrite | .call _ | .callback _ | .messageCallback | .connectionCallback | .closeCallback
  | .removeChannel | .timer _ | .other => inferInstanceAs (Decidable (_ ∧ _ ∧ _))

instance (thread : ℕ) (w : World) (l : Label) : Decidable (Abandons thread w l) :=
  match l with
  | .loop _ => inferInstanceAs (Decidable (∃ t ∈ w.todo.head?, t.abandons thread w.conn))
  | .call _ _ => isFalse id
  | .advance _ => isFalse id

/-- Thread 1 sends two bytes, of which one is buffered, and calls `shutdown`; its functor
finds write interest, and `handleWrite` shuts down when the buffer is drained. -/
def drainedLater : List Label :=
  [.loop {},.loop {},.call 1 (.send [1,2]),.advance 1,.call 1 .shutdown,.advance 1,.advance 1,.loop {},.loop {},
    .loop {},.loop { write := .wrote 1 },.loop {},.loop {},.loop {},.loop { active := [.conn Channel.POLLOUT] },
    .loop {},.loop { write := .wrote 1 },.loop {}]

theorem shutdown_delivers_drainedLater :
    ∃ w, exec (step none) (established none 64 none) drainedLater = some w ∧
      .shutdownWrite ∈ w.conn.trace ∧ Delivered 1 w.conn.trace := by
  obtain ⟨w,hw⟩ : ∃ w, exec (step none) (established none 64 none) drainedLater = some w :=
    Option.isSome_iff_exists.mp (by decide +kernel)
  have hmem : (exec (step none) (established none 64 none) drainedLater).map
      (fun w => decide (.shutdownWrite ∈ w.conn.trace)) = some true := by decide +kernel
  rw [hw] at hmem
  exact ⟨w,hw,of_decide_eq_true (Option.some.inj hmem),shutdown_delivers none none 64 none (by decide)
    ((run_iff_exec _ _ _ _).mpr hw) (by decide) (by decide +kernel) (by decide +kernel)⟩

/-- Thread 1 sends again before it calls `shutdown`; the loop drains the buffer between the
store of `kDisconnecting` and the functor of the second message. -/
def drainedBefore : List Label :=
  [.loop {},.loop {},.call 1 (.send [1,2]),.advance 1,.loop {},.loop {},.loop {},.loop { write := .wrote 1 },
    .loop {},.call 1 (.send [3]),.advance 1,.call 1 .shutdown,.advance 1,.loop { active := [.conn Channel.POLLOUT] },
    .loop {},.loop { write := .wrote 1 },.loop {}]

theorem shutdown_loses :
    ¬ ∀ (server : Option HttpServer) (highWaterMarkCallback : Option HighWaterMarkCallback)
      (highWaterMark : ℕ) (writeCompleteCallback : Option WriteCompleteCallback) (thread : ℕ),
      thread ≠ 0 → ∀ (labels : List Label) (w : World),
      Run (step server) (established highWaterMarkCallback highWaterMark writeCompleteCallback) labels w →
      (∀ l ∈ labels, ShutsFrom thread l) →
      Along (step server) OpenWrites
        (established highWaterMarkCallback highWaterMark writeCompleteCallback) labels →
      Delivered thread w.conn.trace := by
  intro h
  obtain ⟨w,hw⟩ : ∃ w, exec (step none) (established none 64 none) drainedBefore = some w :=
    Option.isSome_iff_exists.mp (by decide +kernel)
  have hbytes : (exec (step none) (established none 64 none) drainedBefore).map (fun w =>
      (decide (.shutdownWrite ∈ w.conn.trace),bytesOf 1 (sent (beforeShutdown w.conn.trace)),
        bytesOf 1 (accepted w.conn.trace))) = some (true,[1,2],[1,2,3]) := by decide +kernel
  rw [hw] at hbytes
  obtain ⟨hmem,hsent,haccepted⟩ : .shutdownWrite ∈ w.conn.trace ∧
      bytesOf 1 (sent (beforeShutdown w.conn.trace)) = [1,2] ∧ bytesOf 1 (accepted w.conn.trace) = [1,2,3] := by
    simpa using hbytes
  have hdelivered := h none none 64 none 1 (by decide) drainedBefore w ((run_iff_exec _ _ _ _).mpr hw) (by decide)
    (by decide +kernel) hmem
  rw [hsent,haccepted] at hdelivered
  exact absurd hdelivered.2 (by decide)

end World
end GgLib
