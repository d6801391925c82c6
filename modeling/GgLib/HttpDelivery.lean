import GgLib.ConnectionStream

/-! The answer of an `HttpServer` that closes the connection. `forceClose` queues a functor
that does not look at `outputBuffer_`, so what decides is whether the answer is written
before the functors of the same iteration run. -/
namespace GgLib

open LabelledSystem TcpConnection

namespace TcpConnection

/-- The functors of a connection that only its servers call. -/
def Functor.served : Functor → Bool
  | .forceCloseInLoop => true
  | .connectDestroyed => true
  | .writeComplete _ => true
  | .highWaterMark _ _ => true
  | .user => true
  | _ => false

/-- The tasks of such a connection while its peer keeps it open. -/
def Task.served : Task → Bool
  | .callback .close => false
  | .call (.send _) => true
  | .call .forceClose => true
  | .call _ => false
  | .functor f => f.served
  | _ => true

theorem Task.follows.served {e : Choice} (hacts : e.acts = []) {t : Task} (h : t.follows e) :
    t.served = true := by
  cases t with
  | callback cb => cases h
  | functor f => cases h
  | timer i => cases h
  | other => cases h
  | call a =>
    rcases h with ha | ⟨message,rfl⟩ | rfl
    · simp [hacts] at ha
    · rfl
    · rfl
  | _ => rfl

/-- Only functors that are served are queued, and no timer is started. -/
structure Serves (c c' : TcpConnection) : Prop where
  pending : ∀ f ∈ c'.pendingFunctors, f ∈ c.pendingFunctors ∨ f.served = true
  timers : c'.timers = c.timers

theorem Functor.served_of_isOwn {closeCallback : Bool} {f : Functor} (h : f.isOwn closeCallback = true) :
    f.served = true := by
  cases f <;> first | rfl | cases h

theorem Task.not_delays {t : Task} (h : t.served = true) : ¬ t.delays := by
  intro hdelays
  cases t with
  | call a => rcases hdelays with rfl | rfl <;> cases h
  | functor f => rcases hdelays with rfl | ⟨cb,rfl⟩ <;> cases h
  | _ => cases hdelays

theorem run_serves {server : Option HttpServer} {c : TcpConnection} {e : Choice} {t : Task}
    {p : TcpConnection × List Task} (h : c.run server e t = some p) (ht : ¬ t.delays) (htimers : c.timers = []) :
    Serves c p.1 := by
  constructor
  · intro f hf
    obtain ⟨fs,hfs,hown⟩ := (run_appends h).pending
    rw [hfs] at hf
    exact (List.mem_append.mp hf).imp_right fun hf => Functor.served_of_isOwn (hown f hf)
  · refine (run_edited h).induct (I:=fun c' => c'.timers = c.timers) rfl fun c' d hd hc' => ?_
    cases d with
    | runAfter cb => exact absurd hd ht
    | eraseTimer i =>
      obtain ⟨cb,-,hcb⟩ := hd
      simp [htimers] at hcb
    | _ => exact hc'

end TcpConnection
namespace World

/-- The connection is only called by its servers and its peer keeps it open: no end of the
stream, no hangup without data, no `EPIPE` or `ECONNRESET`. -/
def Serving : Label → Prop
  | .loop e => e.acts = [] ∧ e.read ≠ .received [] ∧ (∀ errno, e.write = .failed errno → ¬ errno.isFault) ∧
      ∀ a ∈ e.active, .callback .close ∉ a.tasks
  | .call _ a => a = .connectDestroyed ∨ a = .queueInLoop
  | .advance _ => True

/-- What holds throughout such a run. -/
structure Served (w : World) : Prop where
  swapped : w.Swapped
  timers : w.conn.timers = []
  queue : ∀ f ∈ w.queue, f.served = true
  todo : ∀ t ∈ w.todo, t.served = true
  callbacks : ∀ cb, .callback cb ∈ w.todo → functorsIn w.todo = []
  active : ∀ a ∈ w.active, .callback .close ∉ a.tasks
  threads : ∀ t, w.threads t = .idle ∨ ∃ f, w.threads t = .pushing f ∧ f.served = true
  streams : w.conn.state ≠ .kDisconnected → w.conn.Streams

theorem established_served (highWaterMarkCallback : Option HighWaterMarkCallback) (highWaterMark : ℕ)
    (writeCompleteCallback : Option WriteCompleteCallback) :
    (established highWaterMarkCallback highWaterMark writeCompleteCallback).Served where
  swapped := fun hne => absurd rfl hne
  timers := rfl
  queue := by simp [established,connectEstablished,queue,functorsIn,create,record,updateChannel,setState]
  todo := by simp [established,connectEstablished,Task.served]
  callbacks := by simp [established,connectEstablished]
  active := by simp [established]
  threads := fun t => .inl rfl
  streams := fun _ =>
    (established_inOrder highWaterMarkCallback highWaterMark writeCompleteCallback).streams

theorem functorsIn_tasks (a : Active) : functorsIn a.tasks = [] := by
  cases a with
  | conn revents => exact functorsIn_callbacks _
  | timer i => rfl
  | other => rfl

theorem tasks_served {a : Active} (h : .callback .close ∉ a.tasks) : ∀ t ∈ a.tasks, t.served = true := by
  intro t ht
  cases a with
  | conn revents =>
    obtain ⟨cb,-,rfl⟩ := List.mem_map.mp ht
    cases cb with
    | close => exact absurd ht h
    | _ => rfl
  | timer i =>
    rw [List.mem_singleton.mp ht]
    rfl
  | other =>
    rw [List.mem_singleton.mp ht]
    rfl

theorem Served.todo_run {s : HttpServer} {w : World} {e : Choice} {t : Task} {ts : List Task}
    {p : TcpConnection × List Task} (hw : w.Served) (hacts : e.acts = []) (htodo : w.todo = t::ts)
    (h : w.conn.run (some s) e t = some p) :
    (∀ t' ∈ p.2++ts, t'.served = true) ∧ ∀ cb, .callback cb ∈ p.2++ts → functorsIn (p.2++ts) = [] := by
  constructor
  · intro t' ht'
    rcases List.mem_append.mp ht' with ht' | ht'
    · exact (run_follows h t' ht').served hacts
    · exact hw.todo t' (by rw [htodo]; exact .tail _ ht')
  · intro cb hcb
    rcases List.mem_append.mp hcb with hcb | hcb
    · exact absurd (run_follows h _ hcb) id
    · have hnil := hw.callbacks cb (by rw [htodo]; exact .tail _ hcb)
      rw [htodo,← List.singleton_append,functorsIn_append] at hnil
      rw [functorsIn_append,run_functorsIn h,(List.append_eq_nil_iff.mp hnil).2]
      rfl

theorem Served.streams_run {s : HttpServer} {w : World} {e : Choice} {t : Task} {ts : List Task}
    {p : TcpConnection × List Task} (hw : w.Served)
    (hfault : ∀ errno, e.write = .failed errno → ¬ errno.isFault) (htodo : w.todo = t::ts)
    (h : w.conn.run (some s) e t = some p) (hp : p.1.state ≠ .kDisconnected) : p.1.Streams := by
  rcases run_stream h with ⟨-,hq | ⟨hshut,-⟩⟩ | ⟨thread,message,rfl,-⟩ | ⟨message,rfl,hs,he⟩ | ⟨rfl,he⟩
  · refine .quiet hq (hw.streams ?_)
    rcases hq.state with hs | ⟨hlive,-⟩
    · rwa [hs] at hp
    · exact hlive
  · exact absurd hshut.state hp
  · have hserved := hw.todo (.functor (.sendInLoop thread message)) (by rw [htodo]; exact .head _)
    cases hserved
  · have hlive : w.conn.state ≠ .kDisconnected := by simp [hs]
    have hstreams := hw.streams hlive
    rw [he]
    exact (sendInLoop_sendsOne (c:=w.conn.record (.accepted 0 message)) hlive
      ⟨by simpa [record] using hstreams.bytes,hstreams.interest⟩ 0 message hfault).streams
  · rw [he,handleWrite_state] at hp
    rw [he]
    exact (handleWrite_streams (hw.streams hp) e.write).1

theorem Served.run {s : HttpServer} {w : World} {e : Choice} {t : Task} {ts : List Task}
    {p : TcpConnection × List Task} (hw : w.Served) (hl : Serving (.loop e)) (htodo : w.todo = t::ts)
    (h : w.conn.run (some s) e t = some p) : Served { w with conn := p.1, todo := p.2++ts } := by
  obtain ⟨hacts,-,hfault,-⟩ := hl
  have ht : t.served = true := hw.todo t (by rw [htodo]; exact .head _)
  have hserves := run_serves h (Task.not_delays ht) hw.timers
  obtain ⟨htodo',hcallbacks⟩ := hw.todo_run hacts htodo h
  refine ⟨hw.swapped,hserves.timers.trans hw.timers,?_,htodo',hcallbacks,hw.active,hw.threads,
    hw.streams_run hfault htodo h⟩
  rw [queue_run h]
  intro f hf
  rcases List.mem_append.mp hf with hf | hf
  · refine hw.queue f ?_
    rw [World.queue,htodo,← List.singleton_append (l:=ts),functorsIn_append]
    simp only [List.mem_append] at hf ⊢
    rcases hf with hf | hf
    · exact .inl (.inl (.inr hf))
    · exact .inl (.inr hf)
  · rcases hserves.pending f hf with hf | hf
    · exact hw.queue f (List.mem_append_right _ hf)
    · exact hf

theorem Served.turn {w w' : World} {e : Choice} (hw : w.Served) (hl : Serving (.loop e)) (htodo : w.todo = [])
    (h : w.turn e = some w') : w'.Served := by
  obtain ⟨hconn,hthreads⟩ := turn_conn h
  obtain ⟨hswapped,hqueue⟩ := turn_queue h htodo hw.swapped
  obtain ⟨htodo',hactive⟩ := turn_todo h htodo
  have hfunctors : ∀ f ∈ w.functors, f.served = true := by
    intro f hf
    exact hw.queue f (by simp [World.queue,hf])
  refine ⟨hswapped,by rw [hconn]; exact hw.timers,by rw [hqueue]; exact hw.queue,?_,?_,?_,
    by rw [hthreads]; exact hw.threads,?_⟩
  · rcases htodo' with htodo' | ⟨a,ha,htodo'⟩ | ⟨f,hf,htodo'⟩ <;> rw [htodo']
    · simp
    · exact tasks_served (hw.active a ha)
    · intro t ht
      rw [List.mem_singleton.mp ht]
      exact hfunctors f hf
  · intro cb hcb
    rcases htodo' with htodo' | ⟨a,-,htodo'⟩ | ⟨f,-,htodo'⟩ <;> rw [htodo'] at hcb ⊢
    · rfl
    · exact functorsIn_tasks a
    · simp at hcb
  · intro a ha
    exact (hactive a ha).elim (hw.active a) (hl.2.2.2 a)
  · rw [hconn]
    exact fun hlive => ⟨(hw.streams hlive).bytes,(hw.streams hlive).interest⟩

/-- Another thread starts a call of `connectDestroyed` or of the loop, or pushes it. -/
theorem served_thread {w : World} (hw : w.Served) {thread : ℕ} {c : TcpConnection} {pc : Pc}
    {fs : List Functor} (hc : c = { w.conn with pendingFunctors := w.conn.pendingFunctors++fs })
    (hfs : ∀ f ∈ fs, f.served = true) (hpc : pc = .idle ∨ ∃ f, pc = .pushing f ∧ f.served = true) :
    Served { w with conn := c, threads := Function.update w.threads thread pc } := by
  subst hc
  refine ⟨hw.swapped,hw.timers,?_,hw.todo,hw.callbacks,hw.active,?_,
    fun hlive => ⟨(hw.streams hlive).bytes,(hw.streams hlive).interest⟩⟩
  · intro f hf
    simp only [queue,← List.append_assoc] at hf
    rcases List.mem_append.mp hf with hf | hf
    · exact hw.queue f hf
    · exact hfs f hf
  · intro t
    show Function.update w.threads thread pc t = .idle ∨ _
    by_cases ht : t = thread
    · subst ht
      simpa using hpc
    · simpa [Function.update_of_ne ht] using hw.threads t

/-- What a step of another thread does to such a connection: it queues functors. -/
theorem thread_served {w : World} {l : Label} (hw : w.Served) (hl : Serving l) {thread : ℕ}
    {p : TcpConnection × Pc}
    (h : (∃ a, l = .call thread a ∧ threadCall w.conn thread a = some p) ∨
      (l = .advance thread ∧ threadAdvance w.conn (w.threads thread) = some p)) :
    ∃ fs, p.1 = { w.conn with pendingFunctors := w.conn.pendingFunctors++fs } ∧
      (∀ f ∈ fs, f.served = true) ∧ (p.2 = .idle ∨ ∃ f, p.2 = .pushing f ∧ f.served = true) := by
  rcases h with ⟨a,rfl,hp⟩ | ⟨rfl,hp⟩
  · refine ⟨[],?_,by simp,?_⟩ <;> rcases hl with rfl | rfl <;> cases hp
    · simp
    · simp
    · exact .inr ⟨_,rfl,rfl⟩
    · exact .inr ⟨_,rfl,rfl⟩
  · rcases hw.threads thread with hpc | ⟨f,hpc,hf⟩ <;> rw [hpc] at hp <;> cases hp
    exact ⟨[f],rfl,by simpa using hf,.inl rfl⟩

theorem step_served {s : HttpServer} {w w' : World} {l : Label} (hl : Serving l) (hw : w.Served)
    (h : step (some s) w l = some w') : w'.Served := by
  rcases step_cases h with ⟨e,t,ts,p,rfl,htodo,hp,rfl⟩ | ⟨e,rfl,htodo,ht⟩ |
    ⟨thread,a,p,rfl,-,-,hp,rfl⟩ | ⟨thread,p,rfl,hp,rfl⟩
  · exact hw.run hl htodo hp
  · exact hw.turn hl htodo ht
  · obtain ⟨fs,hc,hfs,hpc⟩ := thread_served hw hl (.inl ⟨a,rfl,hp⟩)
    exact served_thread hw hc hfs hpc
  · obtain ⟨fs,hc,hfs,hpc⟩ := thread_served hw hl (.inr ⟨rfl,hp⟩)
    exact served_thread hw hc hfs hpc

/-- The next step of the loop thread is the `onMessage` that ends with `x`: its last answer
asks for close, or it is the answer to a malformed request. -/
structure Answers (s : HttpServer) (w : World) (x : HttpServer.Exchange) : Prop where
  state : w.conn.state = .kConnected
  todo : ∃ ts, w.todo = .messageCallback::ts
  exchange : ∃ context, w.conn.context = some context ∧
    s.onMessage w.conn.answered context w.conn.inputBuffer = some (.ok x)
  needClose : x.needClose = true

/-- How far an answer has come on its way into the stream `total`. -/
inductive Delivering (s : HttpServer) (total : List Byte) (w : World) : Prop
  | answers (x : HttpServer.Exchange) (h : Answers s w x)
      (bytes : written w.conn.trace++w.conn.outputBuffer++x.outBuf = total)
  | sends (out : List Byte) (ts : List Task) (todo : w.todo = .call (.send out)::.call .forceClose::ts)
      (state : w.conn.state = .kConnected) (bytes : written w.conn.trace++w.conn.outputBuffer++out = total)
  | closes (ts : List Task) (todo : w.todo = .call .forceClose::ts) (state : w.conn.state = .kConnected)
      (bytes : written w.conn.trace++w.conn.outputBuffer = total)
      (rest : w.conn.outputBuffer = [] ∨ .callback .write ∈ ts)
  | closing (state : w.conn.state = .kDisconnecting ∨ w.conn.state = .kDisconnected)
      (bytes : written w.conn.trace++w.conn.outputBuffer = total)
      (rest : w.conn.outputBuffer = [] ∨ (w.conn.state = .kDisconnecting ∧ .callback .write ∈ w.todo))

/-- The answer goes out at once: `::write` takes all of it, or a write callback waits in the
same dispatch and `::write` takes all that is buffered then. -/
def PromptTask (c : TcpConnection) (e : Choice) : List Task → Prop
  | .call (.send out)::.call .forceClose::ts =>
    (c.Direct ∧ e.write.count out.length = .ok out.length) ∨ .callback .write ∈ ts
  | .callback .write::_ =>
    c.state = .kDisconnecting → c.outputBuffer = [] ∨
      e.write.count c.outputBuffer.length = .ok c.outputBuffer.length
  | _ => True

def Prompt (w : World) : Label → Prop
  | .loop e => PromptTask w.conn e w.todo
  | _ => True

theorem sendInLoop_direct {c : TcpConnection} (hs : c.state ≠ .kDisconnected) (hd : c.Direct) {thread : ℕ}
    {message : List Byte} {r : WriteResult} (hall : r.count message.length = .ok message.length) :
    (c.sendInLoop thread message r).outputBuffer = [] := by
  rcases c.sendInLoop_cases hs thread message r with ⟨-,-,h⟩ | ⟨-,n,hn,hlt,-⟩ | ⟨hfail,-,-⟩ | ⟨-,h⟩
  · rw [h,(queueWriteComplete_kept _).outputBuffer]
    exact hd.2
  · rw [hall] at hn
    cases hn
    exact absurd hlt (Nat.lt_irrefl _)
  · obtain ⟨errno,rfl⟩ := hfail hd
    cases hall
  · rw [h]
    exact hd.2

theorem handleWrite_drains {c : TcpConnection} {r : WriteResult} (hc : c.Streams)
    (hall : r.count c.outputBuffer.length = .ok c.outputBuffer.length) :
    (c.handleWrite r).1.outputBuffer = [] := by
  by_cases hempty : c.outputBuffer = []
  · rcases c.handleWrite_cases r with h | ⟨-,n,-,-,hlt,-⟩ | ⟨-,-,hne,-⟩
    · rw [h]
      exact hempty
    · simp [hempty] at hlt
    · exact absurd hempty hne
  · have hw : c.channel.isWriting = true := hc.interest.mpr hempty
    have hpos : 0 < c.outputBuffer.length := List.length_pos_of_ne_nil hempty
    have hrest : (c.retrieveWritten c.outputBuffer.length).outputBuffer = [] := by
      simp [retrieveWritten,ByteQueue.dropFront]
    simp only [handleWrite,hw,hall,hpos,hrest,if_true,List.isEmpty_nil]
    rw [(queueWriteComplete_kept _).outputBuffer]
    exact hrest

theorem handleWrite_empty {c : TcpConnection} {r : WriteResult} (h : c.outputBuffer = []) :
    (c.handleWrite r).1 = c := by
  rcases c.handleWrite_cases r with he | ⟨-,n,-,-,hlt,-⟩ | ⟨-,-,hne,-⟩
  · rw [he]
  · simp [h] at hlt
  · exact absurd h hne

theorem Delivering.answer {s : HttpServer} {w : World} {x : HttpServer.Exchange} {e : Choice} {t : Task}
    {ts : List Task} {p : TcpConnection × List Task} (hx : Answers s w x) (htodo : w.todo = t::ts)
    (h : w.conn.run (some s) e t = some p) :
    Delivering s (written w.conn.trace++w.conn.outputBuffer++x.outBuf)
      { w with conn := p.1, todo := p.2++ts } := by
  obtain ⟨ts',hts⟩ := hx.todo
  obtain ⟨context,hcontext,hexchange⟩ := hx.exchange
  rw [htodo] at hts
  cases hts
  have hrun : runMessageCallback (some s) w.conn e = some p := h
  rcases runMessageCallback_cases hrun with ⟨hnone,-⟩ | ⟨s',context',x',hs',hcontext',hx',rfl⟩
  · cases hnone
  · cases hs'
    rw [hcontext] at hcontext'
    cases hcontext'
    rw [hexchange] at hx'
    cases hx'
    exact .sends x.outBuf ts (by simp [hx.needClose]) hx.state rfl

theorem Delivering.send {s : HttpServer} {w : World} {e : Choice} {t : Task} {out : List Byte}
    {ts ts' : List Task} {p : TcpConnection × List Task} (hw : w.Served)
    (hfault : ∀ errno, e.write = .failed errno → ¬ errno.isFault) (hprompt : PromptTask w.conn e w.todo)
    (hsend : w.todo = .call (.send out)::.call .forceClose::ts') (hstate : w.conn.state = .kConnected)
    (htodo : w.todo = t::ts) (h : w.conn.run (some s) e t = some p) :
    Delivering s (written w.conn.trace++w.conn.outputBuffer++out) { w with conn := p.1, todo := p.2++ts } := by
  have hlive : w.conn.state ≠ .kDisconnected := by simp [hstate]
  have hstreams := hw.streams hlive
  rw [hsend] at htodo hprompt
  cases htodo
  cases h
  have hconn : (w.conn.call e.write (.send out)).1 =
      (w.conn.record (.accepted 0 out)).sendInLoop 0 out e.write := by
    simp [call,hstate]
  have hone := sendInLoop_sendsOne (c:=w.conn.record (.accepted 0 out)) hlive
    ⟨by simpa [record] using hstreams.bytes,hstreams.interest⟩ 0 out hfault
  rw [← hconn] at hone
  refine .closes ts' rfl (by rw [hconn]; simp [record,hstate]) ?_ ?_
  · rw [hone.streams.bytes,hone.sent,hstreams.bytes]
    simp [record]
  · rcases hprompt with ⟨hd,hall⟩ | hwrite
    · refine .inl ?_
      show (w.conn.call e.write (.send out)).1.outputBuffer = []
      rw [hconn]
      exact sendInLoop_direct (c:=w.conn.record (.accepted 0 out)) hlive hd hall
    · exact .inr hwrite

theorem Delivering.forceClose {s : HttpServer} {w : World} {e : Choice} {t : Task} {ts ts' : List Task}
    {p : TcpConnection × List Task} {total : List Byte}
    (hclose : w.todo = .call .forceClose::ts') (hstate : w.conn.state = .kConnected)
    (hbytes : written w.conn.trace++w.conn.outputBuffer = total)
    (hrest : w.conn.outputBuffer = [] ∨ .callback .write ∈ ts')
    (htodo : w.todo = t::ts) (h : w.conn.run (some s) e t = some p) :
    Delivering s total { w with conn := p.1, todo := p.2++ts } := by
  rw [hclose] at htodo
  cases htodo
  have hkept := run_kept h rfl
  cases h
  have hstate' : w.conn.forceClose.state = .kDisconnecting := by
    simp [TcpConnection.forceClose,hstate,queueInLoop,setState]
  refine .closing (.inl hstate') ?_ ?_
  · show written w.conn.forceClose.trace++w.conn.forceClose.outputBuffer = total
    exact (congrArg₂ (·++·) hkept.written hkept.outputBuffer).trans hbytes
  · exact hrest.imp (fun hempty => hkept.outputBuffer.trans hempty) fun hwrite => ⟨hstate',hwrite⟩

/-- While the functor of `forceClose` waits, the bytes still buffered can only go out with
the write callback of the same dispatch. -/
theorem Delivering.wait {s : HttpServer} {w : World} {e : Choice} {t : Task} {ts : List Task}
    {p : TcpConnection × List Task} {total : List Byte} (hw : w.Served) (hl : Serving (.loop e))
    (hprompt : PromptTask w.conn e w.todo)
    (hstate : w.conn.state = .kDisconnecting ∨ w.conn.state = .kDisconnected)
    (hbytes : written w.conn.trace++w.conn.outputBuffer = total)
    (hrest : w.conn.outputBuffer = [] ∨ (w.conn.state = .kDisconnecting ∧ .callback .write ∈ w.todo))
    (htodo : w.todo = t::ts) (h : w.conn.run (some s) e t = some p) :
    Delivering s total { w with conn := p.1, todo := p.2++ts } := by
  have hserved : t.served = true := hw.todo t (by rw [htodo]; exact .head _)
  rcases run_stream h with ⟨hmoves,hq | ⟨hshut,hcloses⟩⟩ | ⟨thread,message,rfl,-⟩ | ⟨message,rfl,hs,-⟩ |
    ⟨rfl,he⟩
  · have hstay : p.1.state = .kDisconnecting ∨ p.1.state = .kDisconnected := by
      rcases hq.state with hs | ⟨-,hs⟩
      · rwa [hs]
      · exact .inl hs
    refine .closing hstay (by rw [hq.written,hq.outputBuffer]; exact hbytes) ?_
    refine hrest.imp (fun hempty => hq.outputBuffer.trans hempty) fun ⟨hs,hwrite⟩ => ⟨?_,?_⟩
    · exact hq.state.elim (fun heq => heq.trans hs) And.right
    · rw [htodo] at hwrite
      rcases List.mem_cons.mp hwrite with rfl | hwrite
      · cases hmoves
      · exact List.mem_append_right _ hwrite
  · refine .closing (.inr hshut.state) (by rw [hshut.written,hshut.outputBuffer]; exact hbytes) (.inl ?_)
    rcases hrest with hempty | ⟨hs,hwrite⟩
    · exact hshut.outputBuffer.trans hempty
    · -- no task that closes stands before a write callback of the same dispatch
      have hnil := hw.callbacks .write hwrite
      rw [htodo] at hnil
      rcases hcloses with hnow | ⟨-,hconnected⟩
      · cases t with
        | callback cb =>
          cases cb with
          | close => cases hserved
          | read => exact absurd hnow hl.2.1
          | _ => cases hnow
        | functor f => simp at hnil
        | timer i =>
          have htimer := hnow.1
          simp [hw.timers] at htimer
        | _ => cases hnow
      · cases hs.symm.trans hconnected
  · cases hserved
  · rcases hstate with hs' | hs' <;> rw [hs'] at hs <;> cases hs
  · have hstate' : p.1.state = .kDisconnecting ∨ p.1.state = .kDisconnected := by
      rw [he,handleWrite_state]
      exact hstate
    by_cases hempty : w.conn.outputBuffer = []
    · have hsame : p.1 = w.conn := he.trans (handleWrite_empty hempty)
      exact .closing hstate' (by rw [hsame]; exact hbytes) (.inl (by rw [hsame]; exact hempty))
    · obtain ⟨hs,-⟩ := hrest.resolve_left hempty
      have hstreams := hw.streams (by simp [hs])
      obtain ⟨hstreams',hsent,-,-⟩ := handleWrite_streams hstreams e.write
      rw [← he] at hstreams' hsent
      rw [htodo] at hprompt
      refine .closing hstate' ?_ (.inl ?_)
      · rw [← hbytes,hstreams'.bytes,hsent,hstreams.bytes]
      · rw [he]
        exact handleWrite_drains hstreams ((hprompt hs).resolve_left hempty)

theorem Delivering.thread {s : HttpServer} {w : World} {total : List Byte} {c : TcpConnection}
    {fs : List Functor} {threads : ℕ → Pc} (hd : Delivering s total w)
    (hc : c = { w.conn with pendingFunctors := w.conn.pendingFunctors++fs }) :
    Delivering s total { w with conn := c, threads } := by
  subst hc
  cases hd with
  | answers x hx hbytes => exact .answers x ⟨hx.state,hx.todo,hx.exchange,hx.needClose⟩ hbytes
  | sends out ts htodo hstate hbytes => exact .sends out ts htodo hstate hbytes
  | closes ts htodo hstate hbytes hrest => exact .closes ts htodo hstate hbytes hrest
  | closing hstate hbytes hrest => exact .closing hstate hbytes hrest

theorem step_delivering {s : HttpServer} {w w' : World} {l : Label} {total : List Byte} (hl : Serving l)
    (hprompt : w.Prompt l) (hw : w.Served) (hd : Delivering s total w) (h : step (some s) w l = some w') :
    Delivering s total w' := by
  rcases step_cases h with ⟨e,t,ts,p,rfl,htodo,hp,rfl⟩ | ⟨e,rfl,htodo,ht⟩ |
    ⟨thread,a,p,rfl,-,-,hp,rfl⟩ | ⟨thread,p,rfl,hp,rfl⟩
  · cases hd with
    | answers x hx hbytes =>
      rw [← hbytes]
      exact .answer hx htodo hp
    | sends out ts' hsend hstate hbytes =>
      rw [← hbytes]
      exact .send hw hl.2.2.1 hprompt hsend hstate htodo hp
    | closes ts' hclose hstate hbytes hrest => exact .forceClose hclose hstate hbytes hrest htodo hp
    | closing hstate hbytes hrest => exact .wait hw hl hprompt hstate hbytes hrest htodo hp
  · obtain ⟨hconn,-⟩ := turn_conn ht
    cases hd with
    | answers x hx =>
      obtain ⟨ts,hts⟩ := hx.todo
      simp [htodo] at hts
    | sends out ts hsend => simp [htodo] at hsend
    | closes ts hclose => simp [htodo] at hclose
    | closing hstate hbytes hrest =>
      have hempty : w.conn.outputBuffer = [] := hrest.resolve_right (by simp [htodo])
      refine .closing ?_ ?_ (.inl ?_) <;> rw [hconn]
      · exact hstate
      · exact hbytes
      · exact hempty
  · obtain ⟨fs,hc,-,-⟩ := thread_served hw hl (.inl ⟨a,rfl,hp⟩)
    exact hd.thread hc
  · obtain ⟨fs,hc,-,-⟩ := thread_served hw hl (.inr ⟨rfl,hp⟩)
    exact hd.thread hc

instance (c : TcpConnection) : Decidable c.Direct := inferInstanceAs (Decidable (_ ∧ _))

instance (c : TcpConnection) (e : Choice) (ts : List Task) : Decidable (PromptTask c e ts) := by
  unfold PromptTask
  split <;> infer_instance

instance (w : World) (l : Label) : Decidable (w.Prompt l) :=
  match l with
  | .loop e => inferInstanceAs (Decidable (PromptTask w.conn e w.todo))
  | .call _ _ => isTrue trivial
  | .advance _ => isTrue trivial

/-- In every run of an `HttpServer` connection whose peer keeps it open, with any results of
`::write` but `EPIPE` and `ECONNRESET`: when the answer that asks for close goes out at once,
the connection is not disconnected before every byte of it is written. -/
theorem answer_delivered (s : HttpServer) (highWaterMarkCallback : Option HighWaterMarkCallback)
    (highWaterMark : ℕ) (writeCompleteCallback : Option WriteCompleteCallback)
    {before behind : List Label} {w₀ w : World} {x : HttpServer.Exchange}
    (hbefore : Run (step (some s))
      (established highWaterMarkCallback highWaterMark writeCompleteCallback) before w₀)
    (hx : Answers s w₀ x) (hbehind : Run (step (some s)) w₀ behind w)
    (hserving : ∀ l ∈ before++behind, Serving l) (hprompt : Along (step (some s)) Prompt w₀ behind)
    (hclosed : w.conn.state = .kDisconnected) :
    w.conn.outputBuffer = [] ∧
      written w.conn.trace = written w₀.conn.trace++w₀.conn.outputBuffer++x.outBuf := by
  have hkeep : ∀ labels : List Label, (∀ l ∈ labels, Serving l) → ∀ u v, Served u →
      Run (step (some s)) u labels v → Served v := by
    intro labels hl u v hu hrun
    exact hrun.invariant_along (C:=fun _ l => Serving l) (fun _ _ _ hI hC hstep => step_served hC hI hstep)
      (.of_labels hl) hu
  have hserved : w₀.Served := hkeep before (fun l hl => hserving l (List.mem_append_left _ hl)) _ _
    (established_served highWaterMarkCallback highWaterMark writeCompleteCallback) hbefore
  have hlabels : Along (step (some s)) (fun _ l => Serving l) w₀ behind :=
    .of_labels fun l hl => hserving l (List.mem_append_right _ hl)
  have hend : w.Served ∧
      Delivering s (written w₀.conn.trace++w₀.conn.outputBuffer++x.outBuf) w := by
    refine hbehind.invariant_along (I:=fun w => w.Served ∧
      Delivering s (written w₀.conn.trace++w₀.conn.outputBuffer++x.outBuf) w)
      (C:=fun w l => Serving l ∧ w.Prompt l) ?_ (hlabels.and hprompt) ⟨hserved,.answers x hx rfl⟩
    intro u l v hI hC hstep
    exact ⟨step_served hC.1 hI.1 hstep,step_delivering hC.1 hC.2 hI.1 hI.2 hstep⟩
  cases hend.2 with
  | answers y hy => simp [hy.state] at hclosed
  | sends out ts htodo hstate => simp [hstate] at hclosed
  | closes ts htodo hstate => simp [hstate] at hclosed
  | closing hstate hbytes hrest =>
    have hempty : w.conn.outputBuffer = [] := hrest.resolve_right (by simp [hclosed])
    rw [hempty,List.append_nil] at hbytes
    exact ⟨hempty,hbytes⟩

/-- A server without callbacks; a request that is not well formed gets 400. -/
def plainServer : HttpServer := ⟨[],fun _ => ⟨id,[]⟩⟩

/-- Up to the message callback of a malformed request line. -/
def malformed : List Label :=
  [.loop {},.loop {},.loop { active := [.conn Channel.POLLIN] },.loop {},
    .loop { read := .received [0x78,0x0d,0x0a] }]

/-- `::write` is given the answer in the second step, and the last step is the functor of
`forceClose`. -/
def answerThenClose (r : WriteResult) : List Label :=
  [.loop {},.loop { write := r },.loop {},.loop {},.loop {},.loop {}]

/-- What `onMessage` ends with there. -/
def refused : HttpServer.Exchange :=
  ⟨HttpContext.fresh,[0x78,0x0d,0x0a],HttpServer.badRequest,HttpResponse.empty,true,[]⟩

theorem malformed_answers : ∃ w₀, exec (step (some plainServer)) (established none 64 none) malformed = some w₀ ∧
    Answers plainServer w₀ refused := by
  obtain ⟨w₀,hw₀⟩ : ∃ w₀, exec (step (some plainServer)) (established none 64 none) malformed = some w₀ :=
    Option.isSome_iff_exists.mp (by decide +kernel)
  have hfields : (exec (step (some plainServer)) (established none 64 none) malformed).map
      (fun w => (w.conn.state,w.todo,w.conn.context,w.conn.inputBuffer,w.conn.answered)) =
      some (.kConnected,[.messageCallback],some HttpContext.fresh,[0x78,0x0d,0x0a],0) := by decide +kernel
  rw [hw₀] at hfields
  obtain ⟨hstate,htodo,hcontext,hbuf,hanswered⟩ : w₀.conn.state = .kConnected ∧ w₀.todo = [.messageCallback] ∧
      w₀.conn.context = some HttpContext.fresh ∧ w₀.conn.inputBuffer = [0x78,0x0d,0x0a] ∧ w₀.conn.answered = 0 := by
    simpa using hfields
  refine ⟨w₀,hw₀,hstate,⟨[],htodo⟩,⟨HttpContext.fresh,hcontext,?_⟩,rfl⟩
  rw [hbuf,hanswered]
  decide +kernel

instance (l : Label) : Decidable (Serving l) :=
  match l with
  | .loop _ => inferInstanceAs (Decidable (_ ∧ _ ∧ (∀ _, _ → ¬ _) ∧ _))
  | .call _ a => inferInstanceAs (Decidable (a = .connectDestroyed ∨ a = .queueInLoop))
  | .advance _ => isTrue trivial

/-- The kernel takes the whole 400 answer. -/
theorem answer_delivered_refused :
    ∃ w₀ w, Answers plainServer w₀ refused ∧
      Run (step (some plainServer)) w₀ (answerThenClose (.wrote 28)) w ∧ w.conn.state = .kDisconnected ∧
      w.conn.outputBuffer = [] ∧
      written w.conn.trace = written w₀.conn.trace++w₀.conn.outputBuffer++HttpServer.badRequest := by
  obtain ⟨w₀,hw₀,hx⟩ := malformed_answers
  have hend : ((exec (step (some plainServer)) (established none 64 none) malformed).bind fun w₀ =>
      exec (step (some plainServer)) w₀ (answerThenClose (.wrote 28))).map (·.conn.state) =
      some .kDisconnected := by decide +kernel
  have hprompt : ∀ w₀ ∈ exec (step (some plainServer)) (established none 64 none) malformed,
      Along (step (some plainServer)) Prompt w₀ (answerThenClose (.wrote 28)) := by decide +kernel
  rw [hw₀,Option.bind_some] at hend
  obtain ⟨w,hw,hclosed⟩ := Option.map_eq_some_iff.mp hend
  have hrun := (run_iff_exec _ _ _ _).mpr hw
  exact ⟨w₀,w,hx,hrun,hclosed,answer_delivered plainServer none 64 none ((run_iff_exec _ _ _ _).mpr hw₀) hx
    hrun (by decide) (hprompt w₀ hw₀) hclosed⟩

/-- The kernel takes one byte of the 400 answer; the functor of `forceClose` disconnects
over the other bytes. -/
theorem answer_not_delivered :
    ¬ ∀ (s : HttpServer) (highWaterMarkCallback : Option HighWaterMarkCallback) (highWaterMark : ℕ)
      (writeCompleteCallback : Option WriteCompleteCallback) (before behind : List Label) (w₀ w : World)
      (x : HttpServer.Exchange),
      Run (step (some s)) (established highWaterMarkCallback highWaterMark writeCompleteCallback) before w₀ →
      Answers s w₀ x → Run (step (some s)) w₀ behind w → (∀ l ∈ before++behind, Serving l) →
      w.conn.state = .kDisconnected → w.conn.outputBuffer = [] := by
  intro h
  obtain ⟨w₀,hw₀,hx⟩ := malformed_answers
  have hend : ((exec (step (some plainServer)) (established none 64 none) malformed).bind fun w₀ =>
      exec (step (some plainServer)) w₀ (answerThenClose (.wrote 1))).map
      (fun w => (w.conn.state,w.conn.outputBuffer)) =
      some (.kDisconnected,HttpServer.badRequest.drop 1) := by decide +kernel
  rw [hw₀,Option.bind_some] at hend
  obtain ⟨w,hw,hfields⟩ := Option.map_eq_some_iff.mp hend
  obtain ⟨hclosed,hbuffer⟩ := Prod.ext_iff.mp hfields
  have hempty := h plainServer none 64 none _ _ w₀ w refused ((run_iff_exec _ _ _ _).mpr hw₀) hx
    ((run_iff_exec _ _ _ _).mpr hw) (by decide) hclosed
  have hne : HttpServer.badRequest.drop 1 ≠ [] := by decide +kernel
  exact hne (hbuffer.symm.trans hempty)

end World
end GgLib
