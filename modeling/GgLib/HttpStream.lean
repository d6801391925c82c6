import GgLib.HttpAnswers
import GgLib.HttpDelivery
import GgLib.HttpConversation

/-! A connection of an `HttpServer` over its loop thread as a function from the bytes that arrive to the bytes that
are written: how the reads, the writes, the functors and a close of the peer fall does not change the stream. -/
namespace GgLib

open LabelledSystem TcpConnection ByteQueue

namespace HttpServer

variable (server : HttpServer)

/-- A message callback that returns has read no header line with a blank value. -/
theorem filled_of_serveLoop {answered n : ℕ} {c : HttpContext} (hc : c.Reading) {buf outBuf : ByteQueue}
    {done : List HttpRequest} (hn : buf.length+1 < n) (as : List Answer) {y : Exchange}
    (h : server.serveLoop answered n ⟨c,buf,outBuf,.empty,false,done⟩ = some (.ok y)) :
    Progress.Filled server ⟨c,as,false⟩ (lines buf) := by
  induction buf using lineDecoder.induction_on generalizing n c outBuf done as with
  | hnone buf hnext =>
    rw [lines_none hnext]
    trivial
  | hsome buf line rest hnext ih =>
    have hlt := lineDecoder.shorter _ _ _ hnext
    obtain ⟨n,rfl⟩ : ∃ m, n = m+2 := ⟨n-2,by omega⟩
    rw [lines_some hnext]
    cases ht : HttpContext.takeLine server.checkHeader c line with
    | error e =>
      have hp := HttpContext.parseRequest_line server.checkHeader hc hnext
      rw [ht] at hp
      rw [serveLoop] at h
      simp [hp] at h
    | ok o =>
      have hblank : c.state = .kExpectHeaders → StringView.COLON ∈ line → HttpContext.blankValue line = false := by
        intro hstate hcolon
        rcases HttpContext.takeLine_headers server.checkHeader hstate line with ⟨hnot,-⟩ | ⟨-,-,hd⟩ | ⟨-,hb,-⟩
        · exact absurd hcolon hnot
        · cases hd.symm.trans ht
        · exact hb
      refine ⟨fun _ => hblank,?_⟩
      rw [serveLoop_line server hc hnext ht] at h
      cases o with
      | more c' =>
        rw [Progress.read_more server as ht]
        exact ih (.inr (HttpContext.takeLine_more server.checkHeader hc ht)) (by omega) _ h
      | ended c' =>
        rw [Progress.read_ended server as ht]
        by_cases hclose : (server.answer (some c'.request)).closes = true
        · exact Progress.filled_closed server hclose _
        · have hopen : (server.answer (some c'.request)).closes = false := by simpa using hclose
          have hresponse : (server.onRequest c'.request .empty).closeConnection = false := hopen
          rw [hopen]
          simp only [hresponse] at h
          exact ih (.inl rfl) (by omega) _ h
      | refused c' =>
        rw [Progress.read_refused server as ht]
        exact Progress.filled_closed server rfl _

def progress (stream : List Byte) : Progress := (lines stream).foldl (Progress.read server) .start

def reply (stream : List Byte) : List Byte := Answer.bytesFrom server.rendering 0 (server.answers stream)

def handled (stream : List Byte) : List HttpRequest := (server.answers stream).filterMap Answer.request

theorem progress_answers (stream : List Byte) : (server.progress stream).answers = server.answers stream :=
  Progress.foldl_answers server .fresh [] _

theorem progress_nil : server.progress [] = .start := by
  rw [progress,lines_none (q:=[]) rfl]
  rfl

theorem progress_append (stream chunk : List Byte) :
    server.progress (stream++chunk) =
      (lines ((lineDecoder.frames stream).2++chunk)).foldl (Progress.read server) (server.progress stream) := by
  rw [progress,progress,← List.foldl_append,lines,lineDecoder.frames_append]
  rfl

theorem progress_reading {stream : List Byte} (h : (server.progress stream).closed = false) :
    (server.progress stream).context.Reading :=
  Progress.reading_foldl server (p:=.start) (fun _ => .inl rfl) _ h

theorem Progress.read_grows (p : Progress) (l : List Byte) : p.answers <+: (p.read server l).answers := by
  rw [Progress.read]
  split
  · exact List.prefix_rfl
  · split
    · exact List.prefix_rfl
    · exact List.prefix_append _ _
    · exact List.prefix_append _ _
    · exact List.prefix_rfl

theorem Progress.foldl_grows (p : Progress) (ls : List (List Byte)) :
    p.answers <+: (ls.foldl (Progress.read server) p).answers := by
  induction ls generalizing p with
  | nil => exact List.prefix_rfl
  | cons l ls ih => exact (Progress.read_grows server p l).trans (ih _)

theorem answers_append (stream chunk : List Byte) : server.answers stream <+: server.answers (stream++chunk) := by
  rw [← progress_answers,← progress_answers,progress_append]
  exact Progress.foldl_grows server _ _

theorem reply_append (stream chunk : List Byte) : server.reply stream <+: server.reply (stream++chunk) := by
  obtain ⟨answers,hanswers⟩ := server.answers_append stream chunk
  rw [reply,reply,← hanswers,Answer.bytesFrom_append]
  exact List.prefix_append _ _

/-- Behind an answer that closes, or a line at which the parser throws, nothing is answered. -/
theorem reply_closed {stream : List Byte} (h : (server.progress stream).closed = true) (chunk : List Byte) :
    server.progress (stream++chunk) = server.progress stream ∧ server.reply (stream++chunk) = server.reply stream := by
  have hsame : server.progress (stream++chunk) = server.progress stream := by
    rw [progress_append,Progress.foldl_closed server h]
  refine ⟨hsame,?_⟩
  rw [reply,reply,← progress_answers,← progress_answers,hsame]

theorem Progress.read_open {p : Progress} {l : List Byte} (h : (p.read server l).closed = false) :
    p.closed = false ∧ ∀ a ∈ (p.read server l).answers, a ∈ p.answers ∨ a.closes = false := by
  rcases p with ⟨c,as,closed⟩
  cases closed with
  | true =>
    rw [Progress.read_closed server rfl] at h
    cases h
  | false =>
    refine ⟨rfl,fun a ha => ?_⟩
    cases ht : HttpContext.takeLine server.checkHeader c l with
    | error e =>
      rw [Progress.read_error server as ht] at h
      cases h
    | ok o =>
      cases o with
      | more c' =>
        rw [Progress.read_more server as ht] at ha
        exact .inl ha
      | ended c' =>
        rw [Progress.read_ended server as ht] at h ha
        rcases List.mem_append.mp ha with ha | ha
        · exact .inl ha
        · rw [List.mem_singleton.mp ha]
          exact .inr h
      | refused c' =>
        rw [Progress.read_refused server as ht] at h
        cases h

theorem Progress.foldl_open {p : Progress} {ls : List (List Byte)}
    (h : (ls.foldl (Progress.read server) p).closed = false) :
    p.closed = false ∧ ∀ a ∈ (ls.foldl (Progress.read server) p).answers, a ∈ p.answers ∨ a.closes = false := by
  induction ls generalizing p with
  | nil => exact ⟨h,fun _ => .inl⟩
  | cons l ls ih =>
    obtain ⟨hopen,hrest⟩ := ih h
    obtain ⟨hclosed,hline⟩ := Progress.read_open server hopen
    exact ⟨hclosed,fun a ha => (hrest a ha).elim (hline a) .inr⟩

theorem progress_open {stream : List Byte} (h : (server.progress stream).closed = false) :
    ∀ a ∈ (server.progress stream).answers, a.closes = false :=
  fun a ha => ((Progress.foldl_open server (p:=.start) h).2 a ha).resolve_left List.not_mem_nil

theorem onMessage_progress {stream chunk : List Byte} (hopen : (server.progress stream).closed = false) {x : Exchange}
    (h : server.onMessage (server.handled stream).length (server.progress stream).context
      ((lineDecoder.frames stream).2++chunk) = some (.ok x)) :
    server.reply stream++x.outBuf = server.reply (stream++chunk) ∧
      server.handled stream++x.handled = server.handled (stream++chunk) ∧
      x.needClose = (server.progress (stream++chunk)).closed ∧ (server.progress (stream++chunk)).ClosedByAnswer ∧
      (x.needClose = false → x.context = (server.progress (stream++chunk)).context ∧
        x.buf = (lineDecoder.frames (stream++chunk)).2) := by
  have hreading := server.progress_reading hopen
  have hstart : server.progress stream = ⟨(server.progress stream).context,server.answers stream,false⟩ := by
    rw [← progress_answers,← hopen]
  have hfilled := server.filled_of_serveLoop hreading (Nat.lt_succ_self _) (server.answers stream) h
  have hsent : server.reply stream++[] = Answer.bytesFrom server.rendering 0 (server.answers stream) :=
    List.append_nil _
  obtain ⟨y,hy,htracks,hrest⟩ := serveLoop_lines server hreading (Nat.lt_succ_self _) hsent
    (List.append_nil _ : server.handled stream++[] = _) hfilled
  have heq : x = y := Except.ok.inj (Option.some.inj (h.symm.trans hy))
  subst heq
  rw [← hstart] at hfilled
  have hstream : (server.progress stream).ClosedByAnswer := by
    rw [Progress.ClosedByAnswer,hopen,eq_comm,List.any_eq_false]
    exact fun a ha => Bool.eq_false_iff.mp (server.progress_open hopen a ha)
  have hclosed := Progress.foldl_closedByAnswer server (fun _ => hreading) hfilled hstream
  rw [← progress_append] at hclosed
  rw [← hstart,← progress_append] at htracks
  refine ⟨?_,?_,htracks.needClose,hclosed,fun hnot => ⟨htracks.context,?_⟩⟩
  · rw [htracks.sent,progress_answers]
    rfl
  · rw [htracks.handled,progress_answers]
    rfl
  · rw [hrest hnot,lineDecoder.frames_append stream chunk]

end HttpServer

namespace TcpConnection

/-- What is written and what is still to be written. -/
def output (c : TcpConnection) : List Byte := written c.trace++c.outputBuffer

/-- Tasks that are no step of `onConnection` or `onMessage`. -/
def Task.calm : Task → Bool
  | .messageCallback => false
  | .connectionCallback => false
  | .call _ => false
  | _ => true

/-- Nothing but the server calls the connection, apart from a close of the peer. -/
def Task.owned (t : Task) : Prop := t = .callback .close ∨ t.served = true

/-- What of the connection `onMessage` looks at, and what was sent. -/
structure Untouched (c c' : TcpConnection) : Prop where
  state : c'.state = c.state
  context : c'.context = c.context
  answered : c'.answered = c.answered
  inputBuffer : c'.inputBuffer = c.inputBuffer
  output : c'.output = c.output

theorem Untouched.same {c c' : TcpConnection} (hstate : c'.state = c.state) (hcontext : c'.context = c.context)
    (hanswered : c'.answered = c.answered) (hinput : c'.inputBuffer = c.inputBuffer)
    (houtput : c'.outputBuffer = c.outputBuffer) (hwritten : written c'.trace = written c.trace) : Untouched c c' :=
  ⟨hstate,hcontext,hanswered,hinput,by rw [TcpConnection.output,TcpConnection.output,houtput,hwritten]⟩

theorem Task.owned.not_delays {t : Task} (h : t.owned) : ¬ t.delays := by
  rcases h with rfl | h
  · exact id
  · exact Task.not_delays h

section calm

variable {server : Option HttpServer} {c : TcpConnection} {e : Choice} {t : Task} {p : TcpConnection × List Task}

theorem run_input (h : c.run server e t = some p) (hinput : ∀ buf, ¬ t.may c e (.setInput buf))
    (hcontext : ∀ context answered, ¬ t.may c e (.setContext context answered)) :
    p.1.context = c.context ∧ p.1.answered = c.answered ∧ p.1.inputBuffer = c.inputBuffer := by
  refine (run_edited h).induct
    (I:=fun c' => c'.context = c.context ∧ c'.answered = c.answered ∧ c'.inputBuffer = c.inputBuffer) ⟨rfl,rfl,rfl⟩
    fun c' d hd hc' => ?_
  cases d with
  | setInput buf => exact absurd hd (hinput buf)
  | setContext context answered => exact absurd hd (hcontext context answered)
  | _ => exact hc'

theorem run_output (h : c.run server e t = some p) (ht : t.calm = true) (howned : t.owned) :
    p.1.output = c.output := by
  have hsends : ¬ (t.moves c = true ∧ t ≠ .callback .write) := by
    rintro ⟨hmoves,hne⟩
    cases t with
    | callback cb => cases cb <;> first | exact hne rfl | cases hmoves
    | functor f =>
      cases f with
      | sendInLoop thread message => rcases howned with howned | howned <;> cases howned
      | _ => cases hmoves
    | call a => cases ht
    | _ => cases hmoves
  refine (run_edited h).induct (I:=fun c' => c'.output = c.output) rfl fun c' d hd hc' => ?_
  have hrecord : ∀ ev, written [ev] = [] → (c'.record ev).output = c.output := fun ev hev => by
    rw [output,record,written_append,hev,List.append_nil]
    exact hc'
  cases d with
  | record ev =>
    refine hrecord ev ?_
    cases ev with
    | wrote bytes => cases hd.1
    | _ => rfl
  | updateChannel channel => exact hrecord (.update channel.events) rfl
  | write bytes => exact absurd hd hsends
  | buffer rest => exact absurd hd hsends
  | retrieveWritten n =>
    rw [← hc']
    simp [Edit.apply,output,retrieveWritten,ByteQueue.dropFront]
  | _ => exact hc'

theorem run_untouched (h : c.run server e t = some p) (ht : t.calm = true) (howned : t.owned)
    (htimers : c.timers = []) (hcloses : ¬ t.closes c e) (hreads : ¬ t.reads e) : Untouched c p.1 := by
  obtain ⟨hcontext,hanswered,hinput⟩ := run_input h
    (fun _ hd => by
      rcases hd with hd | rfl | ⟨n,rfl⟩
      · exact hreads hd
      · cases ht
      · cases ht)
    (fun _ _ hd => by rcases hd with rfl | rfl <;> cases ht)
  refine ⟨?_,hcontext,hanswered,hinput,run_output h ht howned⟩
  rcases run_open h hcloses with hsame | ⟨-,hs⟩
  · exact hsame
  rcases run_sets h with hsame | hsets
  · exact hsame
  rw [hs] at hsets
  obtain ⟨-,⟨a,rfl⟩ | ⟨i,rfl,hi⟩⟩ := hsets
  · cases ht
  · simp [htimers] at hi

/-- A task that is no step of the server leaves what it looks at, reads a chunk, or closes. -/
theorem run_calm (h : c.run server e t = some p) (ht : t.calm = true) (howned : t.owned) (hacts : e.acts = [])
    (htimers : c.timers = []) :
    (Untouched c p.1 ∧ (∀ t' ∈ p.2, t'.calm = true) ∧ (t = .callback .read → e.read = .failed)) ∨
      (t = .callback .read ∧ ∃ chunk, e.read = .received chunk ∧ chunk ≠ [] ∧
        p = (({ c with inputBuffer := c.inputBuffer.pushBack chunk } : TcpConnection).record .messageCallback,
          [.messageCallback])) ∨
      (p.1.state = .kDisconnected ∧ p.1.output = c.output ∧ (t = .callback .read → e.read = .received [])) := by
  by_cases hcloses : t.closes c e
  · refine .inr (.inr ⟨(run_reported h hcloses).1,run_output h ht howned,?_⟩)
    rintro rfl
    rcases hcloses with hnow | ⟨hdestroys,-⟩
    · exact hnow
    · cases hdestroys
  by_cases hreads : t.reads e
  · obtain ⟨rfl,chunk,hne,hread⟩ := hreads
    refine .inr (.inl ⟨rfl,chunk,hread,hne,?_⟩)
    cases h
    rw [hread]
    cases chunk with
    | nil => exact absurd rfl hne
    | cons x xs => rfl
  · refine .inl ⟨run_untouched h ht howned htimers hcloses hreads,fun t' ht' => ?_,?_⟩
    · have hleads := run_leadsTo h t' ht'
      cases t' with
      | messageCallback => exact absurd hleads hreads
      | connectionCallback => exact absurd hleads hcloses
      | call a =>
        rcases hleads with ha | ⟨rfl,-⟩
        · simp [hacts] at ha
        · cases ht
      | _ => rfl
    · rintro rfl
      rcases hr : e.read with ⟨_ | ⟨x,xs⟩⟩ | _
      · exact absurd (.inl hr) hcloses
      · exact absurd ⟨rfl,x::xs,List.cons_ne_nil x xs,hr⟩ hreads
      · rfl

end calm

end TcpConnection

/-- `received` are the bytes that `readFd` has stored. -/
structure HttpStream where
  world : World
  received : List Byte

namespace HttpStream

variable (server : HttpServer)

def established (highWaterMarkCallback : Option HighWaterMarkCallback) (highWaterMark : ℕ)
    (writeCompleteCallback : Option WriteCompleteCallback) : HttpStream :=
  ⟨.established highWaterMarkCallback highWaterMark writeCompleteCallback,[]⟩

/-- What a step reads. -/
def arrived (w : World) (l : Label) : List Byte :=
  match l,w.todo with
  | .loop e,.callback .read::_ =>
    match e.read with
    | .received bytes => bytes
    | .failed => []
  | _,_ => []

def step (h : HttpStream) (l : Label) : Option HttpStream :=
  (World.step (some server) h.world l).map fun world => ⟨world,h.received++arrived h.world l⟩

/-- Nobody but the server, the loop and the `TcpServer` calls the connection, and no `::write` fails with `EPIPE` or
`ECONNRESET`. -/
def ServerOnly : Label → Prop
  | .loop e => e.acts = [] ∧ ∀ errno, e.write = .failed errno → ¬ errno.isFault
  | .call _ a => a = .connectDestroyed ∨ a = .queueInLoop
  | .advance _ => True

/-- What is queued and what runs belongs to the server. -/
structure Owned (w : World) : Prop where
  swapped : w.Swapped
  timers : w.conn.timers = []
  queue : ∀ f ∈ w.queue, f.served = true
  todo : ∀ t ∈ w.todo, t.owned
  threads : ∀ t, w.threads t = .idle ∨ ∃ f, w.threads t = .pushing f ∧ f.served = true

variable {server} {h h' : HttpStream} {w w' : World}

theorem established_owned (highWaterMarkCallback : Option HighWaterMarkCallback) (highWaterMark : ℕ)
    (writeCompleteCallback : Option WriteCompleteCallback) :
    Owned (.established highWaterMarkCallback highWaterMark writeCompleteCallback) := by
  have hserved := World.established_served highWaterMarkCallback highWaterMark writeCompleteCallback
  exact ⟨hserved.swapped,hserved.timers,hserved.queue,fun t ht => .inr (hserved.todo t ht),hserved.threads⟩

theorem Owned.run {e : Choice} {t : Task} {ts : List Task} {p : TcpConnection × List Task} (hw : Owned w)
    (hacts : e.acts = []) (htodo : w.todo = t::ts) (h : w.conn.run (some server) e t = some p) :
    Owned { w with conn := p.1, todo := p.2++ts } := by
  have ht := hw.todo t (by rw [htodo]; exact .head _)
  have hserves := run_serves h ht.not_delays hw.timers
  refine ⟨hw.swapped,hserves.timers.trans hw.timers,?_,?_,hw.threads⟩
  · rw [World.queue_run h]
    intro f hf
    rcases List.mem_append.mp hf with hf | hf
    · refine hw.queue f ?_
      rw [World.queue,htodo,← List.singleton_append (l:=ts),functorsIn_append]
      simp only [List.mem_append] at hf ⊢
      rcases hf with hf | hf
      · exact .inl (.inl (.inr hf))
      · exact .inl (.inr hf)
    · rcases hserves.pending f hf with hf | hf
      · exact hw.queue f (List.mem_append_right _ hf)
      · exact hf
  · intro t' ht'
    rcases List.mem_append.mp ht' with ht' | ht'
    · exact .inr ((run_follows h t' ht').served hacts)
    · exact hw.todo t' (by rw [htodo]; exact .tail _ ht')

theorem turn_calm {e : Choice} (h : w.turn e = some w') (htodo : w.todo = [])
    (hqueue : ∀ f ∈ w.queue, f.served = true) : ∀ t ∈ w'.todo, t.calm = true ∧ t.owned := by
  intro t ht
  rcases (World.turn_todo h htodo).1 with htodo' | ⟨a,-,htodo'⟩ | ⟨f,hf,htodo'⟩ <;> rw [htodo'] at ht
  · cases ht
  · cases a with
    | conn revents =>
      obtain ⟨cb,-,rfl⟩ := List.mem_map.mp ht
      cases cb with
      | close => exact ⟨rfl,.inl rfl⟩
      | _ => exact ⟨rfl,.inr rfl⟩
    | timer i =>
      rw [List.mem_singleton.mp ht]
      exact ⟨rfl,.inr rfl⟩
    | other =>
      rw [List.mem_singleton.mp ht]
      exact ⟨rfl,.inr rfl⟩
  · rw [List.mem_singleton.mp ht]
    exact ⟨rfl,.inr (hqueue f (by simp [World.queue,hf]))⟩

theorem Owned.turn {e : Choice} (hw : Owned w) (h : w.turn e = some w') (htodo : w.todo = []) : Owned w' := by
  obtain ⟨hconn,hthreads⟩ := World.turn_conn h
  obtain ⟨hswapped,hqueue⟩ := World.turn_queue h htodo hw.swapped
  exact ⟨hswapped,by rw [hconn]; exact hw.timers,by rw [hqueue]; exact hw.queue,
    fun t ht => (turn_calm h htodo hw.queue t ht).2,by rw [hthreads]; exact hw.threads⟩

theorem thread_queues {l : Label} (hw : Owned w) (hl : ServerOnly l) {thread : ℕ} {p : TcpConnection × Pc}
    (h : (∃ a, l = .call thread a ∧ World.threadCall w.conn thread a = some p) ∨
      (l = .advance thread ∧ World.threadAdvance w.conn (w.threads thread) = some p)) :
    ∃ fs, p.1 = { w.conn with pendingFunctors := w.conn.pendingFunctors++fs } ∧ (∀ f ∈ fs, f.served = true) ∧
      (p.2 = .idle ∨ ∃ f, p.2 = .pushing f ∧ f.served = true) := by
  rcases h with ⟨a,rfl,hp⟩ | ⟨rfl,hp⟩
  · refine ⟨[],?_,by simp,?_⟩ <;> rcases hl with rfl | rfl <;> cases hp
    · simp
    · simp
    · exact .inr ⟨_,rfl,rfl⟩
    · exact .inr ⟨_,rfl,rfl⟩
  · rcases hw.threads thread with hpc | ⟨f,hpc,hf⟩ <;> rw [hpc] at hp <;> cases hp
    exact ⟨[f],rfl,by simpa using hf,.inl rfl⟩

theorem thread_owned {l : Label} (hw : Owned w) (hl : ServerOnly l) {thread : ℕ} {p : TcpConnection × Pc}
    (h : (∃ a, l = .call thread a ∧ World.threadCall w.conn thread a = some p) ∨
      (l = .advance thread ∧ World.threadAdvance w.conn (w.threads thread) = some p)) :
    Untouched w.conn p.1 ∧ Owned { w with conn := p.1, threads := Function.update w.threads thread p.2 } := by
  obtain ⟨fs,hconn,hfs,hpc⟩ := thread_queues hw hl h
  rw [hconn]
  refine ⟨.same rfl rfl rfl rfl rfl rfl,hw.swapped,hw.timers,fun f hf => ?_,hw.todo,fun t => ?_⟩
  · simp only [World.queue,← List.append_assoc] at hf
    rcases List.mem_append.mp hf with hf | hf
    · exact hw.queue f hf
    · exact hfs f hf
  · show Function.update w.threads thread p.2 t = .idle ∨ _
    by_cases ht : t = thread
    · subst ht
      simpa using hpc
    · simpa [Function.update_of_ne ht] using hw.threads t

/-- What the server keeps of a stream, where no line closes, and what has come behind. -/
structure Keeps (server : HttpServer) (stream chunk : List Byte) (c : TcpConnection) : Prop where
  opened : (server.progress stream).closed = false
  context : c.context = some (server.progress stream).context
  answered : c.answered = (server.handled stream).length
  input : c.inputBuffer = (lineDecoder.frames stream).2++chunk

theorem Keeps.untouched {stream chunk : List Byte} {c c' : TcpConnection} (h : Keeps server stream chunk c)
    (hu : Untouched c c') : Keeps server stream chunk c' :=
  ⟨h.opened,hu.context.trans h.context,hu.answered.trans h.answered,hu.inputBuffer.trans h.input⟩

/-- How the connection stands to the bytes that were read. -/
inductive Stage (server : HttpServer) (received : List Byte) (w : World) : Prop
  | starting (state : w.conn.state = .kConnected) (todo : w.todo = [.connectionCallback]) (none : received = [])
      (answered : w.conn.answered = 0) (input : w.conn.inputBuffer = []) (output : w.conn.output = [])
  | waiting (state : w.conn.state = .kConnected) (todo : ∀ t ∈ w.todo, t.calm = true)
      (keeps : Keeps server received [] w.conn) (output : w.conn.output = server.reply received)
  | reading (before chunk : List Byte) (ts : List Task) (split : received = before++chunk)
      (state : w.conn.state = .kConnected) (todo : w.todo = .messageCallback::ts) (calm : ∀ t ∈ ts, t.calm = true)
      (keeps : Keeps server before chunk w.conn) (output : w.conn.output = server.reply before)
  | sending (out : List Byte) (ts : List Task) (state : w.conn.state = .kConnected)
      (todo : w.todo = .call (.send out)::((if (server.progress received).closed then [.call .forceClose] else [])++ts))
      (calm : ∀ t ∈ ts, t.calm = true)
      (byAnswer : (server.progress received).ClosedByAnswer)
      (rest : (server.progress received).closed = false → Keeps server received [] w.conn)
      (output : w.conn.output++out = server.reply received)
  | closing (ts : List Task) (state : w.conn.state = .kConnected) (todo : w.todo = .call .forceClose::ts)
      (closed : (server.progress received).closed = true) (byAnswer : (server.progress received).ClosedByAnswer)
      (output : w.conn.output = server.reply received)
  | closed (state : w.conn.state = .kDisconnecting) (closed : (server.progress received).closed = true)
      (byAnswer : (server.progress received).ClosedByAnswer) (output : w.conn.output = server.reply received)
  | disconnected (state : w.conn.state = .kDisconnected) (output : w.conn.output <+: server.reply received)

theorem reply_nil (server : HttpServer) : server.reply [] = [] := by
  rw [HttpServer.reply,← HttpServer.progress_answers,HttpServer.progress_nil]
  rfl

theorem established_stage (highWaterMarkCallback : Option HighWaterMarkCallback) (highWaterMark : ℕ)
    (writeCompleteCallback : Option WriteCompleteCallback) :
    Stage server [] (.established highWaterMarkCallback highWaterMark writeCompleteCallback) :=
  .starting rfl rfl rfl rfl rfl rfl

theorem arrived_task {e : Choice} {t : Task} {ts : List Task} (htodo : w.todo = t::ts) (ht : t ≠ .callback .read) :
    arrived w (.loop e) = [] := by
  unfold arrived
  split
  · rename_i heq
    rw [htodo] at heq
    cases heq
    exact absurd rfl ht
  · rfl

theorem arrived_read {e : Choice} {ts : List Task} (htodo : w.todo = .callback .read::ts) :
    arrived w (.loop e) = match e.read with | .received bytes => bytes | .failed => [] := by
  simp only [arrived,htodo]

theorem arrived_nothing {e : Choice} {t : Task} {ts : List Task} (htodo : w.todo = t::ts)
    (h : t = .callback .read → e.read = .failed ∨ e.read = .received []) : arrived w (.loop e) = [] := by
  by_cases ht : t = .callback .read
  · subst ht
    rcases h rfl with hread | hread <;> rw [arrived_read htodo,hread]
  · exact arrived_task htodo ht

theorem output_kept {c c' : TcpConnection} (h : Kept c c') : c'.output = c.output := by
  rw [TcpConnection.output,TcpConnection.output,h.written,h.outputBuffer]

theorem Stage.calm {received : List Byte} {e : Choice} {t : Task} {ts : List Task} {p : TcpConnection × List Task}
    (hw : Owned w) (hacts : e.acts = []) (htodo : w.todo = t::ts) (h : w.conn.run (some server) e t = some p)
    (state : w.conn.state = .kConnected) (todo : ∀ t ∈ w.todo, t.calm = true)
    (keeps : Keeps server received [] w.conn) (output : w.conn.output = server.reply received) :
    Stage server (received++arrived w (.loop e)) { w with conn := p.1, todo := p.2++ts } := by
  rw [htodo] at todo
  have ht := hw.todo t (by rw [htodo]; exact .head _)
  have hts : ∀ t' ∈ ts, t'.calm = true := fun t' ht' => todo t' (.tail _ ht')
  rcases run_calm h (todo t (.head _)) ht hacts hw.timers with ⟨hu,hcalm,hread⟩ | ⟨rfl,chunk,hread,-,rfl⟩ |
    ⟨hstate,hout,hread⟩
  · rw [arrived_nothing htodo fun ht => .inl (hread ht),List.append_nil]
    refine .waiting (hu.state.trans state) (fun t' ht' => ?_) (keeps.untouched hu) (hu.output.trans output)
    exact (List.mem_append.mp ht').elim (hcalm t') (hts t')
  · rw [arrived_read htodo,hread]
    refine .reading received chunk ts rfl state rfl hts ⟨keeps.opened,keeps.context,keeps.answered,?_⟩ ?_
    · show w.conn.inputBuffer.pushBack chunk = _
      rw [keeps.input,List.append_nil]
      rfl
    · exact (output_kept (.record _ ⟨rfl,rfl,rfl⟩)).trans output
  · rw [arrived_nothing htodo fun ht => .inr (hread ht),List.append_nil]
    exact .disconnected hstate (hout.trans output ▸ List.prefix_rfl)

/-- A task of a connection that is closed. -/
theorem Stage.ended {received : List Byte} {e : Choice} {t : Task} {ts : List Task} {p : TcpConnection × List Task}
    (hw : Owned w) (htodo : w.todo = t::ts) (h : w.conn.run (some server) e t = some p)
    (hstate : w.conn.state ≠ .kConnected) (chunk : List Byte)
    (hstage : Stage server received w) : Stage server (received++chunk) { w with conn := p.1, todo := p.2++ts } := by
  have ht := hw.todo t (by rw [htodo]; exact .head _)
  obtain ⟨hout,hnow⟩ : p.1.output = w.conn.output ∧ (p.1.state = w.conn.state ∨ p.1.state = .kDisconnected ∨
      w.conn.state ≠ .kDisconnected ∧ p.1.state = .kDisconnecting) := by
    rcases run_stream h with ⟨-,hq | ⟨hshut,-⟩⟩ | ⟨thread,message,rfl,-⟩ | ⟨message,-,hs,-⟩ | ⟨-,he⟩
    · exact ⟨output_kept hq.toKept,hq.state.imp_right .inr⟩
    · exact ⟨output_kept hshut.toKept,.inr (.inl hshut.state)⟩
    · rcases ht with ht | ht <;> cases ht
    · exact absurd hs hstate
    · have hbytes := (handleWrite_grows w.conn e.write).bytes
      rw [List.flatMap_nil,List.append_nil] at hbytes
      rw [he]
      exact ⟨hbytes,.inl (handleWrite_state w.conn e.write)⟩
  cases hstage with
  | closed state closed byAnswer output =>
    obtain ⟨hprogress,hreply⟩ := server.reply_closed closed chunk
    have hdisconnecting : p.1.state = .kDisconnecting →
        Stage server (received++chunk) { w with conn := p.1, todo := p.2++ts } := by
      refine fun hnow => .closed hnow ?_ ?_ ?_
      · rw [hprogress]
        exact closed
      · rw [hprogress]
        exact byAnswer
      · rw [hreply,← output]
        exact hout
    rcases hnow with hnow | hnow | ⟨-,hnow⟩
    · exact hdisconnecting (hnow.trans state)
    · exact .disconnected hnow (by rw [hreply,← output]; exact hout ▸ List.prefix_rfl)
    · exact hdisconnecting hnow
  | disconnected state output =>
    have hstays : p.1.state = .kDisconnected := by
      rcases hnow with hnow | hnow | ⟨hlive,-⟩
      · exact hnow.trans state
      · exact hnow
      · exact absurd state hlive
    refine .disconnected hstays ?_
    show p.1.output <+: _
    rw [hout]
    exact output.trans (server.reply_append received chunk)
  | starting state => exact absurd state hstate
  | waiting state => exact absurd state hstate
  | reading _ _ _ _ state => exact absurd state hstate
  | sending _ _ state => exact absurd state hstate
  | closing _ state => exact absurd state hstate

theorem Stage.message {before chunk : List Byte} {e : Choice} {ts : List Task} {p : TcpConnection × List Task}
    (h : w.conn.run (some server) e .messageCallback = some p) (state : w.conn.state = .kConnected)
    (calm : ∀ t ∈ ts, t.calm = true) (keeps : Keeps server before chunk w.conn)
    (output : w.conn.output = server.reply before) :
    Stage server (before++chunk) { w with conn := p.1, todo := p.2++ts } := by
  have hcallback : runMessageCallback (some server) w.conn e = some p := h
  rcases runMessageCallback_cases hcallback with ⟨hnone,-⟩ | ⟨s,c,x,hs,hcontext,hx,rfl⟩
  · cases hnone
  · cases hs
    rw [keeps.context] at hcontext
    cases hcontext
    rw [keeps.input,keeps.answered] at hx
    obtain ⟨hreply,hhandled,hclose,hanswer,hrest⟩ := server.onMessage_progress keeps.opened hx
    refine .sending x.outBuf ts state ?_ calm hanswer (fun hopen => ?_) ?_
    · rw [← hclose]
      rfl
    · obtain ⟨hcontext,hbuf⟩ := hrest (hclose.trans hopen)
      refine ⟨hopen,congrArg some hcontext,?_,hbuf.trans (List.append_nil _).symm⟩
      show w.conn.answered+x.handled.length = _
      rw [keeps.answered,← hhandled,List.length_append]
    · rw [← hreply,← output]
      rfl

theorem Stage.send {received : List Byte} {e : Choice} {out : List Byte} {ts : List Task}
    (hfault : ∀ errno, e.write = .failed errno → ¬ errno.isFault) (state : w.conn.state = .kConnected)
    (calm : ∀ t ∈ ts, t.calm = true) (byAnswer : (server.progress received).ClosedByAnswer)
    (rest : (server.progress received).closed = false → Keeps server received [] w.conn)
    (output : w.conn.output++out = server.reply received) :
    Stage server received { w with
      conn := (w.conn.call e.write (.send out)).1
      todo := (if (server.progress received).closed then [.call .forceClose] else [])++ts } := by
  have hlive : (w.conn.record (.accepted 0 out)).state ≠ .kDisconnected := by
    show w.conn.state ≠ .kDisconnected
    simp [state]
  have hconn : (w.conn.call e.write (.send out)).1 =
      (w.conn.record (.accepted 0 out)).sendInLoop 0 out e.write := by
    simp [call,state]
  have hstate : ((w.conn.record (.accepted 0 out)).sendInLoop 0 out e.write).state = .kConnected := by
    simp [record,state]
  obtain ⟨hcontext,hanswered,hinput⟩ := run_input
    (show TcpConnection.run none w.conn e (.call (.send out)) = some _ from rfl)
    (fun _ hd => by rcases hd with ⟨hd,-⟩ | hd | ⟨n,hd⟩ <;> cases hd)
    (fun _ _ hd => by rcases hd with hd | hd <;> cases hd)
  rw [hconn] at hcontext hanswered hinput
  have hgrows := (sendInLoop_grows hlive 0 out hfault).bytes
  have hout : ((w.conn.record (.accepted 0 out)).sendInLoop 0 out e.write).output = server.reply received := by
    rw [← output,TcpConnection.output,hgrows]
    simp [TcpConnection.output,record]
  rw [hconn]
  cases hclosed : (server.progress received).closed with
  | true => exact .closing ts hstate rfl hclosed byAnswer hout
  | false =>
    have hkeeps := rest hclosed
    exact .waiting hstate calm ⟨hclosed,hcontext.trans hkeeps.context,hanswered.trans hkeeps.answered,
      hinput.trans hkeeps.input⟩ hout

theorem Stage.run {received : List Byte} {e : Choice} {t : Task} {ts : List Task} {p : TcpConnection × List Task}
    (hw : Owned w) (hl : ServerOnly (.loop e)) (htodo : w.todo = t::ts) (h : w.conn.run (some server) e t = some p)
    (hstage : Stage server received w) :
    Stage server (received++arrived w (.loop e)) { w with conn := p.1, todo := p.2++ts } := by
  have hquiet : t ≠ .callback .read → received++arrived w (.loop e) = received := fun hne => by
    rw [arrived_task htodo hne,List.append_nil]
  cases hstage with
  | starting state todo none answered input output =>
    rw [htodo] at todo
    cases todo
    cases h
    rw [hquiet (by simp),none]
    have hconnected : runConnectionCallback (some server) w.conn e =
        (({ w.conn with context := some .fresh } : TcpConnection).setHighWaterMarkCallback
          (some .optionalHighWaterMarkCallback) (256*1024),[]) := by
      simp [runConnectionCallback,state]
    rw [hconnected]
    refine .waiting state (by simp) ⟨?_,?_,?_,?_⟩ ?_
    · rw [HttpServer.progress_nil]
      rfl
    · rw [HttpServer.progress_nil]
      rfl
    · rw [HttpServer.handled,← HttpServer.progress_answers,HttpServer.progress_nil]
      exact answered
    · show w.conn.inputBuffer = _
      rw [input,lineDecoder.frames_none rfl]
      rfl
    · rw [reply_nil]
      exact output
  | waiting state todo keeps output => exact .calm hw hl.1 htodo h state todo keeps output
  | reading before chunk ts' split state todo calm keeps output =>
    rw [htodo] at todo
    cases todo
    rw [hquiet (by simp),split]
    exact .message h state calm keeps output
  | sending out ts' state todo calm byAnswer rest output =>
    rw [htodo] at todo
    cases todo
    cases h
    rw [hquiet (by simp)]
    exact .send hl.2 state calm byAnswer rest output
  | closing ts' state todo closed byAnswer output =>
    rw [htodo] at todo
    cases todo
    have hkept := run_kept h rfl
    cases h
    rw [hquiet (by simp)]
    refine .closed ?_ closed byAnswer ((output_kept hkept).trans output)
    show w.conn.forceClose.state = _
    simp [forceClose,state,queueInLoop,setState]
  | closed state closed byAnswer output =>
    exact .ended hw htodo h (by simp [state]) _ (.closed state closed byAnswer output)
  | disconnected state output => exact .ended hw htodo h (by simp [state]) _ (.disconnected state output)

theorem Stage.untouched {received : List Byte} (hu : Untouched w.conn w'.conn) (htodo : w'.todo = w.todo)
    (h : Stage server received w) : Stage server received w' := by
  have ⟨hstate,_,hanswered,hinput,houtput⟩ := hu
  cases h with
  | starting state todo none answered input output =>
    exact .starting (hstate.trans state) (htodo.trans todo) none (hanswered.trans answered) (hinput.trans input)
      (houtput.trans output)
  | waiting state todo keeps output =>
    exact .waiting (hstate.trans state) (htodo ▸ todo) (keeps.untouched hu) (houtput.trans output)
  | reading before chunk ts split state todo calm keeps output =>
    exact .reading before chunk ts split (hstate.trans state) (htodo.trans todo) calm (keeps.untouched hu)
      (houtput.trans output)
  | sending out ts state todo calm byAnswer rest output =>
    exact .sending out ts (hstate.trans state) (htodo.trans todo) calm byAnswer
      (fun hopen => (rest hopen).untouched hu) (by rw [houtput,output])
  | closing ts state todo closed byAnswer output =>
    exact .closing ts (hstate.trans state) (htodo.trans todo) closed byAnswer (houtput.trans output)
  | closed state closed byAnswer output =>
    exact .closed (hstate.trans state) closed byAnswer (houtput.trans output)
  | disconnected state output => exact .disconnected (hstate.trans state) (by rw [houtput]; exact output)

theorem Stage.turn {received : List Byte} {e : Choice} (hw : Owned w) (h : w.turn e = some w') (htodo : w.todo = [])
    (hstage : Stage server received w) : Stage server received w' := by
  obtain ⟨hconn,-⟩ := World.turn_conn h
  have hu : Untouched w.conn w'.conn := by
    rw [hconn]
    exact .same rfl rfl rfl rfl rfl rfl
  have hcalm := turn_calm h htodo hw.queue
  cases hstage with
  | waiting state todo keeps output =>
    exact .waiting (hu.state.trans state) (fun t ht => (hcalm t ht).1) (keeps.untouched hu) (hu.output.trans output)
  | closed state closed byAnswer output =>
    exact .closed (hu.state.trans state) closed byAnswer (hu.output.trans output)
  | disconnected state output => exact .disconnected (hu.state.trans state) (by rw [hu.output]; exact output)
  | starting _ todo => simp [htodo] at todo
  | reading _ _ _ _ _ todo => simp [htodo] at todo
  | sending _ _ _ todo => simp [htodo] at todo
  | closing _ _ todo => simp [htodo] at todo

theorem Stage.thread {received : List Byte} {l : Label} (hw : Owned w) (hl : ServerOnly l) {thread : ℕ}
    {p : TcpConnection × Pc}
    (h : (∃ a, l = .call thread a ∧ World.threadCall w.conn thread a = some p) ∨
      (l = .advance thread ∧ World.threadAdvance w.conn (w.threads thread) = some p))
    (hstage : Stage server received w) :
    Owned { w with conn := p.1, threads := Function.update w.threads thread p.2 } ∧
      Stage server (received++arrived w l)
        { w with conn := p.1, threads := Function.update w.threads thread p.2 } := by
  obtain ⟨hu,howned⟩ := thread_owned hw hl h
  have harrived : arrived w l = [] := by rcases h with ⟨a,rfl,-⟩ | ⟨rfl,-⟩ <;> rfl
  rw [harrived,List.append_nil]
  exact ⟨howned,hstage.untouched hu rfl⟩

theorem step_stage {l : Label} (hl : ServerOnly l) (hw : Owned h.world) (hstage : Stage server h.received h.world)
    (hstep : step server h l = some h') : Owned h'.world ∧ Stage server h'.received h'.world := by
  obtain ⟨world,hworld,rfl⟩ := Option.map_eq_some_iff.mp hstep
  rcases World.step_cases hworld with ⟨e,t,ts,p,rfl,htodo,hp,rfl⟩ | ⟨e,rfl,htodo,ht⟩ |
    ⟨thread,a,p,rfl,-,-,hp,rfl⟩ | ⟨thread,p,rfl,hp,rfl⟩
  · exact ⟨hw.run hl.1 htodo hp,hstage.run hw hl htodo hp⟩
  · have harrived : arrived h.world (.loop e) = [] := by simp [arrived,htodo]
    rw [harrived,List.append_nil]
    exact ⟨hw.turn ht htodo,hstage.turn hw ht htodo⟩
  · exact hstage.thread hw hl (.inl ⟨a,rfl,hp⟩)
  · exact hstage.thread hw hl (.inr ⟨rfl,hp⟩)

theorem run_stage {highWaterMarkCallback : Option HighWaterMarkCallback} {highWaterMark : ℕ}
    {writeCompleteCallback : Option WriteCompleteCallback} {labels : List Label}
    (hrun : Run (step server) (established highWaterMarkCallback highWaterMark writeCompleteCallback) labels h)
    (hlabels : ∀ l ∈ labels, ServerOnly l) : Stage server h.received h.world :=
  (hrun.invariant_along (I:=fun h => Owned h.world ∧ Stage server h.received h.world) (C:=fun _ l => ServerOnly l)
    (fun _ _ _ hI hl hstep => step_stage hl hI.1 hI.2 hstep) (.of_labels hlabels)
    ⟨established_owned _ _ _,established_stage _ _ _⟩).2

theorem Stage.output_reply {received : List Byte} (hstage : Stage server received w) :
    w.conn.output <+: server.reply received := by
  cases hstage with
  | starting state todo none answered input output =>
    rw [output]
    exact List.nil_prefix
  | waiting state todo keeps output => exact output ▸ List.prefix_rfl
  | reading before chunk ts split state todo calm keeps output =>
    rw [output,split]
    exact server.reply_append before chunk
  | sending out ts state todo calm byAnswer rest output => exact ⟨out,output⟩
  | closing ts state todo closed byAnswer output => exact output ▸ List.prefix_rfl
  | closed state closed byAnswer output => exact output ▸ List.prefix_rfl
  | disconnected state output => exact output

theorem Stage.written_reply {received : List Byte} (hstage : Stage server received w) :
    written w.conn.trace <+: server.reply received :=
  List.IsPrefix.trans (List.prefix_append _ w.conn.outputBuffer) hstage.output_reply

theorem Stage.idle {received : List Byte} (hstage : Stage server received w) (hstate : w.conn.state = .kConnected)
    (htodo : w.todo = []) :
    w.conn.output = server.reply received ∧ ∀ a ∈ server.answers received, a.closes = false := by
  cases hstage with
  | starting state todo => simp [htodo] at todo
  | waiting state todo keeps output =>
    refine ⟨output,?_⟩
    rw [← HttpServer.progress_answers]
    exact server.progress_open keeps.opened
  | reading before chunk ts split state todo => simp [htodo] at todo
  | sending out ts state todo => simp [htodo] at todo
  | closing ts state todo => simp [htodo] at todo
  | closed state => simp [hstate] at state
  | disconnected state => simp [hstate] at state

theorem Stage.disconnecting {received : List Byte} (hstage : Stage server received w)
    (hstate : w.conn.state = .kDisconnecting) :
    w.conn.output = server.reply received ∧ ∃ a ∈ server.answers received, a.closes = true := by
  cases hstage with
  | closed state closed byAnswer output =>
    refine ⟨output,?_⟩
    rw [HttpServer.Progress.ClosedByAnswer,closed,eq_comm,List.any_eq_true,HttpServer.progress_answers] at byAnswer
    exact byAnswer
  | starting state | waiting state => simp [hstate] at state
  | reading _ _ _ _ state => simp [hstate] at state
  | sending _ _ state => simp [hstate] at state
  | closing _ state => simp [hstate] at state
  | disconnected state => simp [hstate] at state

/-- In every run of an `HttpServer` connection that only the server, the loop and the `TcpServer` call, with reads of
any size, `::write` taking any part but never failing for good, back-pressure and functors of other threads as they
come, and a close of the peer or `connectDestroyed` at any time: what is written is a prefix of the answers to the
bytes that were read, each response with the Date line and the order of headers of its number. While the connection
is open, between two methods, what is written and buffered are all these answers and none of them closes; and
`forceClose` was called over all of them, with one that closes. -/
theorem written_is_reply {highWaterMarkCallback : Option HighWaterMarkCallback} {highWaterMark : ℕ}
    {writeCompleteCallback : Option WriteCompleteCallback} {labels : List Label}
    (hrun : Run (step server) (established highWaterMarkCallback highWaterMark writeCompleteCallback) labels h)
    (hlabels : ∀ l ∈ labels, ServerOnly l) :
    written h.world.conn.trace <+: server.reply h.received ∧
      (h.world.conn.state = .kConnected → h.world.todo = [] →
        written h.world.conn.trace++h.world.conn.outputBuffer = server.reply h.received ∧
          ∀ a ∈ server.answers h.received, a.closes = false) ∧
      (h.world.conn.state = .kDisconnecting →
        written h.world.conn.trace++h.world.conn.outputBuffer = server.reply h.received ∧
          ∃ a ∈ server.answers h.received, a.closes = true) := by
  have hstage := run_stage hrun hlabels
  exact ⟨hstage.written_reply,hstage.idle,hstage.disconnecting⟩

instance (l : Label) : Decidable (ServerOnly l) :=
  match l with
  | .loop _ => inferInstanceAs (Decidable (_ ∧ ∀ _, _ → ¬ _))
  | .call _ a => inferInstanceAs (Decidable (a = .connectDestroyed ∨ a = .queueInLoop))
  | .advance _ => isTrue trivial

/-- A request in two reads, whose answer is written in two parts. -/
def twoReads : List Label :=
  [.loop {},.loop {},.loop { active := [.conn Channel.POLLIN] },.loop {},
    .loop { read := .received (text "GET / HTTP/1.1\r") },.loop {},.loop {},.loop {},.loop {},
    .loop { active := [.conn Channel.POLLIN] },.loop {},.loop { read := .received (text "\n\r\n") },.loop {},
    .loop { write := .wrote 9 },.loop {},.loop {},.loop { active := [.conn Channel.POLLOUT] },.loop {},
    .loop { write := .wrote 100 },.loop {}]

theorem written_is_reply_twoReads :
    ∃ h, exec (step HttpServer.onePage) (established none 64 none) twoReads = some h ∧
      h.received = text "GET / HTTP/1.1\r\n\r\n" ∧ h.world.conn.outputBuffer = [] ∧
      written h.world.conn.trace++h.world.conn.outputBuffer = HttpServer.onePage.reply h.received := by
  obtain ⟨h,hh⟩ : ∃ h, exec (step HttpServer.onePage) (established none 64 none) twoReads = some h :=
    Option.isSome_iff_exists.mp (by decide +kernel)
  have hfields : (exec (step HttpServer.onePage) (established none 64 none) twoReads).map
      (fun h => (h.received,h.world.conn.outputBuffer,h.world.conn.state,h.world.todo)) =
      some (text "GET / HTTP/1.1\r\n\r\n",[],.kConnected,[]) := by decide +kernel
  rw [hh] at hfields
  obtain ⟨hreceived,hbuffer,hstate,htodo⟩ : h.received = text "GET / HTTP/1.1\r\n\r\n" ∧
      h.world.conn.outputBuffer = [] ∧ h.world.conn.state = .kConnected ∧ h.world.todo = [] := by
    simpa using hfields
  have hkept := written_is_reply ((run_iff_exec _ _ _ _).mpr hh) (by decide)
  exact ⟨h,hh,hreceived,hbuffer,(hkept.2.1 hstate htodo).1⟩

/-! ## A client at the other end -/

end HttpStream
end GgLib
