import GgLib.HttpLines
import GgLib.HttpServer
import GgLib.LabelledSystem

/-! The answers a server owes for a stream of requests, and that `onMessage` gives
exactly these, however the stream is cut. -/
namespace GgLib
namespace HttpServer

open ByteQueue HttpContext StringView LabelledSystem

variable (server : HttpServer)

/-- What is sent for one request: a response, or the 400 for a malformed one. -/
inductive Answer
  | response (req : HttpRequest) (resp : HttpResponse)
  | badRequest
  deriving DecidableEq, Repr

def Answer.closes : Answer → Bool
  | .response _ resp => resp.closeConnection
  | .badRequest => true

def Answer.bytes (e : HttpResponse.Rendering) : Answer → List Byte
  | .response _ resp => resp.appendToBuffer e []
  | .badRequest => HttpServer.badRequest

/-- The bytes of answers behind `answered` responses. -/
def Answer.bytesFrom (e : ℕ → HttpResponse.Rendering) : ℕ → List Answer → List Byte
  | _, [] => []
  | answered, .response _ resp::as => resp.appendToBuffer (e answered) []++bytesFrom e (answered+1) as
  | answered, .badRequest::as => HttpServer.badRequest++bytesFrom e answered as

def Answer.request : Answer → Option HttpRequest
  | .response req _ => some req
  | .badRequest => none

theorem Answer.bytesFrom_append (e : ℕ → HttpResponse.Rendering) (answered : ℕ) (as bs : List Answer) :
    bytesFrom e answered (as++bs) =
      bytesFrom e answered as++bytesFrom e (answered+(as.filterMap Answer.request).length) bs := by
  induction as generalizing answered with
  | nil => rfl
  | cons a as ih =>
    cases a with
    | response req resp =>
      have hcount : ((response req resp::as).filterMap Answer.request).length =
          1+(as.filterMap Answer.request).length := Nat.add_comm _ 1
      rw [List.cons_append,bytesFrom,bytesFrom,ih,hcount,List.append_assoc,Nat.add_assoc]
    | badRequest =>
      have hcount : (badRequest::as).filterMap Answer.request = as.filterMap Answer.request := rfl
      rw [List.cons_append,bytesFrom,bytesFrom,ih,hcount,List.append_assoc]

def answer : Option HttpRequest → Answer
  | some req => .response req (server.onRequest req .empty)
  | none => .badRequest

/-- The complete requests in the lines of a stream, and `none` for a malformed one,
behind which nothing can be read. -/
def requests (check : HttpRequest → Bool) (c : HttpContext) : List (List Byte) → List (Option HttpRequest)
  | [] => []
  | l::ls =>
    match takeLine check c l with
    | .ok (.more c') => requests check c' ls
    | .ok (.ended c') => some c'.request::requests check fresh ls
    | .ok (.refused _) => [none]
    | .error _ => []

def upToClose : List Answer → List Answer
  | [] => []
  | a::as => if a.closes then [a] else a::upToClose as

/-- One answer for each request of the stream, up to the close. -/
def answers (stream : ByteQueue) : List Answer :=
  upToClose ((requests server.checkHeader fresh (lines stream)).map server.answer)

/-- A server between two lines. -/
structure Progress where
  context : HttpContext
  answers : List Answer
  closed : Bool

namespace Progress

def start : Progress := ⟨fresh,[],false⟩

def read (p : Progress) (l : List Byte) : Progress :=
  if p.closed then p
  else
    match takeLine server.checkHeader p.context l with
    | .ok (.more context) => { p with context }
    | .ok (.ended context) =>
      ⟨fresh,p.answers++[server.answer (some context.request)],(server.answer (some context.request)).closes⟩
    | .ok (.refused _) => ⟨fresh,p.answers++[.badRequest],true⟩
    | .error _ => { p with closed := true }

/-- Every header line with a colon that the server reads before it closes has a value
that is not blank. -/
def Filled (p : Progress) : List (List Byte) → Prop
  | [] => True
  | l::ls =>
    (p.closed = false → p.context.state = .kExpectHeaders → COLON ∈ l → blankValue l = false) ∧
      Filled (p.read server l) ls

instance decidableFilled : (p : Progress) → (ls : List (List Byte)) → Decidable (p.Filled server ls)
  | _, [] => isTrue trivial
  | p, l::ls =>
    have := decidableFilled (p.read server l) ls
    inferInstanceAs (Decidable (_ ∧ _))

theorem filled_append (p : Progress) (ls ms : List (List Byte)) :
    p.Filled server (ls++ms) ↔ p.Filled server ls ∧ (ls.foldl (read server) p).Filled server ms := by
  induction ls generalizing p with
  | nil => simp [Filled]
  | cons l ls ih => simp [Filled,ih,and_assoc]

theorem read_closed {p : Progress} (h : p.closed = true) (l : List Byte) : p.read server l = p :=
  if_pos h

theorem foldl_closed {p : Progress} (h : p.closed = true) (ls : List (List Byte)) :
    ls.foldl (read server) p = p := by
  induction ls with
  | nil => rfl
  | cons l ls ih => rw [List.foldl_cons,read_closed server h,ih]

theorem filled_closed {p : Progress} (h : p.closed = true) (ls : List (List Byte)) :
    p.Filled server ls := by
  induction ls with
  | nil => trivial
  | cons l ls ih => exact ⟨by simp [h],by rwa [read_closed server h]⟩

theorem read_more {c c' : HttpContext} {l : List Byte} (as : List Answer)
    (h : takeLine server.checkHeader c l = .ok (.more c')) :
    read server ⟨c,as,false⟩ l = ⟨c',as,false⟩ := by
  simp [read,h]

theorem read_ended {c c' : HttpContext} {l : List Byte} (as : List Answer)
    (h : takeLine server.checkHeader c l = .ok (.ended c')) :
    read server ⟨c,as,false⟩ l = ⟨fresh,as++[server.answer (some c'.request)],
      (server.answer (some c'.request)).closes⟩ := by
  simp [read,h]

theorem read_refused {c c' : HttpContext} {l : List Byte} (as : List Answer)
    (h : takeLine server.checkHeader c l = .ok (.refused c')) :
    read server ⟨c,as,false⟩ l = ⟨fresh,as++[.badRequest],true⟩ := by
  simp [read,h]

theorem read_error {c : HttpContext} {l : List Byte} {e : OutOfRange} (as : List Answer)
    (h : takeLine server.checkHeader c l = .error e) :
    read server ⟨c,as,false⟩ l = ⟨c,as,true⟩ := by
  simp [read,h]

theorem foldl_answers (c : HttpContext) (as : List Answer) (ls : List (List Byte)) :
    (ls.foldl (read server) ⟨c,as,false⟩).answers =
      as++upToClose ((requests server.checkHeader c ls).map server.answer) := by
  induction ls generalizing c as with
  | nil => simp [requests,upToClose]
  | cons l ls ih =>
    rw [List.foldl_cons,requests]
    cases ht : takeLine server.checkHeader c l with
    | error e =>
      rw [read_error server as ht,foldl_closed server rfl]
      simp [upToClose]
    | ok o =>
      cases o with
      | more c' => rw [read_more server as ht,ih]
      | ended c' =>
        rw [read_ended server as ht,List.map_cons,upToClose]
        by_cases hclose : (server.answer (some c'.request)).closes = true
        · rw [foldl_closed server hclose,if_pos hclose]
        · have hopen : (server.answer (some c'.request)).closes = false := by simpa using hclose
          rw [if_neg hclose,hopen,ih,List.append_assoc]
          rfl
      | refused c' =>
        rw [read_refused server as ht,foldl_closed server rfl]
        simp [upToClose,answer,Answer.closes]

theorem takeLine_filled {c : HttpContext} (hc : c.Reading) {as : List Answer} {l : List Byte}
    {ls : List (List Byte)} (hf : Filled server ⟨c,as,false⟩ (l::ls)) (e : OutOfRange) :
    takeLine server.checkHeader c l ≠ .error e := by
  intro h
  rcases hc with hc | hc
  · rcases takeLine_requestLine server.checkHeader hc l with ⟨d,hd,-⟩ | ⟨d,hd,-⟩ <;>
      cases hd.symm.trans h
  · rcases takeLine_headers server.checkHeader hc l with ⟨-,hd⟩ | ⟨hl,hb,-⟩ | ⟨-,-,r,hd⟩
    · cases hd.symm.trans h
    · cases hb.symm.trans (hf.1 rfl hc hl)
    · cases hd.symm.trans h

/-- The close comes exactly with an answer that closes. -/
def ClosedByAnswer (p : Progress) : Prop := p.closed = p.answers.any Answer.closes

theorem closedByAnswer_read {p : Progress} (hc : p.closed = false → p.context.Reading)
    {l : List Byte} {ls : List (List Byte)} (hf : p.Filled server (l::ls)) (hp : p.ClosedByAnswer) :
    (p.read server l).ClosedByAnswer := by
  rcases p with ⟨c,as,closed⟩
  cases closed with
  | true => rwa [read_closed server rfl]
  | false =>
    have has : as.any Answer.closes = false := hp.symm
    cases ht : takeLine server.checkHeader c l with
    | error e => exact absurd ht (takeLine_filled server (hc rfl) hf e)
    | ok o =>
      cases o with
      | more c' => rwa [read_more server as ht]
      | ended c' =>
        rw [read_ended server as ht]
        simp [ClosedByAnswer,has]
      | refused c' =>
        rw [read_refused server as ht]
        simp [ClosedByAnswer,Answer.closes]

theorem reading_read {p : Progress} (hc : p.closed = false → p.context.Reading) (l : List Byte)
    (h : (p.read server l).closed = false) : (p.read server l).context.Reading := by
  rcases p with ⟨c,as,closed⟩
  cases closed with
  | true =>
    rw [read_closed server rfl] at h
    cases h
  | false =>
    cases ht : takeLine server.checkHeader c l with
    | error e =>
      rw [read_error server as ht] at h
      cases h
    | ok o =>
      cases o with
      | more c' =>
        rw [read_more server as ht]
        exact .inr (takeLine_more server.checkHeader (hc rfl) ht)
      | ended c' =>
        rw [read_ended server as ht]
        exact .inl rfl
      | refused c' =>
        rw [read_refused server as ht] at h
        cases h

theorem reading_foldl {p : Progress} (hc : p.closed = false → p.context.Reading)
    (ls : List (List Byte)) (h : (ls.foldl (read server) p).closed = false) :
    (ls.foldl (read server) p).context.Reading := by
  induction ls generalizing p with
  | nil => exact hc h
  | cons l ls ih => exact ih (reading_read server hc l) h

theorem foldl_closedByAnswer {p : Progress} (hc : p.closed = false → p.context.Reading)
    {ls : List (List Byte)} (hf : p.Filled server ls) (hp : p.ClosedByAnswer) :
    (ls.foldl (read server) p).ClosedByAnswer := by
  induction ls generalizing p with
  | nil => exact hp
  | cons l ls ih =>
    exact ih (reading_read server hc l) hf.2 (closedByAnswer_read server hc hf hp)

end Progress

/-- What an `Exchange` has sent and handled, behind what was sent and handled before,
is what the answers say. -/
structure Exchange.Tracks (x : Exchange) (sent : List Byte) (handled : List HttpRequest)
    (p : Progress) : Prop where
  context : x.context = p.context
  sent : sent++x.outBuf = Answer.bytesFrom server.rendering 0 p.answers
  handled : handled++x.handled = p.answers.filterMap Answer.request
  needClose : x.needClose = p.closed

theorem serveLoop_needClose {x : Exchange} (h : x.needClose = true) (answered n : ℕ) :
    server.serveLoop answered (n+1) x = some (.ok x) := by
  rw [serveLoop,if_pos h]

theorem serveLoop_none {c : HttpContext} (hc : c.Reading) {buf : ByteQueue} (h : buf.nextLine = none)
    (outBuf : ByteQueue) (resp : HttpResponse) (handled : List HttpRequest) (answered n : ℕ) :
    server.serveLoop answered (n+1) ⟨c,buf,outBuf,resp,false,handled⟩ =
      some (.ok ⟨c,buf,outBuf,resp,false,handled⟩) := by
  have hg : c.gotAll = false := by rcases hc with hc | hc <;> simp [gotAll,hc]
  simp [serveLoop,parseRequest_none _ hc h,hg]

theorem serveLoop_line {c : HttpContext} (hc : c.Reading) {buf rest : ByteQueue} {line : List Byte}
    (h : buf.nextLine = some (line,rest)) {o : LineOutcome}
    (ht : takeLine server.checkHeader c line = .ok o)
    (outBuf : ByteQueue) (resp : HttpResponse) (handled : List HttpRequest) (answered n : ℕ) :
    server.serveLoop answered (n+1) ⟨c,buf,outBuf,resp,false,handled⟩ =
      match o with
      | .more c' => server.serveLoop answered (n+1) ⟨c',rest,outBuf,resp,false,handled⟩
      | .ended c' =>
        server.serveLoop answered n ⟨fresh,rest,
          (server.onRequest c'.request resp).appendToBuffer (server.rendering (answered+handled.length)) outBuf,.empty,
          (server.onRequest c'.request resp).closeConnection,handled++[c'.request]⟩
      | .refused _ =>
        server.serveLoop answered n ⟨fresh,buf,outBuf.pushBack HttpServer.badRequest,resp,true,handled⟩ := by
  have hp := parseRequest_line server.checkHeader hc h
  rw [ht] at hp
  cases o with
  | more c' =>
    show _ = server.serveLoop answered (n+1) ⟨c',rest,outBuf,resp,false,handled⟩
    rw [serveLoop,serveLoop]
    simp only [hp]
    rfl
  | ended c' =>
    obtain ⟨-,-,rfl⟩ := takeLine_ended server.checkHeader hc ht
    rw [serveLoop]
    simp only [hp]
    rfl
  | refused c' =>
    rw [serveLoop]
    simp only [hp]
    rfl

/-- `onMessage` on the lines of its buffer. -/
theorem serveLoop_lines {n : ℕ} {c : HttpContext} (hc : c.Reading) {buf outBuf : ByteQueue}
    {done : List HttpRequest} (hn : buf.length+1 < n) {sent : List Byte} {handled : List HttpRequest}
    {as : List Answer} (hsent : sent++outBuf = Answer.bytesFrom server.rendering 0 as)
    (hhandled : handled++done = as.filterMap Answer.request)
    (hf : Progress.Filled server ⟨c,as,false⟩ (lines buf)) :
    ∃ y, server.serveLoop handled.length n ⟨c,buf,outBuf,.empty,false,done⟩ = some (.ok y) ∧
      y.Tracks server sent handled ((lines buf).foldl (Progress.read server) ⟨c,as,false⟩) ∧
      (y.needClose = false → y.buf = (lineDecoder.frames buf).2) := by
  induction buf using lineDecoder.induction_on generalizing n c outBuf done as with
  | hnone buf hnext =>
    obtain ⟨n,rfl⟩ : ∃ m, n = m+1 := ⟨n-1,by omega⟩
    refine ⟨_,serveLoop_none server hc hnext outBuf .empty done _ n,?_,?_⟩
    · rw [lines_none hnext]
      exact ⟨rfl,hsent,hhandled,rfl⟩
    · intro
      rw [lineDecoder.frames_none hnext]
  | hsome buf line rest hnext ih =>
    have hlt := lineDecoder.shorter _ _ _ hnext
    obtain ⟨n,rfl⟩ : ∃ m, n = m+2 := ⟨n-2,by omega⟩
    rw [lines_some hnext] at hf ⊢
    rw [lineDecoder.frames_some hnext,List.foldl_cons]
    cases ht : takeLine server.checkHeader c line with
    | error e => exact absurd ht (Progress.takeLine_filled server hc hf e)
    | ok o =>
      rw [serveLoop_line server hc hnext ht]
      cases o with
      | more c' =>
        have hf' := hf.2
        rw [Progress.read_more server as ht] at hf' ⊢
        exact ih (.inr (takeLine_more server.checkHeader hc ht)) (by omega) hsent hhandled hf'
      | ended c' =>
        have hf' := hf.2
        rw [Progress.read_ended server as ht] at hf' ⊢
        have hcount : handled.length+done.length = (as.filterMap Answer.request).length := by
          rw [← hhandled,List.length_append]
        have hsent' : sent++(server.onRequest c'.request .empty).appendToBuffer
              (server.rendering (handled.length+done.length)) outBuf =
            Answer.bytesFrom server.rendering 0 (as++[server.answer (some c'.request)]) := by
          rw [HttpResponse.appendToBuffer_append,← List.append_assoc,hsent,Answer.bytesFrom_append,Nat.zero_add,hcount,
            answer,Answer.bytesFrom,Answer.bytesFrom,List.append_nil]
        have hhandled' : handled++(done++[c'.request]) =
            (as++[server.answer (some c'.request)]).filterMap Answer.request := by
          rw [← List.append_assoc,hhandled,List.filterMap_append]
          simp [answer,Answer.request]
        by_cases hclose : (server.onRequest c'.request .empty).closeConnection = true
        · refine ⟨_,serveLoop_needClose server hclose _ n,?_,?_⟩
          · rw [Progress.foldl_closed server hclose]
            exact ⟨rfl,hsent',hhandled',rfl⟩
          · intro hopen
            cases hclose.symm.trans hopen
        · have hopen : (server.onRequest c'.request .empty).closeConnection = false := by
            simpa using hclose
          have hanswer : (server.answer (some c'.request)).closes = false := hopen
          rw [hanswer] at hf' ⊢
          simp only [hopen]
          exact ih (.inl rfl) (by omega) hsent' hhandled' hf'
      | refused c' =>
        rw [Progress.read_refused server as ht,Progress.foldl_closed server rfl]
        refine ⟨_,serveLoop_needClose server rfl _ n,⟨rfl,?_,?_,rfl⟩,?_⟩
        · show sent++(outBuf++HttpServer.badRequest) = _
          rw [← List.append_assoc,hsent,Answer.bytesFrom_append,Answer.bytesFrom,Answer.bytesFrom,List.append_nil]
        · rw [List.filterMap_append,← hhandled]
          simp [Answer.request]
        · intro hopen
          cases hopen

/-- A connection between two chunks: the context and the input buffer that stay, what
was passed to `conn->send` and what was handled. -/
structure Session where
  context : HttpContext
  inputBuffer : ByteQueue
  sent : List Byte
  handled : List HttpRequest
  closed : Bool
  deriving DecidableEq, Repr

def Session.start : Session := ⟨fresh,[],[],[],false⟩

/-- A chunk arrives and `onMessage` runs. Behind `needClose` the functor of `forceClose` closes the connection before
the loop polls again, and no chunk is delivered any more: see `HttpStream.message_receives`. -/
def receive (s : Session) (chunk : List Byte) : Option Session :=
  if s.closed then some s
  else
    match server.onMessage s.handled.length s.context (s.inputBuffer.pushBack chunk) with
    | some (.ok x) => some ⟨x.context,x.buf,s.sent++x.outBuf,s.handled++x.handled,x.needClose⟩
    | _ => none

structure Session.Follows (s : Session) (p : Progress) : Prop where
  context : s.context = p.context
  sent : s.sent = Answer.bytesFrom server.rendering 0 p.answers
  handled : s.handled = p.answers.filterMap Answer.request
  closed : s.closed = p.closed
  reading : p.closed = false → p.context.Reading
  waiting : p.closed = false → s.inputBuffer.nextLine = none

theorem receive_lines {s : Session} {p : Progress} (h : s.Follows server p) {chunk : List Byte}
    (hf : p.Filled server (lines (s.inputBuffer++chunk))) :
    ∃ t, server.receive s chunk = some t ∧
      t.Follows server ((lines (s.inputBuffer++chunk)).foldl (Progress.read server) p) ∧
      (t.closed = false → t.inputBuffer = (lineDecoder.frames (s.inputBuffer++chunk)).2) := by
  rcases s with ⟨c,q,sent,handled,closed⟩
  rcases p with ⟨c',as,closed'⟩
  cases h.context
  cases h.closed
  cases closed with
  | true =>
    rw [Progress.foldl_closed server rfl]
    refine ⟨_,rfl,h,?_⟩
    intro hopen
    cases hopen
  | false =>
    have hc : c.Reading := h.reading rfl
    have hsent : sent++[] = Answer.bytesFrom server.rendering 0 as := by
      rw [List.append_nil]
      exact h.sent
    have hhandled : handled++[] = as.filterMap Answer.request := by
      rw [List.append_nil]
      exact h.handled
    obtain ⟨y,hy,ht,hrest⟩ := serveLoop_lines server hc (Nat.lt_succ_self _) hsent hhandled hf
    have hm : server.onMessage handled.length c (q++chunk) = some (.ok y) := hy
    refine ⟨⟨y.context,y.buf,sent++y.outBuf,handled++y.handled,y.needClose⟩,?_,?_,hrest⟩
    · simp [receive,pushBack,hm]
    · refine ⟨ht.context,ht.sent,ht.handled,ht.needClose,?_,?_⟩
      · exact Progress.reading_foldl server (fun _ => hc) _
      · intro hopen
        show y.buf.nextLine = none
        rw [hrest (ht.needClose.trans hopen)]
        exact lineDecoder.next_frames_snd _

theorem receive_chunks (chunks : List (List Byte)) {s : Session} {p : Progress} (h : s.Follows server p)
    (hf : p.Filled server (lines (s.inputBuffer++chunks.flatten))) :
    ∃ t, exec server.receive s chunks = some t ∧
      t.Follows server ((lines (s.inputBuffer++chunks.flatten)).foldl (Progress.read server) p) := by
  induction chunks generalizing s p with
  | nil =>
    refine ⟨s,rfl,?_⟩
    cases hclosed : p.closed with
    | true => rwa [Progress.foldl_closed server hclosed]
    | false => rwa [List.flatten_nil,List.append_nil,lines_none (h.waiting hclosed)]
  | cons chunk chunks ih =>
    have hsplit : lines (s.inputBuffer++(chunk::chunks).flatten) = lines (s.inputBuffer++chunk)++
        lines ((lineDecoder.frames (s.inputBuffer++chunk)).2++chunks.flatten) := by
      rw [List.flatten_cons,← List.append_assoc,lines,lineDecoder.frames_append]
      rfl
    rw [hsplit,Progress.filled_append] at hf
    obtain ⟨t,ht,hfollows,hrest⟩ := receive_lines server h hf.1
    rw [exec,ht,hsplit,List.foldl_append]
    cases hclosed : t.closed with
    | true =>
      have hp := hfollows.closed.symm.trans hclosed
      obtain ⟨u,hu,hfin⟩ := ih hfollows (Progress.filled_closed server hp _)
      rw [Progress.foldl_closed server hp] at hfin ⊢
      exact ⟨u,hu,hfin⟩
    | false =>
      rw [← hrest hclosed] at hf ⊢
      exact ih hfollows hf.2

/-- However a stream is cut into chunks, what is sent up to the first close is what one
chunk would make the server send, whatever the renderings of its responses: one answer for each
request in order, up to the first that closes, and no request behind it is handled. -/
theorem receive_answers (chunks : List (List Byte))
    (hf : Progress.start.Filled server (lines chunks.flatten)) :
    ∃ s, exec server.receive Session.start chunks = some s ∧
      (∃ w, exec server.receive Session.start [chunks.flatten] = some w ∧
        s.sent = w.sent ∧ s.handled = w.handled ∧ s.closed = w.closed) ∧
      s.sent = Answer.bytesFrom server.rendering 0 (server.answers chunks.flatten) ∧
      s.handled = (server.answers chunks.flatten).filterMap Answer.request ∧
      s.closed = (server.answers chunks.flatten).any Answer.closes := by
  have hstart : Session.start.Follows server Progress.start :=
    ⟨rfl,rfl,rfl,rfl,fun _ => .inl rfl,fun _ => rfl⟩
  have hwhole : [chunks.flatten].flatten = chunks.flatten := by simp
  obtain ⟨s,hs,h⟩ := receive_chunks server chunks hstart hf
  obtain ⟨w,hw,h'⟩ := receive_chunks server [chunks.flatten] hstart (by rwa [hwhole])
  rw [hwhole] at h'
  have hanswers : ((lines chunks.flatten).foldl (Progress.read server) Progress.start).answers =
      server.answers chunks.flatten := Progress.foldl_answers server fresh [] _
  have hclosed := Progress.foldl_closedByAnswer server (p:=Progress.start) (fun _ => .inl rfl) hf rfl
  refine ⟨s,hs,⟨w,hw,?_,?_,?_⟩,?_,?_,?_⟩
  · rw [h.sent,h'.sent]
  · rw [h.handled,h'.handled]
  · rw [h.closed,h'.closed]
  · rw [h.sent,← hanswers]
    rfl
  · rw [h.handled,← hanswers]
    rfl
  · rw [h.closed,← hanswers]
    exact hclosed

def onePage : HttpServer :=
  ⟨[(text "/",some fun _ resp => resp.setStatusCode .k200Ok)],fun _ => ⟨id,[]⟩⟩

/-- Two pipelined requests and a third behind the close, cut inside CR LF and inside a header. -/
def pipelined : List (List Byte) :=
  [text "GET / HTTP/1.1\r",text "\nHost: x\r\n\r\nGET / HTTP/1.1\r\nConnec",
    text "tion: close\r\n\r\nGET / HTTP/1.1\r\n\r\n"]

theorem pipelined_lines : lines pipelined.flatten =
    [text "GET / HTTP/1.1",text "Host: x",[],text "GET / HTTP/1.1",text "Connection: close",[],
      text "GET / HTTP/1.1",[]] := by
  have hunbroken : ∀ l ∈ [text "GET / HTTP/1.1",text "Host: x",[],text "GET / HTTP/1.1",
      text "Connection: close",[],text "GET / HTTP/1.1",[]], Unbroken l := by
    unfold Unbroken
    decide +kernel
  have hlines := lines_unlines_append hunbroken []
  rw [lines_none (q:=[]) rfl] at hlines
  exact hlines

theorem receive_answers_pipelined :
    ∃ s, exec onePage.receive Session.start pipelined = some s ∧ s.handled.length = 2 ∧ s.closed = true := by
  have hf : Progress.start.Filled onePage (lines pipelined.flatten) := by
    rw [pipelined_lines]
    decide +kernel
  obtain ⟨s,hs,-,-,hhandled,hclosed⟩ := receive_answers onePage pipelined hf
  refine ⟨s,hs,?_,?_⟩
  · rw [hhandled,answers,pipelined_lines]
    decide +kernel
  · rw [hclosed,answers,pipelined_lines]
    decide +kernel

end HttpServer
end GgLib
