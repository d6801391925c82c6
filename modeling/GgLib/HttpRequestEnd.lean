import GgLib.HttpParserSafety

/-! Where a request ends. Bytes arrive in chunks, `parseRequest` and `reset` are
called in any order; the bytes taken for each request are recorded. -/
namespace GgLib
namespace HttpContext

open ByteQueue StringView LabelledSystem

variable (check : HttpRequest → Bool)

/-- The complete line on which one call sets `gotAll()`: the first header line without a colon. -/
def endLine (c : HttpContext) (ls : List (List Byte)) : Option (List Byte) :=
  match c.state,ls with
  | .kExpectHeaders, ls => (ls.dropWhile hasColon).head?
  | .kExpectRequestLine, l::ls => if accepts check c l then (ls.dropWhile hasColon).head? else none
  | _, _ => none

theorem parseRequest_headers {c c' : HttpContext} (hc : c.state = .kExpectHeaders)
    {buf buf' : ByteQueue} {ok : Bool} (h : parseRequest check c buf = some (.ok (ok,c',buf'))) :
    ∃ used, (∀ l ∈ used, Unbroken l) ∧ buf = unlines used++buf' ∧
      ((c'.state = .kExpectHeaders ∧ ((lines buf).dropWhile hasColon).head? = none) ∨
        (c'.state = .kGotAll ∧ ∃ init l, used = init++[l] ∧
          ((lines buf).dropWhile hasColon).head? = some l)) := by
  induction buf using lineDecoder.induction_on generalizing c with
  | hnone buf hn =>
    rw [parseRequest_none check (.inr hc) hn] at h
    cases h
    exact ⟨[],by simp,rfl,.inl ⟨hc,by rw [lines_none hn]; rfl⟩⟩
  | hsome buf line rest hn ih =>
    rw [parseRequest_line check (.inr hc) hn] at h
    obtain ⟨hu,hb⟩ := nextLine_split hn
    rw [lines_some hn]
    rcases takeLine_headers check hc line with ⟨hcolon,ht⟩ | ⟨-,-,ht⟩ | ⟨hcolon,-,r,ht⟩
    · rw [ht] at h
      cases h
      refine ⟨[line],by simpa using hu,by simpa using hb,.inr ⟨rfl,[],line,rfl,?_⟩⟩
      simp [hasColon,hcolon]
    · simp [ht] at h
    · rw [ht] at h
      obtain ⟨used,hused,he,hcases⟩ := ih (c:={ c with request := r }) hc h
      have hskip : (line::lines rest).dropWhile hasColon = (lines rest).dropWhile hasColon := by
        simp [hasColon,hcolon]
      rw [hskip]
      refine ⟨line::used,?_,by rw [hb,he,unlines_cons,List.append_assoc _ (unlines used)],?_⟩
      · intro l hl
        rcases List.mem_cons.mp hl with rfl | hl
        · exact hu
        · exact hused l hl
      · rcases hcases with hcases | ⟨hs,init,l,rfl,hl⟩
        · exact .inl hcases
        · exact .inr ⟨hs,line::init,l,rfl,hl⟩

/-- The lines a returning call took, from either state that expects one. -/
theorem parseRequest_used {c c' : HttpContext} (hc : c.Reading) {buf buf' : ByteQueue} {ok : Bool}
    (h : parseRequest check c buf = some (.ok (ok,c',buf'))) :
    ∃ used, (∀ l ∈ used, Unbroken l) ∧ buf = unlines used++buf' ∧
      ((c'.state = .kExpectRequestLine ∧ used = [] ∧ c.state = .kExpectRequestLine ∧
          endLine check c (lines buf) = none) ∨
        (c'.state = .kExpectHeaders ∧ (c.state = .kExpectRequestLine → used ≠ []) ∧
          endLine check c (lines buf) = none) ∨
        (c'.state = .kGotAll ∧ ∃ init l, used = init++[l] ∧
          (c.state = .kExpectRequestLine → init ≠ []) ∧
          endLine check c (lines buf) = some l)) := by
  rcases hc with hc | hc
  · cases hn : nextLine buf with
    | none =>
      rw [parseRequest_none check (.inl hc) hn] at h
      cases h
      exact ⟨[],by simp,rfl,.inl ⟨hc,rfl,hc,by rw [lines_none hn]; simp [endLine,hc]⟩⟩
    | some p =>
      rcases p with ⟨line,rest⟩
      rw [parseRequest_line check (.inl hc) hn] at h
      obtain ⟨hu,hb⟩ := nextLine_split hn
      rw [lines_some hn]
      rcases takeLine_requestLine check hc line with ⟨d,ht,hd,hr⟩ | ⟨d,ht,hd,hr⟩
      · rw [ht] at h
        obtain ⟨used,hused,he,hcases⟩ := parseRequest_headers check hd h
        have hend : endLine check c (line::lines rest) = ((lines rest).dropWhile hasColon).head? := by
          simp [endLine,hc,requestLine_accepts check hr]
        rw [hend]
        refine ⟨line::used,?_,by rw [hb,he,unlines_cons,List.append_assoc _ (unlines used)],.inr ?_⟩
        · intro l hl
          rcases List.mem_cons.mp hl with rfl | hl
          · exact hu
          · exact hused l hl
        · rcases hcases with ⟨hs,hl⟩ | ⟨hs,init,l,rfl,hl⟩
          · exact .inl ⟨hs,by simp,hl⟩
          · exact .inr ⟨hs,line::init,l,rfl,by simp,hl⟩
      · rw [ht] at h
        cases h
        refine ⟨[],by simp,rfl,.inl ⟨hd,rfl,hc,?_⟩⟩
        simp [endLine,hc,requestLine_accepts check hr]
  · obtain ⟨used,hused,he,hcases⟩ := parseRequest_headers check hc h
    have hend : endLine check c (lines buf) = ((lines buf).dropWhile hasColon).head? := by
      simp [endLine,hc]
    rw [hend]
    refine ⟨used,hused,he,.inr ?_⟩
    rcases hcases with ⟨hs,hl⟩ | ⟨hs,init,l,hi,hl⟩
    · exact .inl ⟨hs,by simp [hc],hl⟩
    · exact .inr ⟨hs,init,l,hi,by simp [hc],hl⟩

/-- A context with its input, and a record of what was taken from the stream. -/
structure Intake where
  context : HttpContext
  buf : ByteQueue
  /-- All bytes taken so far. -/
  past : ByteQueue
  /-- The bytes taken since the last `reset()`. -/
  taken : ByteQueue
  /-- The bytes taken for each request that set `gotAll()`. -/
  requests : List ByteQueue
  /-- What had been taken when a `reset()` after `gotAll()` let the next request start. -/
  starts : List ByteQueue
  deriving DecidableEq, Repr

inductive Event
  | arrive (chunk : ByteQueue)
  | parseRequest
  | reset
  deriving DecidableEq, Repr

def Intake.start : Intake := ⟨fresh,[],[],[],[],[]⟩

def intake (s : Intake) : Event → Option Intake
  | .arrive chunk => some { s with buf := s.buf.pushBack chunk }
  | .parseRequest =>
    match parseRequest check s.context s.buf with
    | some (.ok (_,c,buf)) =>
      let used := s.buf.take (s.buf.length-buf.length)
      some
        { s with
          context := c
          buf := buf
          past := s.past++used
          taken := s.taken++used
          requests := if c.gotAll then s.requests++[s.taken++used] else s.requests }
    | _ => none
  | .reset =>
    some
      { s with
        context := s.context.reset
        taken := []
        starts := if s.context.gotAll then s.starts++[s.past] else s.starts }

def EndsEmpty (q : ByteQueue) : Prop := ∃ p, q = p++[CR,LF,CR,LF]

/-- Every request that ended did so on an empty line, and every request that started
after another one started behind an empty line. -/
def EndedEmpty (s : Intake) : Prop :=
  (∀ r ∈ s.requests, (lines r).getLast? = some [] ∧ EndsEmpty r) ∧ ∀ p ∈ s.starts, EndsEmpty p

/-- When the call is about to end a request, the line it ends on is empty. -/
def EmptyEndLine (s : Intake) (a : Event) : Prop :=
  a = .parseRequest → ∀ l, endLine check s.context (lines s.buf) = some l → l = []

/-- What a record says between two calls. -/
structure Recorded (s : Intake) : Prop where
  state : s.context.Reading ∨ s.context.state = .kGotAll
  first : s.context.state = .kExpectRequestLine → s.taken = []
  inside : s.context.state = .kExpectHeaders →
    ∃ ls, ls ≠ [] ∧ (∀ l ∈ ls, Unbroken l) ∧ s.taken = unlines ls
  ended : s.context.state = .kGotAll → s.taken ∈ s.requests
  past : ∃ p, s.past = p++s.taken

theorem Intake.start_recorded : Recorded Intake.start :=
  ⟨.inl (.inl rfl),fun _ => rfl,(by intro h; cases h),(by intro h; cases h),[],rfl⟩

/-- Lines with at least one before the last end with an empty line exactly if the last one is empty. -/
theorem unlines_endsEmpty_iff {ls : List (List Byte)} {l : List Byte} (hne : ls ≠ [])
    (h : ∀ m ∈ ls++[l], Unbroken m) :
    ((lines (unlines (ls++[l]))).getLast? = some [] ∧ EndsEmpty (unlines (ls++[l]))) ↔ l = [] := by
  have hl : lines (unlines (ls++[l])) = ls++[l] := by
    have hu := lines_unlines_append h []
    rwa [List.append_nil,lines_none (q:=[]) rfl,List.append_nil] at hu
  rw [hl,List.getLast?_append]
  constructor
  · intro hh
    simpa using hh.1
  · rintro rfl
    refine ⟨by simp,?_⟩
    rw [← List.dropLast_append_getLast hne]
    exact ⟨unlines ls.dropLast++ls.getLast hne,by simp⟩

theorem intake_parseRequest {s t : Intake} (hs : Recorded s)
    (h : intake check s .parseRequest = some t) :
    ∃ used, (∀ l ∈ used, Unbroken l) ∧ t.taken = s.taken++unlines used ∧
      t.past = s.past++unlines used ∧ t.starts = s.starts ∧
      ((t.context.state = .kExpectRequestLine ∧ used = [] ∧ s.context.state = .kExpectRequestLine ∧
          t.requests = s.requests ∧ endLine check s.context (lines s.buf) = none) ∨
        (t.context.state = .kExpectHeaders ∧
          (s.context.state = .kExpectRequestLine → used ≠ []) ∧ s.context.Reading ∧
          t.requests = s.requests ∧ endLine check s.context (lines s.buf) = none) ∨
        (t.context.state = .kGotAll ∧ t.requests = s.requests++[t.taken] ∧ s.context.Reading ∧
          ∃ init l, used = init++[l] ∧ (s.context.state = .kExpectRequestLine → init ≠ []) ∧
            endLine check s.context (lines s.buf) = some l)) := by
  have hr : s.context.Reading := by
    rcases hs.state with hr | hg
    · exact hr
    · have hstuck : parseRequest check s.context s.buf = none :=
        parseLoop_stuck check (by simp [Reading,hg]) s.buf _
      simp [intake,hstuck] at h
  simp only [intake] at h
  split at h
  · rename_i ok c buf hp
    cases h
    obtain ⟨used,hused,he,hcases⟩ := parseRequest_used check hr hp
    have htake : s.buf.take (s.buf.length-buf.length) = unlines used := by
      rw [he,List.length_append,Nat.add_sub_cancel,List.take_left]
    refine ⟨used,hused,by rw [htake],by rw [htake],rfl,?_⟩
    rcases hcases with ⟨hc,hn,hl,hend⟩ | ⟨hc,hn,hend⟩ | ⟨hc,init,l,hi,hn,hend⟩
    · exact .inl ⟨hc,hn,hl,by simp [gotAll,hc],hend⟩
    · exact .inr (.inl ⟨hc,hn,hr,by simp [gotAll,hc],hend⟩)
    · exact .inr (.inr ⟨hc,by simp [gotAll,hc],hr,init,l,hi,hn,hend⟩)
  · cases h

theorem intake_recorded (s : Intake) (a : Event) (t : Intake) (hs : Recorded s)
    (h : intake check s a = some t) : Recorded t := by
  cases a with
  | arrive chunk =>
    cases h
    exact ⟨hs.state,hs.first,hs.inside,hs.ended,hs.past⟩
  | reset =>
    cases h
    refine ⟨.inl (.inl rfl),fun _ => rfl,(by intro h; cases h),(by intro h; cases h),s.past,?_⟩
    simp
  | parseRequest =>
    obtain ⟨used,hused,htaken,hpast,-,hcases⟩ := intake_parseRequest check hs h
    obtain ⟨p,hp⟩ := hs.past
    have hpast' : ∃ p, t.past = p++t.taken := ⟨p,by rw [hpast,htaken,hp,List.append_assoc]⟩
    rcases hcases with ⟨hc,rfl,hl,-,-⟩ | ⟨hc,hn,hr,-,-⟩ | ⟨hc,hreq,-,-⟩
    · refine ⟨.inl (.inl hc),fun _ => ?_,fun h => ?_,fun h => ?_,hpast'⟩
      · rw [htaken,hs.first hl]
        rfl
      · cases hc.symm.trans h
      · cases hc.symm.trans h
    · refine ⟨.inl (.inr hc),fun h => ?_,fun _ => ?_,fun h => ?_,hpast'⟩
      · cases hc.symm.trans h
      · rcases hr with hr | hr
        · exact ⟨used,hn hr,hused,by rw [htaken,hs.first hr]; rfl⟩
        · obtain ⟨ls,hne,hls,ht⟩ := hs.inside hr
          refine ⟨ls++used,by simp [hne],?_,by rw [htaken,ht,unlines_append]⟩
          intro l hl
          exact (List.mem_append.mp hl).elim (hls l) (hused l)
      · cases hc.symm.trans h
    · refine ⟨.inr hc,fun h => ?_,fun h => ?_,fun _ => ?_,hpast'⟩
      · cases hc.symm.trans h
      · cases hc.symm.trans h
      · rw [hreq]
        simp

/-- A call that ends a request does so properly exactly if its end line is empty. -/
theorem intake_endedEmpty (s : Intake) (a : Event) (t : Intake) (hs : Recorded s)
    (h : intake check s a = some t) : EndedEmpty t ↔ EndedEmpty s ∧ EmptyEndLine check s a := by
  cases a with
  | arrive chunk =>
    cases h
    simp [EndedEmpty,EmptyEndLine]
  | reset =>
    have hlast : EndedEmpty s → s.context.gotAll = true → EndsEmpty s.past := by
      intro he hg
      obtain ⟨p,hp⟩ := hs.past
      obtain ⟨q,hq⟩ := (he.1 s.taken (hs.ended (by simpa [gotAll] using hg))).2
      exact ⟨p++q,by rw [hp,hq,List.append_assoc]⟩
    cases h
    have hc : EmptyEndLine check s .reset := fun h => by cases h
    by_cases hg : s.context.gotAll = true
    · have hkeep : EndedEmpty s → EndedEmpty s ∧ EndsEmpty s.past := fun he => ⟨he,hlast he hg⟩
      simp only [EndedEmpty,hg,if_true,List.mem_append,List.mem_singleton,hc,and_true] at hkeep ⊢
      constructor
      · exact fun he => ⟨he.1,fun p hp => he.2 p (.inl hp)⟩
      · intro he
        refine ⟨he.1,?_⟩
        rintro p (hp | rfl)
        · exact he.2 p hp
        · exact (hkeep he).2
    · simp [EndedEmpty,hg,hc]
  | parseRequest =>
    obtain ⟨used,hused,htaken,hpast,hstarts,hcases⟩ := intake_parseRequest check hs h
    rcases hcases with ⟨-,-,-,hreq,hend⟩ | ⟨-,-,-,hreq,hend⟩ | ⟨-,hreq,hr,init,l,rfl,hn,hend⟩
    · simp [EndedEmpty,EmptyEndLine,hreq,hstarts,hend]
    · simp [EndedEmpty,EmptyEndLine,hreq,hstarts,hend]
    · have hiff : ((lines t.taken).getLast? = some [] ∧ EndsEmpty t.taken) ↔ l = [] := by
        rcases hr with hr | hr
        · rw [htaken,hs.first hr]
          exact unlines_endsEmpty_iff (hn hr) hused
        · obtain ⟨ls,hne,hls,ht⟩ := hs.inside hr
          rw [htaken,ht,← unlines_append,← List.append_assoc]
          refine unlines_endsEmpty_iff (by simp [hne]) ?_
          intro m hm
          rw [List.append_assoc] at hm
          exact (List.mem_append.mp hm).elim (hls m) (hused m)
      have hC : EmptyEndLine check s .parseRequest ↔ l = [] := by
        simp [EmptyEndLine,hend]
      rw [hC,← hiff]
      simp only [EndedEmpty,hreq,hstarts,List.mem_append,List.mem_singleton]
      constructor
      · exact fun he => ⟨⟨fun r hr => he.1 r (.inl hr),he.2⟩,he.1 _ (.inr rfl)⟩
      · rintro ⟨he,hlast⟩
        refine ⟨?_,he.2⟩
        rintro r (hr | rfl)
        · exact he.1 r hr
        · exact hlast

/-- In every run of the calls over every stream, however it is cut: all requests ended
on an empty line if and only if every call that ended one had an empty end line. -/
theorem requests_end_empty_iff {events : List Event} {s : Intake}
    (h : Run (intake check) Intake.start events s) :
    EndedEmpty s ↔ Along (intake check) (EmptyEndLine check) Intake.start events := by
  rw [h.iff_along (intake_recorded check) (intake_endedEmpty check) Intake.start_recorded]
  simp [EndedEmpty,Intake.start]

def cutRequest : List Event :=
  [.arrive (text "GET / HTTP/1.1\r\nHost: x\r\n\r"),.parseRequest,.arrive (text "\n"),.parseRequest,.reset]

theorem requests_end_empty_iff_cutRequest :
    ∃ s, exec (intake fun _ => true) Intake.start cutRequest = some s ∧
      s.requests = [text "GET / HTTP/1.1\r\nHost: x\r\n\r\n"] ∧
      (EndedEmpty s ↔ Along (intake fun _ => true) (EmptyEndLine fun _ => true) Intake.start cutRequest) := by
  obtain ⟨s,hs⟩ : ∃ s, exec (intake fun _ => true) Intake.start cutRequest = some s :=
    Option.isSome_iff_exists.mp (by decide +kernel)
  have hr : (exec (intake fun _ => true) Intake.start cutRequest).map (·.requests) =
      some [text "GET / HTTP/1.1\r\nHost: x\r\n\r\n"] := by decide +kernel
  refine ⟨s,hs,?_,requests_end_empty_iff (fun _ => true) ((run_iff_exec _ _ _ _).mpr hs)⟩
  rw [hs] at hr
  exact Option.some.inj hr

/-- The line `foo` ends the request, and the rest of the block is taken as another one. -/
theorem requests_end_nonempty :
    ¬ ∀ (check : HttpRequest → Bool) (events : List Event) (s : Intake),
      Run (intake check) Intake.start events s → EndedEmpty s := by
  intro h
  let events : List Event :=
    [.arrive (text "GET / HTTP/1.1\r\nfoo\r\nGET /x HTTP/1.1\r\n\r\n"),.parseRequest,.reset,.parseRequest]
  obtain ⟨s,hs⟩ : ∃ s, exec (intake fun _ => true) Intake.start events = some s :=
    Option.isSome_iff_exists.mp (by decide +kernel)
  have hr : (exec (intake fun _ => true) Intake.start events).map (·.starts) =
      some [text "GET / HTTP/1.1\r\nfoo\r\n"] := by decide +kernel
  rw [hs] at hr
  have hstarts : s.starts = [text "GET / HTTP/1.1\r\nfoo\r\n"] := Option.some.inj hr
  obtain ⟨p,hp⟩ := (h (fun _ => true) events s ((run_iff_exec _ _ _ _).mpr hs)).2 _
    (by rw [hstarts]; exact List.mem_singleton.mpr rfl)
  have hsuffix : [CR,LF,CR,LF] <:+ text "GET / HTTP/1.1\r\nfoo\r\n" := ⟨p,hp.symm⟩
  exact absurd hsuffix (by decide)

end HttpContext
end GgLib
