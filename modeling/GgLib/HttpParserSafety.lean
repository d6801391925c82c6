import GgLib.LabelledSystem
import GgLib.HttpLines

/-! When `parseRequest` lets an exception escape: exactly on a header line with a
colon and nothing but spaces behind it. -/
namespace GgLib
namespace HttpContext

open ByteQueue StringView LabelledSystem

variable (check : HttpRequest → Bool)

def hasColon (line : List Byte) : Bool := decide (COLON ∈ line)

/-- A request line that `processRequestLine` and the check callback accept. -/
def accepts (c : HttpContext) (line : List Byte) : Bool :=
  match processRequestLine c.request line with
  | .ok (succeed,r) => succeed && check r
  | .error _ => false

/-- The complete lines one call reads as `name: value` lines. -/
def headerBlock (c : HttpContext) (ls : List (List Byte)) : List (List Byte) :=
  match c.state,ls with
  | .kExpectHeaders, ls => ls.takeWhile hasColon
  | .kExpectRequestLine, l::ls => if accepts check c l then ls.takeWhile hasColon else []
  | _, _ => []

theorem requestLine_accepts {c c' : HttpContext} {line : List Byte} {a : Bool}
    (h : requestLine check c line = .ok (a,c')) : accepts check c line = a := by
  obtain ⟨p,hp⟩ := processRequestLine_ok c.request line
  rcases p with ⟨s,r⟩
  simp only [requestLine,hp,bind,Except.bind] at h
  rw [accepts,hp]
  change (s && check r) = a
  split at h <;> rename_i hs <;> cases h
  · exact hs
  · simpa using hs

def Returns (c : HttpContext) (buf : ByteQueue) : Prop :=
  ∃ r, parseRequest check c buf = some (.ok r)

theorem returns_headers_iff {c : HttpContext} (hc : c.state = .kExpectHeaders) (buf : ByteQueue) :
    Returns check c buf ↔ ∀ l ∈ (lines buf).takeWhile hasColon, blankValue l = false := by
  induction buf using lineDecoder.induction_on generalizing c with
  | hnone buf h =>
    rw [Returns,parseRequest_none check (.inr hc) h,lines_none h]
    simp
  | hsome buf line rest h ih =>
    rw [Returns,parseRequest_line check (.inr hc) h,lines_some h]
    rcases takeLine_headers check hc line with ⟨hn,ht⟩ | ⟨hm,hb,ht⟩ | ⟨hm,hb,r,ht⟩
    · simp [ht,hasColon,hn]
    · simp [ht,hasColon,hm,hb]
    · simpa [ht,hasColon,hm,hb,Returns] using ih (c:={ c with request := r }) hc

/-- A call on a context that expects a line returns exactly when no value it reads is blank. -/
theorem returns_iff {c : HttpContext} (hc : c.Reading) (buf : ByteQueue) :
    Returns check c buf ↔ ∀ l ∈ headerBlock check c (lines buf), blankValue l = false := by
  rcases hc with hc | hc
  · cases h : nextLine buf with
    | none =>
      rw [Returns,parseRequest_none check (.inl hc) h,lines_none h]
      simp [headerBlock,hc]
    | some p =>
      rcases p with ⟨line,rest⟩
      rw [Returns,parseRequest_line check (.inl hc) h,lines_some h]
      rcases takeLine_requestLine check hc line with ⟨c',ht,hs,hr⟩ | ⟨c',ht,-,hr⟩
      · have ha := requestLine_accepts check hr
        simpa [headerBlock,hc,ht,ha,Returns] using returns_headers_iff check hs rest
      · have ha := requestLine_accepts check hr
        simp [headerBlock,hc,ht,ha]
  · rw [returns_headers_iff check hc buf]
    simp [headerBlock,hc]

/-- The public calls on one context. -/
inductive Call
  | parseRequest (buf : ByteQueue)
  | reset
  deriving DecidableEq, Repr

/-- The context a call leaves behind, when it returns. -/
def call (c : HttpContext) : Call → Option HttpContext
  | .parseRequest buf =>
    match parseRequest check c buf with
    | some (.ok (_,c',_)) => some c'
    | _ => none
  | .reset => some c.reset

theorem parseRequest_state {c c' : HttpContext} (hc : c.Reading) {buf buf' : ByteQueue} {ok : Bool}
    (h : parseRequest check c buf = some (.ok (ok,c',buf'))) : c'.Reading ∨ c'.state = .kGotAll := by
  induction buf using lineDecoder.induction_on generalizing c with
  | hnone buf hn =>
    rw [parseRequest_none check hc hn] at h
    cases h
    exact .inl hc
  | hsome buf line rest hn ih =>
    rw [parseRequest_line check hc hn] at h
    cases ht : takeLine check c line with
    | error e => simp [ht] at h
    | ok o =>
      rw [ht] at h
      cases o with
      | more d => exact ih (.inr (takeLine_more check hc ht)) h
      | ended d =>
        cases h
        exact .inr (by rw [(takeLine_ended check hc ht).2.2])
      | refused d =>
        cases h
        exact .inl (.inl (takeLine_refused check hc ht))

theorem call_state (c : HttpContext) (a : Call) (c' : HttpContext)
    (hc : c.Reading ∨ c.state = .kGotAll) (h : call check c a = some c') :
    c'.Reading ∨ c'.state = .kGotAll := by
  cases a with
  | reset =>
    cases h
    exact .inl (.inl rfl)
  | parseRequest buf =>
    rcases hc with hc | hc
    · simp only [call] at h
      split at h
      · rename_i hp
        cases h
        exact parseRequest_state check hc hp
      · cases h
    · have hstuck : parseRequest check c buf = none :=
        parseLoop_stuck check (by simp [Reading,hc]) buf _
      simp [call,hstuck] at h

theorem reading_of_run {calls : List Call} {c : HttpContext} (h : Run (call check) fresh calls c)
    (hg : c.gotAll = false) : c.Reading := by
  have hs := h.invariant (call_state check) (.inl (.inl rfl))
  rcases hs with hs | hs
  · exact hs
  · simp [gotAll,hs] at hg

/-- For every context the public calls reach and that has not got all, and every
content of the buffer: the call ends without an exception if and only if every line
it reads as a header has a value that is not blank. -/
theorem parseRequest_returns_iff {calls : List Call} {c : HttpContext}
    (h : Run (call check) fresh calls c) (hg : c.gotAll = false) (buf : ByteQueue) :
    (∃ r, parseRequest check c buf = some (.ok r)) ↔
      ∀ l ∈ headerBlock check c (lines buf), blankValue l = false :=
  returns_iff check (reading_of_run check h hg) buf

theorem parseRequest_returns_host :
    ∃ r, parseRequest (fun _ => true) fresh (text "GET / HTTP/1.1\r\nHost: x\r\n") = some (.ok r) := by
  refine (parseRequest_returns_iff (fun _ => true) (Run.refl fresh) (by decide) _).mpr ?_
  have hl : lines (text "GET / HTTP/1.1\r\nHost: x\r\n") = [text "GET / HTTP/1.1",text "Host: x"] := by
    have hfirst : nextLine (text "GET / HTTP/1.1\r\nHost: x\r\n") =
        some (text "GET / HTTP/1.1",text "Host: x\r\n") := by decide
    have hsecond : nextLine (text "Host: x\r\n") = some (text "Host: x",[]) := by decide
    rw [lines_some hfirst,lines_some hsecond,lines_none (by decide)]
  rw [hl]
  decide

/-- The peer's bytes `A:` as a header line: the search for the value answers `npos`. -/
theorem parseRequest_throws :
    ¬ ∀ (check : HttpRequest → Bool) (calls : List Call) (c : HttpContext),
      Run (call check) fresh calls c → c.gotAll = false → ∀ buf,
        ∃ r, parseRequest check c buf = some (.ok r) := by
  intro h
  obtain ⟨r,hr⟩ := h (fun _ => true) [] fresh (Run.refl fresh) (by decide)
    (text "GET / HTTP/1.1\r\nA:\r\n\r\n")
  have ht : parseRequest (fun _ => true) fresh (text "GET / HTTP/1.1\r\nA:\r\n\r\n") =
      some (.error .outOfRange) := by decide +kernel
  cases ht.symm.trans hr

end HttpContext
end GgLib
