import GgLib.HttpParserSafety

/-! When the loop of `parseRequest` ends. A line that is read leaves the buffer, but a context that
has got all neither reads a line nor leaves the loop. -/
namespace GgLib
namespace HttpContext

open ByteQueue LabelledSystem

variable (check : HttpRequest → Bool)

/-- The context that the loop leaves behind. The line that throws has not changed it. -/
def contextBehind : ℕ → HttpContext → ByteQueue → Option HttpContext
  | 0, _, _ => none
  | n+1, c, buf =>
    match turn check c buf with
    | .error _ => some c
    | .ok t => if t.hasMore then contextBehind n t.context t.buf else some t.context

/-- The context behind a public call, also one that throws; a call that does not end leaves none. -/
def use (c : HttpContext) : Call → Option HttpContext
  | .parseRequest buf => contextBehind check (buf.length+1) c buf
  | .reset => some c.reset

/-- The loop comes to its end within `n` iterations, and the call returns. -/
def EndsWithin (n : ℕ) (c : HttpContext) (buf : ByteQueue) : Prop := ∃ r, parseLoop check n c buf = some (.ok r)

theorem contextBehind_state {c c' : HttpContext} (hc : c.Reading) {n : ℕ} {buf : ByteQueue}
    (h : contextBehind check n c buf = some c') : c'.Reading ∨ c'.state = .kGotAll := by
  induction n generalizing c buf with
  | zero => cases h
  | succ n ih =>
    rw [contextBehind] at h
    cases hnext : buf.nextLine with
    | none =>
      rw [turn_none check hc hnext] at h
      cases h
      exact .inl hc
    | some p =>
      obtain ⟨line,rest⟩ := p
      rw [turn_line check hc hnext] at h
      cases ht : takeLine check c line with
      | error e =>
        rw [ht] at h
        cases h
        exact .inl hc
      | ok o =>
        rw [ht] at h
        cases o with
        | more d => exact ih (.inr (takeLine_more check hc ht)) h
        | ended d =>
          cases h
          obtain ⟨-,-,rfl⟩ := takeLine_ended check hc ht
          exact .inr rfl
        | refused d =>
          cases h
          exact .inl (.inl (takeLine_refused check hc ht))

theorem contextBehind_stuck {c : HttpContext} (hc : c.state = .kGotAll) (n : ℕ) (buf : ByteQueue) :
    contextBehind check n c buf = none := by
  have ht : turn check c buf = .ok ⟨true,true,c,buf⟩ := by
    simp only [turn,hc]
    rfl
  induction n with
  | zero => rfl
  | succ n ih =>
    rw [contextBehind,ht]
    exact ih

theorem use_state (c : HttpContext) (a : Call) (c' : HttpContext) (hc : c.Reading ∨ c.state = .kGotAll)
    (h : use check c a = some c') : c'.Reading ∨ c'.state = .kGotAll := by
  cases a with
  | reset =>
    cases h
    exact .inl (.inl rfl)
  | parseRequest buf =>
    rcases hc with hc | hc
    · exact contextBehind_state check hc h
    · rw [use,contextBehind_stuck check hc] at h
      cases h

/-- For every context that the public calls reach, and every content of the buffer whose header
values do not throw: the call returns after at most one iteration more than there are complete
lines if and only if the context has not got all. One that has got all never leaves the loop. -/
theorem parseRequest_ends_iff {calls : List Call} {c : HttpContext} (h : Run (use check) fresh calls c)
    (buf : ByteQueue) (hvalues : ∀ l ∈ headerBlock check c (lines buf), blankValue l = false) :
    (EndsWithin check ((lines buf).length+1) c buf ↔ c.gotAll = false) ∧
      (c.gotAll = true → ∀ n, parseLoop check n c buf = none) := by
  have hstuck : c.gotAll = true → ∀ n, parseLoop check n c buf = none := by
    intro hgot n
    refine parseLoop_stuck check ?_ buf n
    simp [Reading,of_decide_eq_true hgot]
  refine ⟨⟨?_,fun hnot => ?_⟩,hstuck⟩
  · rintro ⟨r,hr⟩
    rw [← Bool.not_eq_true]
    intro hgot
    rw [hstuck hgot] at hr
    cases hr
  · have hc : c.Reading := by
      refine (h.invariant (use_state check) (.inl (.inl rfl))).resolve_right fun hgot => ?_
      simp [gotAll,hgot] at hnot
    obtain ⟨r,hr⟩ := (returns_iff check hc buf).mpr hvalues
    refine ⟨r,?_⟩
    rw [parseLoop_enough check hc (Nat.lt_succ_self _) (Nat.lt_succ_of_le (length_lines_le buf))]
    exact hr

def oneHeader : ByteQueue := text "GET / HTTP/1.1\r\nHost: x\r\n\r\n"

theorem lines_oneHeader : lines oneHeader = [text "GET / HTTP/1.1",text "Host: x",[]] := by
  have hfirst : nextLine oneHeader = some (text "GET / HTTP/1.1",text "Host: x\r\n\r\n") := by decide
  have hsecond : nextLine (text "Host: x\r\n\r\n") = some (text "Host: x",text "\r\n") := by decide
  have hthird : nextLine (text "\r\n") = some ([],[]) := by decide
  rw [lines_some hfirst,lines_some hsecond,lines_some hthird,lines_none (by decide)]

theorem parseRequest_ends_iff_oneHeader : EndsWithin (fun _ => true) 4 fresh oneHeader := by
  have hends := parseRequest_ends_iff (fun _ => true) (Run.refl fresh) oneHeader
    (by rw [lines_oneHeader]; decide)
  rw [lines_oneHeader] at hends
  exact hends.1.mpr (by decide)

/-- The request is parsed, and `parseRequest` called again without a `reset`. -/
theorem parseRequest_spins :
    ¬ ∀ (check : HttpRequest → Bool) (calls : List Call) (c : HttpContext), Run (use check) fresh calls c →
      ∀ buf, (∀ l ∈ headerBlock check c (lines buf), blankValue l = false) →
        EndsWithin check ((lines buf).length+1) c buf := by
  intro h
  obtain ⟨c,hc⟩ : ∃ c, exec (use fun _ => true) fresh [.parseRequest oneHeader] = some c :=
    Option.isSome_iff_exists.mp (by decide +kernel)
  have hgot : (exec (use fun _ => true) fresh [.parseRequest oneHeader]).map gotAll = some true := by decide +kernel
  rw [hc] at hgot
  have hstate : c.state = .kGotAll := of_decide_eq_true (Option.some.inj hgot)
  obtain ⟨r,hr⟩ := h (fun _ => true) [.parseRequest oneHeader] c ((run_iff_exec _ _ _ _).mpr hc) []
    (by rw [lines_none (by rfl)]; simp [headerBlock,hstate])
  rw [parseLoop_stuck (fun _ => true) (by simp [Reading,hstate])] at hr
  cases hr

end HttpContext
end GgLib
