import GgLib.BufferLayout
import GgLib.FrameDecoder
import GgLib.HttpContext
import Mathlib.Logic.Relation

/-! `parseRequest` as a machine that reads complete lines. -/
namespace GgLib

namespace ByteQueue

theorem findCRLF_lt {q : ByteQueue} {n : ℕ} (h : q.findCRLF = some n) : n+2 ≤ q.length := by
  induction q using findCRLF.induct generalizing n with
  | case1 => cases h
  | case2 x => cases h
  | case3 x y q hc =>
    rw [findCRLF,if_pos hc] at h
    cases h
    simp
  | case4 x y q hc ih =>
    rw [findCRLF,if_neg hc] at h
    obtain ⟨m,hm,rfl⟩ := Option.map_eq_some_iff.mp h
    have := ih hm
    simp only [List.length_cons] at *
    omega

theorem findCRLF_append {q : ByteQueue} {n : ℕ} (h : q.findCRLF = some n) (r : ByteQueue) :
    findCRLF (q++r) = some n := by
  induction q using findCRLF.induct generalizing n with
  | case1 => cases h
  | case2 x => cases h
  | case3 x y q hc =>
    rw [findCRLF,if_pos hc] at h
    rwa [List.cons_append,List.cons_append,findCRLF,if_pos hc]
  | case4 x y q hc ih =>
    rw [findCRLF,if_neg hc] at h
    obtain ⟨m,hm,rfl⟩ := Option.map_eq_some_iff.mp h
    have hr := ih hm
    rw [List.cons_append] at hr
    rw [List.cons_append,List.cons_append,findCRLF,if_neg hc,hr]
    rfl

theorem findCRLF_split {q : ByteQueue} {n : ℕ} (h : q.findCRLF = some n) :
    q = q.take n++[CR,LF]++q.drop (n+2) := by
  induction q using findCRLF.induct generalizing n with
  | case1 => cases h
  | case2 x => cases h
  | case3 x y q hc =>
    rw [findCRLF,if_pos hc] at h
    cases h
    simp [hc.1,hc.2]
  | case4 x y q hc ih =>
    rw [findCRLF,if_neg hc] at h
    obtain ⟨m,hm,rfl⟩ := Option.map_eq_some_iff.mp h
    have hr := ih hm
    simpa using hr

def nextLine (q : ByteQueue) : Option (List Byte × ByteQueue) :=
  q.findCRLF.map fun n => (q.take n,q.drop (n+2))

def lineDecoder : FrameDecoder Byte (List Byte) where
  next := nextLine
  shorter := by
    intro q l rest h
    obtain ⟨n,hn,he⟩ := Option.map_eq_some_iff.mp h
    cases he
    have := findCRLF_lt hn
    rw [List.length_drop]
    omega
  extends_ := by
    intro q r l rest h
    obtain ⟨n,hn,he⟩ := Option.map_eq_some_iff.mp h
    cases he
    have hlt := findCRLF_lt hn
    rw [nextLine,findCRLF_append hn,Option.map_some,List.take_append_of_le_length (by omega),
      List.drop_append_of_le_length (by omega)]

def lines (q : ByteQueue) : List (List Byte) := (lineDecoder.frames q).1

theorem lines_none {q : ByteQueue} (h : nextLine q = none) : lines q = [] := by
  rw [lines,lineDecoder.frames_none h]

theorem lines_some {q rest : ByteQueue} {l : List Byte} (h : nextLine q = some (l,rest)) :
    lines q = l::lines rest := by
  rw [lines,lineDecoder.frames_some h]
  rfl

theorem length_lines_le (buf : ByteQueue) : (lines buf).length ≤ buf.length := by
  induction buf using lineDecoder.induction_on with
  | hnone buf hnext => rw [lines_none hnext]; exact Nat.zero_le _
  | hsome buf line rest hnext ih =>
    have hlt := lineDecoder.shorter _ _ _ hnext
    rw [lines_some hnext,List.length_cons]
    omega

def unlines (ls : List (List Byte)) : ByteQueue := ls.flatMap (·++[CR,LF])

@[simp] theorem unlines_nil : unlines [] = [] := rfl
@[simp] theorem unlines_cons (l : List Byte) (ls : List (List Byte)) :
    unlines (l::ls) = l++[CR,LF]++unlines ls := rfl
@[simp] theorem unlines_append (ls ms : List (List Byte)) :
    unlines (ls++ms) = unlines ls++unlines ms := List.flatMap_append

/-- No CR LF starts inside the line. -/
def Unbroken (l : List Byte) : Prop := findCRLF (l++[CR,LF]) = some l.length

theorem Unbroken.nextLine {l : List Byte} (h : Unbroken l) (q : ByteQueue) :
    nextLine (l++[CR,LF]++q) = some (l,q) := by
  rw [ByteQueue.nextLine,findCRLF_append h q]
  simp

theorem findCRLF_take {q : ByteQueue} {n : ℕ} (h : findCRLF q = some n) :
    findCRLF (q.take n++[CR,LF]) = some n := by
  induction q using findCRLF.induct generalizing n with
  | case1 => cases h
  | case2 x => cases h
  | case3 x y q hc =>
    rw [findCRLF,if_pos hc] at h
    cases h
    rfl
  | case4 x y q hc ih =>
    rw [findCRLF,if_neg hc] at h
    obtain ⟨m,hm,rfl⟩ := Option.map_eq_some_iff.mp h
    have hi := ih hm
    cases m with
    | zero =>
      have hne : ¬ (x = CR ∧ CR = LF) := fun h => absurd h.2 (by decide)
      simp [findCRLF,hne]
    | succ m => simpa [findCRLF,hc] using hi

theorem nextLine_split {q rest : ByteQueue} {l : List Byte} (h : nextLine q = some (l,rest)) :
    Unbroken l ∧ q = l++[CR,LF]++rest := by
  obtain ⟨n,hn,he⟩ := Option.map_eq_some_iff.mp h
  cases he
  refine ⟨?_,findCRLF_split hn⟩
  have hlt := findCRLF_lt hn
  rw [Unbroken,List.length_take,Nat.min_eq_left (by omega),findCRLF_take hn]

theorem lines_unlines_append {ls : List (List Byte)} (h : ∀ l ∈ ls, Unbroken l) (q : ByteQueue) :
    lines (unlines ls++q) = ls++lines q := by
  induction ls with
  | nil => rfl
  | cons l ls ih =>
    have hl := (h l (by simp)).nextLine (unlines ls++q)
    rw [unlines_cons,List.append_assoc _ (unlines ls),lines_some hl,
      ih fun m hm => h m (by simp [hm])]
    rfl

end ByteQueue

namespace HttpContext

open ByteQueue StringView

variable (check : HttpRequest → Bool)

def Reading (c : HttpContext) : Prop :=
  c.state = .kExpectRequestLine ∨ c.state = .kExpectHeaders

inductive LineOutcome
  | more (c : HttpContext)
  | ended (c : HttpContext)
  | refused (c : HttpContext)

/-- What one complete line does to a context that expects it. -/
def takeLine (c : HttpContext) (line : List Byte) : Except OutOfRange LineOutcome :=
  match c.state with
  | .kExpectRequestLine => do
    let (accepted,c') ← requestLine check c line
    return if accepted then .more c' else .refused c'
  | _ => do
    let (hasMore,c') ← headerLine c line
    return if hasMore then .more c' else .ended c'

/-- A header line whose value, the text after the first colon, has only spaces. -/
def blankValue (line : List Byte) : Bool :=
  match find line COLON 0 with
  | none => false
  | some i => (line.drop (i+1)).all (· == SP)

theorem setTarget_ok (r : HttpRequest) (pathQuery : List Byte) :
    ∃ r', setTarget r pathQuery = .ok r' := by
  rw [setTarget]
  cases h : find pathQuery QUESTION 0 with
  | none => exact ⟨_,rfl⟩
  | some i =>
    have hi := (find_eq_some h).2
    simp only [substr_some (Nat.zero_le _),substr_some (Nat.le_of_lt hi),bind,Except.bind]
    exact ⟨_,rfl⟩

theorem processRequestLine_ok (r : HttpRequest) (line : List Byte) :
    ∃ p, processRequestLine r line = .ok p := by
  rw [processRequestLine]
  cases h : find line SP 0 with
  | none => exact ⟨_,rfl⟩
  | some i =>
    simp only [substr_some (Nat.zero_le _),bind,Except.bind]
    split
    · cases h' : find line SP (i+1) with
      | none => exact ⟨_,rfl⟩
      | some j =>
        have hj := find_eq_some h'
        obtain ⟨r',hr'⟩ := setTarget_ok
          (r.setMethod ((line.drop 0).take ((some i).getD line.length))).2
          ((line.drop (i+1)).take ((some (j-(i+1))).getD line.length))
        simp only [substr_some (show i+1 ≤ line.length by omega),
          substr_some (show j+1 ≤ line.length by omega),hr']
        exact ⟨_,rfl⟩
    · exact ⟨_,rfl⟩

theorem requestLine_ok (c : HttpContext) (line : List Byte) :
    ∃ a c', requestLine check c line = .ok (a,c') ∧
      c'.state = if a then .kExpectHeaders else c.state := by
  obtain ⟨p,hp⟩ := processRequestLine_ok c.request line
  simp only [requestLine,hp,bind,Except.bind]
  split
  · exact ⟨_,_,rfl,rfl⟩
  · exact ⟨_,_,rfl,rfl⟩

theorem headerLine_no_colon {line : List Byte} (h : COLON ∉ line) (c : HttpContext) :
    headerLine c line = .ok (false,{ c with state := .kGotAll }) := by
  simp [headerLine,find_eq_none.mpr h,pure,Except.pure]

/-- With a colon the key is always in range, and the value is exactly when it is not blank. -/
theorem headerLine_colon {line : List Byte} (h : COLON ∈ line) (c : HttpContext) :
    (blankValue line = true ∧ headerLine c line = .error .outOfRange) ∨
      (blankValue line = false ∧ ∃ r, headerLine c line = .ok (true,{ c with request := r })) := by
  cases hf : find line COLON 0 with
  | none => exact absurd h (find_eq_none.mp hf)
  | some i =>
    have hblank : blankValue line = true ↔ findFirstNotOf line SP (i+1) = none := by
      simp [blankValue,hf,findFirstNotOf_eq_none]
    cases hv : findFirstNotOf line SP (i+1) with
    | none =>
      left
      refine ⟨hblank.mpr hv,?_⟩
      simp [headerLine,hf,succPos,hv,bind,Except.bind,substr]
    | some j =>
      right
      have hj := (findFirstNotOf_eq_some hv).2
      refine ⟨by rw [← Bool.not_eq_true,hblank,hv]; simp,?_⟩
      simp only [headerLine,hf,succPos,hv,substr_some (Nat.zero_le _),substr_some (Nat.le_of_lt hj),
        bind,Except.bind]
      exact ⟨_,rfl⟩

theorem takeLine_requestLine {c : HttpContext} (h : c.state = .kExpectRequestLine)
    (line : List Byte) :
    (∃ c', takeLine check c line = .ok (.more c') ∧ c'.state = .kExpectHeaders ∧
        requestLine check c line = .ok (true,c')) ∨
      (∃ c', takeLine check c line = .ok (.refused c') ∧ c'.state = .kExpectRequestLine ∧
        requestLine check c line = .ok (false,c')) := by
  obtain ⟨a,c',hr,hs⟩ := requestLine_ok check c line
  cases a with
  | true => exact .inl ⟨c',by simp [takeLine,h,hr,bind,Except.bind,pure,Except.pure],hs,hr⟩
  | false => exact .inr ⟨c',by simp [takeLine,h,hr,bind,Except.bind,pure,Except.pure],by simpa [h] using hs,hr⟩

theorem takeLine_headers {c : HttpContext} (h : c.state = .kExpectHeaders) (line : List Byte) :
    (COLON ∉ line ∧ takeLine check c line = .ok (.ended { c with state := .kGotAll })) ∨
      (COLON ∈ line ∧ blankValue line = true ∧ takeLine check c line = .error .outOfRange) ∨
      (COLON ∈ line ∧ blankValue line = false ∧
        ∃ r, takeLine check c line = .ok (.more { c with request := r })) := by
  by_cases hc : COLON ∈ line
  · rcases headerLine_colon hc c with ⟨hb,he⟩ | ⟨hb,r,hr⟩
    · exact .inr (.inl ⟨hc,hb,by simp [takeLine,h,he,bind,Except.bind]⟩)
    · exact .inr (.inr ⟨hc,hb,r,by simp [takeLine,h,hr,bind,Except.bind,pure,Except.pure]⟩)
  · exact .inl ⟨hc,by simp [takeLine,h,headerLine_no_colon hc,bind,Except.bind,pure,Except.pure]⟩

theorem takeLine_more {c c' : HttpContext} {line : List Byte} (hc : c.Reading)
    (h : takeLine check c line = .ok (.more c')) : c'.state = .kExpectHeaders := by
  rcases hc with hc | hc
  · rcases takeLine_requestLine check hc line with ⟨d,hd,hs,-⟩ | ⟨d,hd,-,-⟩
    · cases hd.symm.trans h
      exact hs
    · cases hd.symm.trans h
  · rcases takeLine_headers check hc line with ⟨-,hd⟩ | ⟨-,-,hd⟩ | ⟨-,-,r,hd⟩
    · cases hd.symm.trans h
    · cases hd.symm.trans h
    · cases hd.symm.trans h
      exact hc

theorem takeLine_ended {c c' : HttpContext} {line : List Byte} (hc : c.Reading)
    (h : takeLine check c line = .ok (.ended c')) :
    c.state = .kExpectHeaders ∧ COLON ∉ line ∧ c' = { c with state := .kGotAll } := by
  rcases hc with hc | hc
  · rcases takeLine_requestLine check hc line with ⟨d,hd,-,-⟩ | ⟨d,hd,-,-⟩ <;> cases hd.symm.trans h
  · rcases takeLine_headers check hc line with ⟨hn,hd⟩ | ⟨-,-,hd⟩ | ⟨-,-,r,hd⟩ <;>
      cases hd.symm.trans h
    exact ⟨hc,hn,rfl⟩

theorem takeLine_refused {c c' : HttpContext} {line : List Byte} (hc : c.Reading)
    (h : takeLine check c line = .ok (.refused c')) : c'.state = .kExpectRequestLine := by
  rcases hc with hc | hc
  · rcases takeLine_requestLine check hc line with ⟨d,hd,-,-⟩ | ⟨d,hd,hs,-⟩ <;> cases hd.symm.trans h
    exact hs
  · rcases takeLine_headers check hc line with ⟨-,hd⟩ | ⟨-,-,hd⟩ | ⟨-,-,r,hd⟩ <;> cases hd.symm.trans h

/-- The loop iteration that a line's outcome amounts to. -/
def LineOutcome.turn (buf rest : ByteQueue) : LineOutcome → Turn
  | .more c => ⟨true,true,c,rest⟩
  | .ended c => ⟨true,false,c,rest⟩
  | .refused c => ⟨false,false,c,buf⟩

theorem turn_none {c : HttpContext} (hc : c.Reading) {buf : ByteQueue} (h : buf.nextLine = none) :
    turn check c buf = .ok ⟨true,false,c,buf⟩ := by
  have hn : buf.findCRLF = none := Option.map_eq_none_iff.mp h
  rcases hc with hc | hc <;> simp only [turn,hc,hn] <;> rfl

theorem turn_line {c : HttpContext} (hc : c.Reading) {buf rest : ByteQueue} {line : List Byte}
    (h : buf.nextLine = some (line,rest)) :
    turn check c buf = (takeLine check c line).map (LineOutcome.turn buf rest) := by
  obtain ⟨n,hn,he⟩ := Option.map_eq_some_iff.mp h
  cases he
  rcases hc with hc | hc
  · obtain ⟨a,c',hr,-⟩ := requestLine_ok check c (buf.take n)
    cases a <;> simp [turn,takeLine,hc,hn,hr,bind,Except.bind,pure,Except.pure,Except.map,
      LineOutcome.turn,dropFront]
  · cases hr : headerLine c (buf.take n) with
    | error e => simp [turn,takeLine,hc,hn,hr,bind,Except.bind,Except.map]
    | ok p =>
      rcases p with ⟨m,c'⟩
      cases m <;> simp [turn,takeLine,hc,hn,hr,bind,Except.bind,pure,Except.pure,Except.map,
        LineOutcome.turn,dropFront]

/-- What `n+1` iterations return from a line's outcome. -/
def LineOutcome.resume (n : ℕ) (buf rest : ByteQueue) :
    LineOutcome → Option (Except OutOfRange (Bool × HttpContext × ByteQueue))
  | .more c => parseLoop check n c rest
  | .ended c => some (.ok (true,c,rest))
  | .refused c => some (.ok (false,c,buf))

theorem parseLoop_none {c : HttpContext} (hc : c.Reading) {buf : ByteQueue}
    (h : buf.nextLine = none) (n : ℕ) : parseLoop check (n+1) c buf = some (.ok (true,c,buf)) := by
  rw [parseLoop,turn_none check hc h]
  rfl

theorem parseLoop_line {c : HttpContext} (hc : c.Reading) {buf rest : ByteQueue} {line : List Byte}
    (h : buf.nextLine = some (line,rest)) (n : ℕ) :
    parseLoop check (n+1) c buf =
      match takeLine check c line with
      | .error e => some (.error e)
      | .ok o => o.resume check n buf rest := by
  rw [parseLoop,turn_line check hc h]
  cases takeLine check c line with
  | error e => rfl
  | ok o => cases o <;> rfl

/-- More iterations than there are complete lines give one and the same result. -/
theorem parseLoop_enough {c : HttpContext} (hc : c.Reading) {buf : ByteQueue} {n m : ℕ}
    (hn : (lines buf).length < n) (hm : (lines buf).length < m) :
    parseLoop check n c buf = parseLoop check m c buf := by
  obtain ⟨n,rfl⟩ : ∃ k, n = k+1 := ⟨n-1,by omega⟩
  obtain ⟨m,rfl⟩ : ∃ k, m = k+1 := ⟨m-1,by omega⟩
  induction buf using lineDecoder.induction_on generalizing c n m with
  | hnone buf hnext => rw [parseLoop_none check hc hnext,parseLoop_none check hc hnext]
  | hsome buf line rest hnext ih =>
    rw [lines_some hnext,List.length_cons] at hn hm
    rw [parseLoop_line check hc hnext,parseLoop_line check hc hnext]
    cases ht : takeLine check c line with
    | error e => rfl
    | ok o =>
      cases o with
      | more c' =>
        obtain ⟨n,rfl⟩ : ∃ k, n = k+1 := ⟨n-1,by omega⟩
        obtain ⟨m,rfl⟩ : ∃ k, m = k+1 := ⟨m-1,by omega⟩
        exact ih (.inr (takeLine_more check hc ht)) n (by omega) m (by omega)
      | ended c' => rfl
      | refused c' => rfl

theorem parseLoop_fuel {c : HttpContext} (hc : c.Reading) {buf : ByteQueue} {n : ℕ}
    (h : buf.length < n) : parseLoop check n c buf = parseRequest check c buf := by
  have hlines := length_lines_le buf
  rw [parseRequest]
  exact parseLoop_enough check hc (by omega) (by omega)

theorem parseRequest_none {c : HttpContext} (hc : c.Reading) {buf : ByteQueue}
    (h : buf.nextLine = none) : parseRequest check c buf = some (.ok (true,c,buf)) :=
  parseLoop_none check hc h _

theorem parseRequest_line {c : HttpContext} (hc : c.Reading) {buf rest : ByteQueue}
    {line : List Byte} (h : buf.nextLine = some (line,rest)) :
    parseRequest check c buf =
      match takeLine check c line with
      | .error e => some (.error e)
      | .ok (.more c') => parseRequest check c' rest
      | .ok (.ended c') => some (.ok (true,c',rest))
      | .ok (.refused c') => some (.ok (false,c',buf)) := by
  rw [parseRequest,parseLoop_line check hc h]
  cases ht : takeLine check c line with
  | error e => rfl
  | ok o =>
    cases o with
    | more c' =>
      exact parseLoop_fuel check (.inr (takeLine_more check hc ht)) (lineDecoder.shorter _ _ _ h)
    | ended c' => rfl
    | refused c' => rfl

theorem parseLoop_stuck {c : HttpContext} (hc : ¬ c.Reading) (buf : ByteQueue) (n : ℕ) :
    parseLoop check n c buf = none := by
  have ht : turn check c buf = .ok ⟨true,true,c,buf⟩ := by
    cases hs : c.state with
    | kExpectRequestLine => exact absurd (.inl hs) hc
    | kExpectHeaders => exact absurd (.inr hs) hc
    | kExpectBody => simp only [turn,hs]; rfl
    | kGotAll => simp only [turn,hs]; rfl
  induction n with
  | zero => rfl
  | succ n ih =>
    rw [parseLoop,ht]
    exact ih

theorem turn_buf {c : HttpContext} {buf : ByteQueue} {t : Turn} (h : turn check c buf = .ok t) :
    t.buf = buf ∨ ∃ crlf, buf.findCRLF = some crlf ∧ t.buf = buf.dropFront (crlf+2) := by
  rw [turn] at h
  split at h
  · split at h
    · rename_i crlf hcrlf
      obtain ⟨accepted,c',hline,-⟩ := requestLine_ok check c (buf.take crlf)
      rw [hline] at h
      cases accepted <;> cases h
      · exact .inl rfl
      · exact .inr ⟨crlf,hcrlf,rfl⟩
    · cases h
      exact .inl rfl
  · split at h
    · rename_i crlf hcrlf
      cases hline : headerLine c (buf.take crlf) with
      | error e =>
        rw [hline] at h
        cases h
      | ok p =>
        rw [hline] at h
        cases h
        exact .inr ⟨crlf,hcrlf,rfl⟩
    · cases h
      exact .inl rfl
  · cases h
    exact .inl rfl
  · cases h
    exact .inl rfl

end HttpContext

namespace Buffer

/-- The caller takes the line before the first CR LF off the buffer. -/
def TakesLine (b b' : Buffer) : Prop := ∃ crlf, b.findCRLF = some crlf ∧ b' = b.retrieveUntil (crlf+2)

theorem retrieveUntil_spec {b : Buffer} (h : b.Wf) {crlf : ℕ} (hcrlf : b.findCRLF = some crlf) :
    (b.retrieveUntil (crlf+2)).Wf ∧
      (b.retrieveUntil (crlf+2)).toStringView = ByteQueue.dropFront b.toStringView (crlf+2) := by
  have hreadable : crlf+2 ≤ b.readableBytes := by
    rw [readableBytes_eq h]
    exact ByteQueue.findCRLF_lt hcrlf
  exact retrieve_spec h hreadable

theorem parseLoop_takesLines (check : HttpRequest → Bool) {n : ℕ} {b : Buffer} (hwf : b.Wf) {c c' : HttpContext}
    {ok : Bool} {rest : ByteQueue} (h : HttpContext.parseLoop check n c b.toStringView = some (.ok (ok,c',rest))) :
    ∃ b', Relation.ReflTransGen TakesLine b b' ∧ b'.Wf ∧ b'.toStringView = rest := by
  induction n generalizing b c with
  | zero => cases h
  | succ n ih =>
    rw [HttpContext.parseLoop] at h
    cases hturn : HttpContext.turn check c b.toStringView with
    | error e =>
      rw [hturn] at h
      cases h
    | ok t =>
      -- The buffer behind the iteration.
      obtain ⟨b₁,hreach,hwf₁,hview⟩ : ∃ b₁, Relation.ReflTransGen TakesLine b b₁ ∧ b₁.Wf ∧ b₁.toStringView = t.buf := by
        rcases HttpContext.turn_buf check hturn with hbuf | ⟨crlf,hcrlf,hbuf⟩
        · exact ⟨b,.refl,hwf,hbuf.symm⟩
        · obtain ⟨hwf₁,hview⟩ := retrieveUntil_spec hwf hcrlf
          exact ⟨_,.single ⟨crlf,hcrlf,rfl⟩,hwf₁,hview.trans hbuf.symm⟩
      simp only [hturn] at h
      split at h
      · rw [← hview] at h
        obtain ⟨b',hrest,hspec⟩ := ih hwf₁ h
        exact ⟨b',hreach.trans hrest,hspec⟩
      · cases h
        exact ⟨b₁,hreach,hwf₁,hview⟩

/-- The bytes that `parseRequest` leaves are those of the buffer behind its calls of `findCRLF` and `retrieveUntil`. -/
theorem parseRequest_takesLines (check : HttpRequest → Bool) {b : Buffer} (hwf : b.Wf) {c c' : HttpContext} {ok : Bool}
    {rest : ByteQueue} (h : HttpContext.parseRequest check c b.toStringView = some (.ok (ok,c',rest))) :
    ∃ b', Relation.ReflTransGen TakesLine b b' ∧ b'.Wf ∧ b'.toStringView = rest :=
  parseLoop_takesLines check hwf h

end Buffer
end GgLib
