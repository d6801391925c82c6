import GgLib.FixedBuffer
import GgLib.StringView
import GgLib.LabelledSystem

/-! `AsyncLogging`: any threads call `append`, the back-end thread runs `threadFunc`, and the
owner calls `start` and `stop`. A step is one critical section of `mutex_`, or one statement
of the back-end outside of it. A line is the number of its `append`. -/
namespace GgLib

open FixedBuffer

namespace AsyncLogging

abbrev Buffer := FixedBuffer kLargeBuffer

/-- `std::unique_ptr<Buffer>`. -/
abbrev BufferPtr := Option Buffer

/-- Where `threadFunc` stands: before `start()`, before `countDown`, before the loop, before
the test of `running_`, before and in the critical section, behind it, in the loop that hands
the buffers to `output`, before the two refills, before `clear`, behind the loop, or at an
assertion that failed or a null pointer that was dereferenced. -/
inductive Phase
  | created | starting | opening | testing | locking | waiting | dropping
  | writing (todo : List BufferPtr)
  | refilling1 | refilling2 | clearing | returned | failed
  deriving DecidableEq

/-- Where the call of `stop()` stands. -/
inductive StopPc
  | idle | called | stored | notified | returned
  deriving DecidableEq, Repr

/-- What one swap took over, and the notice that is written when it is too much. -/
structure Batch where
  pieces : List (List Byte)
  notice : List Byte
  deriving DecidableEq, Repr

namespace Batch

def taken (b : Batch) : List Byte := b.pieces.flatten

/-- Of more than 16 buffers the first two are written, behind the notice. -/
def written (b : Batch) : List Byte :=
  if 16 < b.pieces.length then b.notice++(b.pieces.take 2).flatten else b.pieces.flatten

end Batch

/-- `now` is the text of `Timestamp::now()`. -/
inductive Label
  | append (line : List Byte)
  | ret (line : ℕ)
  | start
  | advance (now : List Byte)
  | stop
  | advanceStop
  deriving DecidableEq, Repr

end AsyncLogging

/-- `output` are the bytes given to `LogFile`. The last four fields record the lines in the
order of their critical sections, the ones whose `append` is still to return, the ones whose
`append` returned before `stop()` was called, and what the swaps took over. -/
structure AsyncLogging where
  running : Bool
  latch : ℕ
  currentBuffer : AsyncLogging.BufferPtr
  nextBuffer : AsyncLogging.BufferPtr
  buffers : List AsyncLogging.BufferPtr
  Buffer1 : AsyncLogging.BufferPtr
  Buffer2 : AsyncLogging.BufferPtr
  toWrite : List AsyncLogging.BufferPtr
  output : List Byte
  phase : AsyncLogging.Phase
  stopPc : AsyncLogging.StopPc
  lines : List (List Byte)
  inAppend : List ℕ
  accepted : List ℕ
  batches : List AsyncLogging.Batch

namespace AsyncLogging

/-- The constructor. -/
def create : AsyncLogging where
  running := false
  latch := 1
  currentBuffer := some .empty
  nextBuffer := some .empty
  buffers := []
  Buffer1 := none
  Buffer2 := none
  toWrite := []
  output := []
  phase := .created
  stopPc := .idle
  lines := []
  inAppend := []
  accepted := []
  batches := []

/-- What a pointer owns. -/
def bytes (p : BufferPtr) : List Byte :=
  match p with
  | some buffer => buffer.data
  | none => []

/-- The line of `threadFunc` about dropped buffers, in a `char[256]`. -/
def notice (now : List Byte) (dropped : ℕ) : List Byte :=
  (text "Dropped log messages at "++now++text ", "++text (toString dropped)++text " larger buffers\n").take 255

variable (w : AsyncLogging)

/-- The critical section of `append`. -/
def append (line : List Byte) : AsyncLogging :=
  match w.currentBuffer with
  | none => { w with phase := .failed }
  | some buffer =>
    let w := { w with lines := w.lines++[line], inAppend := w.inAppend++[w.lines.length] }
    if line.length < buffer.avail then { w with currentBuffer := some (buffer.append line) }
    else
      let next : Buffer :=
        match w.nextBuffer with
        | some next => next
        | none => .empty
      { w with
        buffers := w.buffers++[some buffer]
        currentBuffer := some (next.append line)
        nextBuffer := none }

/-- The critical section of `threadFunc` behind the wait. -/
def swap : AsyncLogging :=
  let w := { w with buffers := w.buffers++[w.currentBuffer], currentBuffer := w.Buffer1, Buffer1 := none }
  let w := { w with toWrite := w.buffers, buffers := w.toWrite, phase := .dropping }
  if w.nextBuffer = none then { w with nextBuffer := w.Buffer2, Buffer2 := none } else w

/-- Pop the last buffer of `toWrite` and reset it. -/
def popReset : Option (BufferPtr × List BufferPtr) :=
  match w.toWrite.getLast? with
  | some (some buffer) => some (some buffer.reset,w.toWrite.dropLast)
  | some none => none
  | none => none

/-- The next step of `threadFunc`. -/
def advance (now : List Byte) : Option AsyncLogging :=
  match w.phase with
  | .created => none
  | .starting =>
    if w.running then some { w with latch := w.latch-1, phase := .opening } else some { w with phase := .failed }
  | .opening => some { w with Buffer1 := some .empty, Buffer2 := some .empty, toWrite := [], phase := .testing }
  | .testing =>
    if w.running then
      if w.Buffer1 = some .empty ∧ w.Buffer2 = some .empty ∧ w.toWrite = [] then some { w with phase := .locking }
      else some { w with phase := .failed }
    else some { w with phase := .returned }
  | .locking => if w.buffers = [] then some { w with phase := .waiting } else some w.swap
  | .waiting => some w.swap
  | .dropping =>
    if w.toWrite = [] then some { w with phase := .failed }
    else
      let w := { w with batches := w.batches++[Batch.mk (w.toWrite.map bytes) (notice now (w.toWrite.length-2))] }
      if 16 < w.toWrite.length then
        some
          { w with
            output := w.output++notice now (w.toWrite.length-2)
            toWrite := w.toWrite.take 2
            phase := .writing (w.toWrite.take 2) }
      else some { w with phase := .writing w.toWrite }
  | .writing (some buffer::todo) => some { w with output := w.output++buffer.data, phase := .writing todo }
  | .writing (none::_) => some { w with phase := .failed }
  | .writing [] => some { w with toWrite := w.toWrite.take 2, phase := .refilling1 }
  | .refilling1 =>
    if w.Buffer1 = none then
      match w.popReset with
      | some (buffer,toWrite) => some { w with Buffer1 := buffer, toWrite, phase := .refilling2 }
      | none => some { w with phase := .failed }
    else some { w with phase := .refilling2 }
  | .refilling2 =>
    if w.Buffer2 = none then
      match w.popReset with
      | some (buffer,toWrite) => some { w with Buffer2 := buffer, toWrite, phase := .clearing }
      | none => some { w with phase := .failed }
    else some { w with phase := .clearing }
  | .clearing => some { w with toWrite := [], phase := .testing }
  | .returned => none
  | .failed => none

/-- The rest of `stop()`: the store of `running_`, the notification, and the return of `join`. -/
def advanceStop : Option AsyncLogging :=
  match w.stopPc with
  | .idle => none
  | .called => some { w with running := false, stopPc := .stored }
  | .stored => some { w with stopPc := .notified }
  | .notified => if w.phase = .returned then some { w with stopPc := .returned } else none
  | .returned => none

/-- The owner calls `stop()` behind `start()`, which returns when the latch is down. -/
def step : Label → Option AsyncLogging
  | .append line => if w.phase = .failed then none else some (w.append line)
  | .ret line =>
    if line ∈ w.inAppend then
      let w := { w with inAppend := w.inAppend.erase line }
      if w.stopPc = .idle then some { w with accepted := w.accepted++[line] } else some w
    else none
  | .start => if w.phase = .created then some { w with running := true, phase := .starting } else none
  | .advance now => w.advance now
  | .stop => if w.latch = 0 ∧ w.stopPc = .idle then some { w with stopPc := .called } else none
  | .advanceStop => w.advanceStop

end AsyncLogging
end GgLib
