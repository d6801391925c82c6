import GgLib.FormatToN
import GgLib.LogStreamCut
import GgLib.Logging

/-! A `Logger`: the header that its constructor streams, the values of its user, and the end of the
line that its destructor streams before the bytes go to `g_output`. -/
namespace GgLib

namespace LogStream

/-- What `grisu3_print_double` prints for a double. -/
structure Printed where
  text : List Byte
  fits : text.length ≤ kMaxNumericSize

def formatDouble (s : LogStream) (v : Printed) : LogStream :=
  if h : kMaxNumericSize ≤ s.buffer.avail then ⟨s.buffer.add v.text (Nat.le_trans v.fits h)⟩ else s

def insertFmt (s : LogStream) (pieces : List (List Byte)) : LogStream :=
  ⟨s.buffer.add (IteratorBuffer.formatToN pieces s.buffer.avail) (by
    rw [IteratorBuffer.formatToN_eq]
    exact List.length_take_le _ _)⟩

/-- Everything that has an `operator<<`: a format is given by the pieces of its text. -/
inductive Streamed
  | value (v : Insertion)
  | double (v : Printed)
  | format (pieces : List (List Byte))
  | buffer (v : FixedBuffer FixedBuffer.kSmallBuffer)

def stream (s : LogStream) : Streamed → LogStream
  | .value v => s.insert v
  | .double v => s.formatDouble v
  | .format pieces => s.insertFmt pieces
  | .buffer v => s.append v.data

namespace Streamed

/-- The room without which a value is left out. -/
def need : Streamed → ℕ
  | .value v => v.need
  | .double _ => kMaxNumericSize
  | _ => 0

def rendering : Streamed → List Byte
  | .value v => v.rendering
  | .double v => v.text
  | .format pieces => pieces.flatten
  | .buffer v => v.data

end Streamed

theorem insertFmt_data (s : LogStream) (pieces : List (List Byte)) :
    (s.insertFmt pieces).buffer.data = (s.buffer.data++pieces.flatten).take FixedBuffer.kSmallBuffer := by
  rw [← append_take,append,FixedBuffer.append_data,← IteratorBuffer.formatToN_eq]
  rfl

theorem formatDouble_data {s : LogStream} (h : kMaxNumericSize ≤ s.buffer.avail) (v : Printed) :
    (s.formatDouble v).buffer.data = (s.buffer.data++v.text).take FixedBuffer.kSmallBuffer := by
  have hfits := v.fits
  have havail : s.buffer.avail = FixedBuffer.kSmallBuffer-s.buffer.data.length := rfl
  have hlength := s.buffer.fits
  rw [formatDouble,dif_pos h,List.take_of_length_le (by rw [List.length_append]; omega)]
  rfl

theorem streams : BoundedText.Inserts FixedBuffer.kSmallBuffer Streamed.need Streamed.rendering stream
    fun s => s.buffer.data where
  fits s := s.buffer.fits
  leftOut s i h := by
    cases i with
    | value v => exact inserts.leftOut s v h
    | double v =>
      have hroom : ¬ kMaxNumericSize ≤ s.buffer.avail := Nat.not_le_of_lt h
      rw [stream,formatDouble,dif_neg hroom]
    | format pieces => exact absurd h (Nat.not_lt_zero _)
    | buffer v => exact absurd h (Nat.not_lt_zero _)
  appended s i h := by
    cases i with
    | value v => exact inserts.appended s v h
    | double v => exact formatDouble_data (Nat.le_of_not_lt h) v
    | format pieces => exact insertFmt_data s pieces
    | buffer v => exact append_take s v.data

end LogStream

open LogStream

namespace Logger

inductive LogLevel
  | TRACE | DEBUG | INFO | WARN | ERROR | FATAL
  deriving DecidableEq, Repr

def LogLevelName : LogLevel → List Byte
  | .TRACE => text "TRACE "
  | .DEBUG => text "DEBUG "
  | .INFO => text "INFO  "
  | .WARN => text "WARN  "
  | .ERROR => text "ERROR "
  | .FATAL => text "FATAL "

/-- `data_` of a `SourceFile`: the C string behind the last slash. -/
def sourceFile (filename : List Byte) : List Byte :=
  ((filename.takeWhile (· != 0)).reverse.takeWhile (· != 47)).reverse

/-- What a thread has at hand: the texts of its time and zone, its number and the messages of
`strerror_r`. -/
structure Context where
  time : Logging.Record
  tidString : List Byte
  strerror : ℤ → List Byte

/-- The public constructors. -/
inductive Construction
  | info
  | level (level : LogLevel)
  | function (level : LogLevel) (func : Option (List Byte))
  | system (toAbort : Bool) (errno : ℤ)

end Logger

structure Logger where
  stream : LogStream
  level : Logger.LogLevel
  basename : List Byte
  line : ℤ

namespace Logger

def formatTime (time : Logging.Record) : List (List Byte) :=
  [time.time,text ".",padded 48 6 time.microseconds,text "(",time.zoneAbbr,text ") "]

/-- `Impl`. -/
def create (c : Context) (level : LogLevel) (savedErrno : ℤ) (file : List Byte) (line : ℤ) : Logger :=
  let stream := LogStream.create.insertFmt (formatTime c.time)
  let stream := (stream.append c.tidString).append (LogLevelName level)
  let stream :=
    if savedErrno ≠ 0 then
      (stream.insert (.cString (some (c.strerror savedErrno)))).insertFmt
        [text " (errno=",numeral savedErrno,text ") "]
    else stream
  ⟨stream,level,sourceFile file,line⟩

def construct (c : Context) (file : List Byte) (line : ℤ) : Construction → Logger
  | .info => create c .INFO 0 file line
  | .level level => create c level 0 file line
  | .function level func =>
    let logger := create c level 0 file line
    { logger with stream := (logger.stream.insert (.cString func)).insert (.char 32) }
  | .system toAbort errno => create c (if toAbort then .FATAL else .ERROR) errno file line

variable (l : Logger)

def streamAll (values : List Streamed) : Logger := { l with stream := values.foldl LogStream.stream l.stream }

def suffix : List (List Byte) := [text " - ",l.basename,text ":",numeral l.line,text "\n"]

def finish : Logger := { l with stream := l.stream.insertFmt l.suffix }

/-- The destructor: what `g_output` gets, and whether it goes on to `g_flush` and `abort`. -/
def destroy : List Byte × Bool := (l.finish.stream.buffer.data,decide (l.level = .FATAL))

/-- What the constructor streams. -/
def header (c : Context) (level : LogLevel) (savedErrno : ℤ) : List Streamed :=
  [.format (formatTime c.time),.value (.string c.tidString),.value (.string (LogLevelName level))]++
    if savedErrno ≠ 0 then
      [.value (.cString (some (c.strerror savedErrno))),.format [text " (errno=",numeral savedErrno,text ") "]]
    else []

def Construction.header (c : Context) : Construction → List Streamed
  | .info => Logger.header c .INFO 0
  | .level l => Logger.header c l 0
  | .function l func => Logger.header c l 0++[.value (.cString func),.value (.char 32)]
  | .system toAbort errno => Logger.header c (if toAbort then .FATAL else .ERROR) errno

/-- The whole text of a record, to its end: numbers that do not find room are left out. -/
def fullText (c : Context) (file : List Byte) (line : ℤ) (k : Construction) (values : List Streamed) : List Byte :=
  (BoundedText.kept FixedBuffer.kSmallBuffer Streamed.need Streamed.rendering 0
    (k.header c++values++[.format (construct c file line k).suffix])).flatMap Streamed.rendering

variable (c : Context) (file : List Byte) (line : ℤ) (k : Construction) (values : List Streamed)

theorem create_stream (level : LogLevel) (savedErrno : ℤ) :
    (create c level savedErrno file line).stream =
      (header c level savedErrno).foldl LogStream.stream LogStream.create := by
  rw [create,header]
  split <;> rfl

theorem construct_stream :
    (construct c file line k).stream = (k.header c).foldl LogStream.stream LogStream.create := by
  cases k with
  | info => exact create_stream c file line _ _
  | level level => exact create_stream c file line _ _
  | function level func =>
    rw [Construction.header,List.foldl_append,← create_stream c file line]
    rfl
  | system toAbort errno => exact create_stream c file line _ _

theorem destroy_eq :
    (((construct c file line k).streamAll values).destroy).1 =
      (fullText c file line k values).take FixedBuffer.kSmallBuffer := by
  have hrun := streams.foldl LogStream.create (k.header c++values++[.format (construct c file line k).suffix])
  rw [List.foldl_append,List.foldl_append,← construct_stream c file line k] at hrun
  exact hrun

theorem fullText_eq : fullText c file line k values =
    (BoundedText.kept FixedBuffer.kSmallBuffer Streamed.need Streamed.rendering 0 (k.header c++values)).flatMap
      Streamed.rendering++(construct c file line k).suffix.flatten := by
  rw [fullText,BoundedText.kept_append_singleton (show Streamed.need (.format _) = 0 from rfl),List.flatMap_append,
    List.flatMap_singleton]
  rfl

theorem getLast_fullText : (fullText c file line k values).getLast? = some 10 := by
  have hnewline : text "\n" = [10] := rfl
  rw [fullText_eq,suffix,hnewline]
  simp

/-- For every logger and every sequence of values: the bytes for `g_output` are at most the size of
the buffer and end with a newline, exactly when the whole text fits into the buffer or its
last byte that does is a newline by itself. -/
theorem ends_line_iff :
    ((((construct c file line k).streamAll values).destroy).1.length ≤ FixedBuffer.kSmallBuffer ∧
      (((construct c file line k).streamAll values).destroy).1.getLast? = some 10) ↔
      (fullText c file line k values).length ≤ FixedBuffer.kSmallBuffer ∨
        (fullText c file line k values)[FixedBuffer.kSmallBuffer-1]? = some 10 := by
  rw [destroy_eq,and_iff_right (List.length_take_le _ _)]
  by_cases hfits : (fullText c file line k values).length ≤ FixedBuffer.kSmallBuffer
  · rw [List.take_of_length_le hfits]
    exact ⟨fun _ => .inl hfits,fun _ => getLast_fullText c file line k values⟩
  · have hlast : FixedBuffer.kSmallBuffer-1 < (fullText c file line k values).length := by omega
    rw [List.getLast?_take,if_neg (by decide),List.getElem?_eq_getElem hlast,Option.some_or]
    exact ⟨.inr,fun h => h.resolve_left hfits⟩

def midnight : Context where
  time := ⟨text "20220101 00:00:00",0,text "GMT",1640995200,none⟩
  tidString := text "140735 "
  strerror _ := text "Success"

theorem midnight_header :
    ((Construction.info.header midnight).flatMap Streamed.rendering).length = 43 := by decide

/-- A message that fills the buffer alone leaves no place for the end of its line. -/
theorem line_without_end : ¬ ∀ c file line k values,
    (((construct c file line k).streamAll values).destroy).1.length ≤ FixedBuffer.kSmallBuffer ∧
      (((construct c file line k).streamAll values).destroy).1.getLast? = some 10 := by
  intro h
  have hlast := (h midnight (text "main.cc") 1 .info [.value (filler FixedBuffer.kSmallBuffer)]).2
  have hneed : ∀ i ∈ Construction.info.header midnight++[.value (filler FixedBuffer.kSmallBuffer)],
      Streamed.need i = 0 := by
    simp [Construction.header,header,Streamed.need,Insertion.need,Insertion.isNumeric,filler]
  have hmessage : Streamed.rendering (.value (filler FixedBuffer.kSmallBuffer)) =
      List.replicate FixedBuffer.kSmallBuffer 97 := rfl
  have hroom : FixedBuffer.kSmallBuffer-43 ≤ (List.replicate FixedBuffer.kSmallBuffer (97 : Byte)).length := by
    rw [List.length_replicate]
    exact Nat.sub_le _ _
  rw [destroy_eq,fullText_eq,BoundedText.kept_of_need_eq_zero _ hneed,List.flatMap_append,List.flatMap_singleton,
    List.append_assoc,List.take_append,midnight_header,hmessage,List.take_append_of_le_length hroom,
    List.take_replicate,List.getLast?_append,List.getLast?_replicate,if_neg (by decide)] at hlast
  simp at hlast

end Logger
end GgLib
