import GgLib.ByteQueue
import Mathlib.Data.List.TakeDrop
import Mathlib.Tactic.Common

/-! `FixedBuffer<SIZE>`: the bytes before `cur_`, of which there are at most `SIZE`. -/
namespace GgLib

structure FixedBuffer (SIZE : ℕ) where
  data : List Byte
  fits : data.length ≤ SIZE
  deriving DecidableEq, Repr

namespace FixedBuffer

def kSmallBuffer : ℕ := 4000
def kLargeBuffer : ℕ := 4000*1000

variable {SIZE : ℕ}

def empty : FixedBuffer SIZE := ⟨[],Nat.zero_le _⟩

def length (b : FixedBuffer SIZE) : ℕ := b.data.length

def avail (b : FixedBuffer SIZE) : ℕ := SIZE-b.length

/-- What does not fit is cut off. -/
def append (b : FixedBuffer SIZE) (buf : List Byte) : FixedBuffer SIZE where
  data := b.data++buf.take (if b.avail < buf.length then b.avail else buf.length)
  fits := by
    have hfits := b.fits
    have hlen : (if b.avail < buf.length then b.avail else buf.length) ≤ b.avail := by
      split <;> omega
    have havail : b.avail = SIZE-b.data.length := rfl
    rw [List.length_append,List.length_take]
    omega

/-- `add` behind bytes that were written at `current()`. -/
def add (b : FixedBuffer SIZE) (written : List Byte) (h : written.length ≤ b.avail) : FixedBuffer SIZE where
  data := b.data++written
  fits := by
    have hfits := b.fits
    have havail : b.avail = SIZE-b.data.length := rfl
    rw [List.length_append]
    omega

def reset (_ : FixedBuffer SIZE) : FixedBuffer SIZE := empty

theorem append_data (b : FixedBuffer SIZE) (buf : List Byte) : (b.append buf).data = b.data++buf.take b.avail := by
  show b.data++buf.take (if b.avail < buf.length then b.avail else buf.length) = _
  split
  · rfl
  · rename_i hle
    rw [List.take_length,List.take_of_length_le (Nat.le_of_not_lt hle)]

theorem append_of_le {b : FixedBuffer SIZE} {buf : List Byte} (h : buf.length ≤ b.avail) :
    (b.append buf).data = b.data++buf := by
  rw [append_data,List.take_of_length_le h]

theorem append_of_empty {b : FixedBuffer SIZE} (h : b.data = []) (buf : List Byte) :
    (b.append buf).data = buf.take SIZE := by
  have havail : b.avail = SIZE := by simp [avail,length,h]
  rw [append_data,havail,h,List.nil_append]

end FixedBuffer
end GgLib
