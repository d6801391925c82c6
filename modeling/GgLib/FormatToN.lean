import GgLib.StringView
import Mathlib.Tactic.Common

/-! `fmt::format_to_n` into memory: the `iterator_buffer` with `fixed_buffer_traits`, to which the
formatter appends its pieces. -/
namespace GgLib

/-- `data` are the `size()` bytes of the buffer. These lie behind `out_`, until the place there is
used up and the buffer goes over to its own `data_`; `out` are the bytes before `out_`. -/
structure IteratorBuffer where
  limit : ℕ
  count : ℕ
  own : Bool
  data : List Byte
  out : List Byte
  fits : data.length ≤ if own then 256 else limit

namespace IteratorBuffer

def buffer_size : ℕ := 256

def create (n : ℕ) : IteratorBuffer := ⟨n,0,false,[],[],Nat.zero_le _⟩

variable (b : IteratorBuffer)

def size : ℕ := b.data.length

def capacity : ℕ := if b.own then buffer_size else b.limit

theorem size_le_capacity : b.size ≤ b.capacity := b.fits

/-- What is left over at the limit is dropped. -/
def flush : IteratorBuffer where
  limit := b.limit
  count := b.count+b.size
  own := true
  data := []
  out := if b.own then b.out else b.out++b.data.take (min b.size (b.limit-b.count))
  fits := Nat.zero_le _

def grow : IteratorBuffer := if b.size = b.capacity then b.flush else b

def try_reserve (new_capacity : ℕ) : IteratorBuffer := if b.capacity < new_capacity then b.grow else b

theorem size_lt_try_reserve {new_capacity : ℕ} (h : b.size < new_capacity) :
    (b.try_reserve new_capacity).size < (b.try_reserve new_capacity).capacity := by
  have hfits := b.size_le_capacity
  rw [try_reserve,grow]
  split
  · split
    · exact (by decide : 0 < buffer_size)
    · omega
  · omega

/-- The bytes that are copied behind the others. -/
def copy (bytes : List Byte) (h : b.size+bytes.length ≤ b.capacity) : IteratorBuffer where
  limit := b.limit
  count := b.count
  own := b.own
  data := b.data++bytes
  out := b.out
  fits := by
    rw [List.length_append]
    exact h

/-- The free part of the buffer is filled, again and again. -/
def append (b : IteratorBuffer) (bytes : List Byte) : IteratorBuffer :=
  if hbytes : bytes = [] then b
  else
    let r := b.try_reserve (b.size+bytes.length)
    let count := min (r.capacity-r.size) bytes.length
    append (r.copy (bytes.take count) (by
      have hfits := r.size_le_capacity
      rw [List.length_take]
      omega)) (bytes.drop count)
termination_by bytes.length
decreasing_by
  have hpos := List.length_pos_iff.mpr hbytes
  have hroom := b.size_lt_try_reserve (show b.size < b.size+bytes.length by omega)
  rw [List.length_drop]
  omega

/-- `formatToN`: the bytes from `buf` to `result.out`. -/
def formatToN (pieces : List (List Byte)) (n : ℕ) : List Byte := (pieces.foldl append (create n)).flush.out

/-- What a buffer with the limit `n` holds behind a text: all of it, or what fits before `out_`. -/
def Holds (n : ℕ) (formatted : List Byte) : Prop :=
  b.limit = n ∧
    if b.own then n ≤ formatted.length ∧ b.out = formatted.take n
    else b.count = 0 ∧ b.out = [] ∧ b.data = formatted

variable {b} {n : ℕ} {formatted : List Byte}

theorem Holds.flush_out (h : b.Holds n formatted) : b.flush.out = formatted.take n := by
  obtain ⟨rfl,h⟩ := h
  have hfits := b.fits
  rw [flush,size]
  split at h
  · rename_i hown
    rw [if_pos hown]
    exact h.2
  · rename_i hown
    obtain ⟨hcount,hout,rfl⟩ := h
    rw [if_neg hown] at hfits
    rw [if_neg hown,hcount,hout,List.nil_append,Nat.sub_zero,Nat.min_eq_left hfits,List.take_length,
      List.take_of_length_le hfits]

theorem Holds.try_reserve (h : b.Holds n formatted) (new_capacity : ℕ) :
    (b.try_reserve new_capacity).Holds n formatted := by
  rw [IteratorBuffer.try_reserve,grow]
  split
  · split
    · rename_i hfull
      refine ⟨h.1,?_⟩
      have hout := h.flush_out
      obtain ⟨hlimit,h⟩ := h
      rw [if_pos (show b.flush.own = true from rfl)]
      refine ⟨?_,hout⟩
      split at h
      · exact h.1
      · rename_i hown
        rw [size,capacity,if_neg hown,h.2.2] at hfull
        omega
    · exact h
  · exact h

theorem Holds.copy (h : b.Holds n formatted) {bytes : List Byte} (hfits : b.size+bytes.length ≤ b.capacity) :
    (b.copy bytes hfits).Holds n (formatted++bytes) := by
  obtain ⟨hlimit,h⟩ := h
  refine ⟨hlimit,?_⟩
  rw [IteratorBuffer.copy]
  split at h
  · rename_i hown
    rw [if_pos hown,List.length_append,List.take_append_of_le_length h.1]
    exact ⟨Nat.le_add_right_of_le h.1,h.2⟩
  · rename_i hown
    rw [if_neg hown]
    exact ⟨h.1,h.2.1,congrArg (·++bytes) h.2.2⟩

theorem Holds.append (h : b.Holds n formatted) (bytes : List Byte) :
    (b.append bytes).Holds n (formatted++bytes) := by
  induction b, bytes using append.induct generalizing formatted with
  | case1 b =>
    rw [IteratorBuffer.append,dif_pos rfl,List.append_nil]
    exact h
  | case2 b bytes hbytes r count =>
    rename_i ih
    have hrest := ih ((h.try_reserve _).copy _)
    rw [List.append_assoc,List.take_append_drop] at hrest
    rw [IteratorBuffer.append,dif_neg hbytes]
    exact hrest

theorem formatToN_eq (pieces : List (List Byte)) (n : ℕ) : formatToN pieces n = pieces.flatten.take n := by
  have hrun (pieces : List (List Byte)) (b : IteratorBuffer) (formatted : List Byte) (h : b.Holds n formatted) :
      (pieces.foldl IteratorBuffer.append b).Holds n (formatted++pieces.flatten) := by
    induction pieces generalizing b formatted with
    | nil =>
      rw [List.flatten_nil,List.append_nil]
      exact h
    | cons piece pieces ih =>
      rw [List.flatten_cons,← List.append_assoc]
      exact ih _ _ (h.append piece)
  exact (hrun pieces (create n) [] ⟨rfl,rfl,rfl,rfl⟩).flush_out

end IteratorBuffer
end GgLib
