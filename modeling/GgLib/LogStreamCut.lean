import GgLib.BoundedText
import GgLib.LogStream

/-! What a `LogStream` holds behind any insertions: the renderings of those that were not left out,
cut at the size of the buffer. -/
namespace GgLib
namespace LogStream

namespace Insertion

def isNumeric : Insertion → Bool
  | .integer _ | .pointer _ => true
  | _ => false

/-- The full rendering of a value. -/
def rendering : Insertion → List Byte
  | .bool v => if v then text "true" else text "false"
  | .char v => [v]
  | .integer v => numeral v.value
  | .pointer p => text "0x"++hexNumeral p.toNat
  | .cString (some str) => str.takeWhile (· != 0)
  | .cString none => text "(NULL)"
  | .string v => v

end Insertion

open Insertion

def insertAll (s : LogStream) (is : List Insertion) : LogStream := is.foldl insert s

def renderings (is : List Insertion) : List Byte := is.flatMap rendering

/-- The insertions that are not left out, behind `used` bytes: an integer or a pointer needs
`kMaxNumericSize` bytes. -/
def kept (used : ℕ) : List Insertion → List Insertion
  | [] => []
  | i::is =>
    if i.isNumeric ∧ FixedBuffer.kSmallBuffer-used < kMaxNumericSize then kept used is
    else i::kept (min FixedBuffer.kSmallBuffer (used+i.rendering.length)) is

variable {s : LogStream} {i : Insertion}

theorem append_take (s : LogStream) (data : List Byte) :
    (s.append data).buffer.data = (s.buffer.data++data).take FixedBuffer.kSmallBuffer := by
  have hfits := s.buffer.fits
  have havail : s.buffer.avail = FixedBuffer.kSmallBuffer-s.buffer.data.length := rfl
  rw [append,FixedBuffer.append_data,List.take_append,List.take_of_length_le hfits,havail]

theorem insert_text (h : i.isNumeric = false) :
    (s.insert i).buffer.data = (s.buffer.data++i.rendering).take FixedBuffer.kSmallBuffer := by
  cases i with
  | bool v => cases v <;> exact append_take ..
  | char v => exact append_take ..
  | integer v => cases h
  | pointer p => cases h
  | cString str => cases str <;> exact append_take ..
  | string v => exact append_take ..

theorem length_rendering (h : i.isNumeric = true) : 0 < i.rendering.length ∧ i.rendering.length ≤ 20 := by
  cases i with
  | integer v =>
    refine ⟨?_,by rw [rendering,← convert_eq]; exact length_convert_le v⟩
    have hpos := Nat.length_toDigits_pos (b:=10) (n:=v.value.natAbs)
    rw [rendering,numeral,List.length_append,ofChars,List.length_map]
    omega
  | pointer p =>
    have hle := length_pointerText_le p
    rw [pointerText,convertHex_eq] at hle
    have hhead : (text "0x").length = 2 := rfl
    rw [rendering]
    rw [List.length_append] at hle ⊢
    omega
  | _ => cases h

theorem insert_numeric (h : i.isNumeric = true) (hroom : kMaxNumericSize ≤ s.buffer.avail) :
    (s.insert i).buffer.data = s.buffer.data++i.rendering := by
  cases i with
  | integer v =>
    rw [insert,formatInteger,dif_pos hroom,rendering,← convert_eq]
    rfl
  | pointer p =>
    rw [insert,formatPointer,dif_pos hroom,rendering,← convertHex_eq]
    rfl
  | _ => cases h

theorem insert_leftOut (h : i.isNumeric = true) (hroom : ¬ kMaxNumericSize ≤ s.buffer.avail) : s.insert i = s := by
  cases i with
  | integer v => exact dif_neg hroom
  | pointer p => exact dif_neg hroom
  | _ => cases h

theorem insert_kept (h : ¬ (i.isNumeric ∧ FixedBuffer.kSmallBuffer-s.buffer.length < kMaxNumericSize)) :
    (s.insert i).buffer.data = (s.buffer.data++i.rendering).take FixedBuffer.kSmallBuffer := by
  cases hnumeric : i.isNumeric with
  | false => exact insert_text hnumeric
  | true =>
    have hroom : kMaxNumericSize ≤ FixedBuffer.kSmallBuffer-s.buffer.data.length :=
      Nat.le_of_not_lt fun hlt => h ⟨hnumeric,hlt⟩
    have hlen := (length_rendering hnumeric).2
    have hmax : kMaxNumericSize = 48 := rfl
    rw [insert_numeric hnumeric hroom,List.take_of_length_le]
    rw [List.length_append]
    omega

def Insertion.need (i : Insertion) : ℕ := if i.isNumeric then kMaxNumericSize else 0

theorem lt_need_iff {room : ℕ} : room < i.need ↔ i.isNumeric = true ∧ room < kMaxNumericSize := by
  rw [need]
  split <;> simp [*]

theorem kept_eq (used : ℕ) (is : List Insertion) :
    kept used is = BoundedText.kept FixedBuffer.kSmallBuffer need rendering used is := by
  induction is generalizing used with
  | nil => rfl
  | cons i is ih => simp only [kept,BoundedText.kept,lt_need_iff,ih]

theorem inserts : BoundedText.Inserts FixedBuffer.kSmallBuffer need rendering insert fun s => s.buffer.data where
  fits s := s.buffer.fits
  leftOut s i h := by
    obtain ⟨hnumeric,hlt⟩ := lt_need_iff.mp h
    rw [insert_leftOut hnumeric (Nat.not_le_of_lt hlt)]
  appended s i h := insert_kept fun hout => h (lt_need_iff.mpr hout)

theorem insertAll_data (s : LogStream) (is : List Insertion) : (s.insertAll is).buffer.data =
    (s.buffer.data++renderings (kept s.buffer.length is)).take FixedBuffer.kSmallBuffer := by
  rw [kept_eq]
  exact inserts.foldl s is

theorem kept_full {used : ℕ} (hused : used ≤ FixedBuffer.kSmallBuffer) {is before behind : List Insertion}
    (hkept : kept used is = before++i::behind) (hnumeric : i.isNumeric = true) :
    used+(renderings before).length+i.rendering.length ≤ FixedBuffer.kSmallBuffer := by
  induction is generalizing used before with
  | nil => cases before <;> cases hkept
  | cons j is ih =>
    rw [kept] at hkept
    split at hkept
    · exact ih hused hkept
    · rename_i hroom
      have hmax : kMaxNumericSize = 48 := rfl
      obtain ⟨hpos,hlen⟩ := length_rendering hnumeric
      cases before with
      | nil =>
        cases hkept
        have hle : ¬ FixedBuffer.kSmallBuffer-used < kMaxNumericSize := fun hlt => hroom ⟨hnumeric,hlt⟩
        rw [renderings,List.flatMap_nil,List.length_nil]
        omega
      | cons k before =>
        rw [List.cons_append,List.cons.injEq] at hkept
        obtain ⟨rfl,hkept⟩ := hkept
        have hrest := ih (Nat.min_le_left ..) hkept
        rw [renderings,List.flatMap_cons,List.length_append]
        rw [renderings] at hrest
        omega

/-- For every sequence of insertions into a fresh stream: the content is the concatenation of the
renderings of those that are kept, cut to the size of the buffer; only an integer or a pointer
that finds fewer than `kMaxNumericSize` bytes is not kept, and those that are kept are in full. -/
theorem line_cut (is : List Insertion) :
    (create.insertAll is).buffer.data = (renderings (kept 0 is)).take FixedBuffer.kSmallBuffer ∧
      ∀ before i behind, kept 0 is = before++i::behind → i.isNumeric = true →
        (renderings (before++[i])).length ≤ FixedBuffer.kSmallBuffer := by
  refine ⟨insertAll_data create is,fun before i behind hkept hnumeric => ?_⟩
  have hfull := kept_full (Nat.zero_le _) hkept hnumeric
  rw [renderings,List.flatMap_append,List.length_append,List.flatMap_singleton]
  rw [renderings] at hfull
  omega

def filler (n : ℕ) : Insertion := .string (List.replicate n 97)

theorem length_filler (n : ℕ) : (filler n).rendering.length = n := List.length_replicate

/-- Behind 3960 bytes an integer is left out, but a character is not. -/
def nearTheEnd : List Insertion := [filler 3960,.integer ⟨.int,5,by decide⟩,.char 98]

theorem kept_nearTheEnd : kept 0 nearTheEnd = [filler 3960,.char 98] := by
  rw [nearTheEnd,kept,if_neg (fun h => by cases h.1),length_filler,kept,if_pos ⟨rfl,by decide⟩,kept,
    if_neg (fun h => by cases h.1),kept]

theorem line_not_cut : ¬ ∀ is : List Insertion,
    (create.insertAll is).buffer.data = (renderings is).take FixedBuffer.kSmallBuffer := by
  intro h
  have hcut := h nearTheEnd
  rw [insertAll_data,show create.buffer.length = 0 from rfl,kept_nearTheEnd] at hcut
  have hkept : (renderings [filler 3960,.char 98]).length = 3961 := by
    rw [renderings,List.flatMap_cons,List.length_append,length_filler]
    rfl
  have hall : (renderings nearTheEnd).length = 3962 := by
    have hrest : ([Insertion.integer ⟨.int,5,by decide⟩,.char 98].flatMap rendering).length = 2 := by decide
    rw [renderings,nearTheEnd,List.flatMap_cons,List.length_append,length_filler,hrest]
  have hlen := congrArg List.length hcut
  rw [show create.buffer.data = [] from rfl,List.nil_append,List.length_take,List.length_take,hkept,hall] at hlen
  exact absurd hlen (by decide)

end LogStream
end GgLib
