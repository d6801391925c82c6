import GgLib.FixedBuffer
import GgLib.StringView
import Mathlib.Data.Int.Notation

/-! `LogStream`: values are rendered into a `FixedBuffer`. A text is cut where the buffer ends; an
integer or a pointer is left out when fewer than `kMaxNumericSize` bytes are left. -/
namespace GgLib

namespace LogStream

def digits : List Byte := text "9876543210123456789"
def digitsHex : List Byte := text "0123456789ABCDEF"

def zero (lsd : ℤ) : Byte := digits.getD (9+lsd).toNat 0

/-- The loop of `convert`: the digits as they are written, the last one first. -/
def convertLoop (i : ℤ) : List Byte :=
  if i.tdiv 10 ≠ 0 then zero (i.tmod 10)::convertLoop (i.tdiv 10) else [zero (i.tmod 10)]
termination_by i.natAbs
decreasing_by
  rename_i hne
  have hdiv : (i.tdiv 10).natAbs = i.natAbs/10 := Int.natAbs_tdiv i 10
  omega

def convert (value : ℤ) : List Byte :=
  (convertLoop value++if value < 0 then text "-" else []).reverse

def convertHexLoop (i : ℕ) : List Byte :=
  if i/16 ≠ 0 then digitsHex.getD (i%16) 0::convertHexLoop (i/16) else [digitsHex.getD (i%16) 0]
termination_by i
decreasing_by omega

def convertHex (value : ℕ) : List Byte := (convertHexLoop value).reverse

def ofChars (cs : List Char) : List Byte := cs.map fun c => UInt8.ofNat c.toNat

def numeral (value : ℤ) : List Byte := (if value < 0 then text "-" else [])++ofChars (Nat.toDigits 10 value.natAbs)

def hexNumeral (value : ℕ) : List Byte := ofChars ((Nat.toDigits 16 value).map Char.toUpper)

theorem zero_eq {lsd : ℤ} (h : lsd.natAbs < 10) : zero lsd = UInt8.ofNat (Nat.digitChar lsd.natAbs).toNat := by
  have hdigits : ∀ k < 10, zero (k : ℕ) = UInt8.ofNat (Nat.digitChar k).toNat ∧
      zero (-(k : ℕ)) = UInt8.ofNat (Nat.digitChar k).toNat := by decide
  obtain ⟨hpos,hneg⟩ := hdigits lsd.natAbs h
  rcases Int.natAbs_eq lsd with heq | heq
  · rw [heq,Int.natAbs_natCast]
    exact hpos
  · rw [heq,Int.natAbs_neg,Int.natAbs_natCast]
    exact hneg

theorem ofChars_append (cs ds : List Char) : ofChars (cs++ds) = ofChars cs++ofChars ds := List.map_append

theorem convertLoop_eq (i : ℤ) : convertLoop i = (ofChars (Nat.toDigits 10 i.natAbs)).reverse := by
  have hdiv (i : ℤ) : (i.tdiv 10).natAbs = i.natAbs/10 := Int.natAbs_tdiv i 10
  have hlast (i : ℤ) : zero (i.tmod 10) = UInt8.ofNat (Nat.digitChar (i.natAbs%10)).toNat := by
    have hmod : (i.tmod 10).natAbs = i.natAbs%10 := Int.natAbs_tmod i 10
    rw [zero_eq (by omega),hmod]
  induction i using convertLoop.induct with
  | case1 i hne ih =>
    have hle : 10 ≤ i.natAbs := by
      have hi := hdiv i
      omega
    rw [convertLoop,if_pos hne,ih,hdiv,hlast,Nat.toDigits_of_base_le (by decide) hle,ofChars_append,List.reverse_append]
    rfl
  | case2 i hzero =>
    have hlt : i.natAbs < 10 := by
      have hi := hdiv i
      omega
    rw [convertLoop,if_neg hzero,hlast,Nat.mod_eq_of_lt hlt,Nat.toDigits_of_lt_base hlt]
    rfl

theorem convert_eq (value : ℤ) : convert value = numeral value := by
  rw [convert,convertLoop_eq,List.reverse_append,List.reverse_reverse,numeral]
  congr 1
  split <;> rfl

theorem convertHexLoop_eq (i : ℕ) : convertHexLoop i = (hexNumeral i).reverse := by
  have hdigits : ∀ k < 16, digitsHex.getD k 0 = UInt8.ofNat (Char.toUpper (Nat.digitChar k)).toNat := by decide
  induction i using convertHexLoop.induct with
  | case1 i hne ih =>
    rw [convertHexLoop,if_pos hne,ih,hexNumeral,hexNumeral,Nat.toDigits_of_base_le (n:=i) (by decide) (by omega),
      List.map_append,ofChars_append,List.reverse_append,hdigits (i%16) (by omega)]
    rfl
  | case2 i hzero =>
    have hlt : i < 16 := by omega
    rw [convertHexLoop,if_neg hzero,Nat.mod_eq_of_lt hlt,hexNumeral,Nat.toDigits_of_lt_base hlt,hdigits i hlt]
    rfl

theorem convertHex_eq (value : ℕ) : convertHex value = hexNumeral value := by
  rw [convertHex,convertHexLoop_eq,List.reverse_reverse]

theorem length_numeral_le {value : ℤ} (hlow : -0x8000000000000000 ≤ value) (hhigh : value ≤ 0xffffffffffffffff) :
    (numeral value).length ≤ 20 := by
  have hminus : (text "-").length = 1 := rfl
  rw [numeral,List.length_append,ofChars,List.length_map]
  split
  · have hlen := (Nat.length_toDigits_le_iff (b:=10) (n:=value.natAbs) (k:=19) (by decide) (by decide)).mpr (by omega)
    omega
  · have hlen := (Nat.length_toDigits_le_iff (b:=10) (n:=value.natAbs) (k:=20) (by decide) (by decide)).mpr (by omega)
    simpa using hlen

theorem length_hexNumeral_le {value : ℕ} (h : value < 0x10000000000000000) : (hexNumeral value).length ≤ 16 := by
  rw [hexNumeral,ofChars,List.length_map,List.length_map]
  exact (Nat.length_toDigits_le_iff (by decide) (by decide)).mpr h

end LogStream

inductive IntegerType
  | short | unsignedShort | int | unsignedInt | long | unsignedLong | longLong | unsignedLongLong
  deriving DecidableEq, Repr

namespace IntegerType

def low : IntegerType → ℤ
  | .short => -0x8000
  | .int => -0x80000000
  | .long | .longLong => -0x8000000000000000
  | .unsignedShort | .unsignedInt | .unsignedLong | .unsignedLongLong => 0

def high : IntegerType → ℤ
  | .short => 0x7fff
  | .unsignedShort => 0xffff
  | .int => 0x7fffffff
  | .unsignedInt => 0xffffffff
  | .long | .longLong => 0x7fffffffffffffff
  | .unsignedLong | .unsignedLongLong => 0xffffffffffffffff

end IntegerType

/-- A value of an integer type. -/
structure Integer where
  type : IntegerType
  value : ℤ
  holds : type.low ≤ value ∧ value ≤ type.high

structure LogStream where
  buffer : FixedBuffer FixedBuffer.kSmallBuffer

namespace LogStream

def kMaxNumericSize : ℕ := 48

def create : LogStream := ⟨.empty⟩

theorem length_convert_le (v : Integer) : (convert v.value).length ≤ 20 := by
  obtain ⟨type,value,hlow,hhigh⟩ := v
  rw [convert_eq]
  refine length_numeral_le (Int.le_trans ?_ hlow) (Int.le_trans hhigh ?_) <;> cases type <;> decide

def pointerText (p : UInt64) : List Byte := text "0x"++convertHex p.toNat

theorem length_pointerText_le (p : UInt64) : (pointerText p).length ≤ 18 := by
  have hlen := length_hexNumeral_le p.toNat_lt
  have hhead : (text "0x").length = 2 := rfl
  rw [pointerText,convertHex_eq,List.length_append]
  omega

/-- A `short` is converted to `int` first, which keeps its value. -/
def formatInteger (s : LogStream) (v : Integer) : LogStream :=
  if h : kMaxNumericSize ≤ s.buffer.avail then
    ⟨s.buffer.add (convert v.value) (Nat.le_trans (length_convert_le v) (Nat.le_trans (by decide) h))⟩
  else s

def formatPointer (s : LogStream) (p : UInt64) : LogStream :=
  if h : kMaxNumericSize ≤ s.buffer.avail then
    ⟨s.buffer.add (pointerText p) (Nat.le_trans (length_pointerText_le p) (Nat.le_trans (by decide) h))⟩
  else s

/-- `append`, and what the insertions of texts do. -/
def append (s : LogStream) (data : List Byte) : LogStream := ⟨s.buffer.append data⟩

/-- What is inserted; a C string is the bytes from its pointer on, if that is not null. -/
inductive Insertion
  | bool (v : Bool)
  | char (v : Byte)
  | integer (v : Integer)
  | pointer (p : UInt64)
  | cString (str : Option (List Byte))
  | string (v : List Byte)

/-- `operator<<`. -/
def insert (s : LogStream) : Insertion → LogStream
  | .bool v => if v then s.append (text "true") else s.append (text "false")
  | .char v => s.append [v]
  | .integer v => s.formatInteger v
  | .pointer p => s.formatPointer p
  | .cString (some str) => s.append (str.takeWhile (· != 0))
  | .cString none => s.append (text "(NULL)")
  | .string v => s.append v

end LogStream
end GgLib
