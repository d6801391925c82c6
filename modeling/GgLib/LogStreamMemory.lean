import GgLib.LogStream
import GgLib.MemoryBlock
import GgLib.PositionalNumeral

/-! The digits of integers and pointers as they are stored into memory, and a `FixedBuffer` with
its whole array `data_`. A result `none` is a read or a store outside of an array. -/
namespace GgLib

open MemoryBlock PositionalNumeral

namespace LogStream

/-- `zero[lsd]`, in bounds. -/
def zeroAt (lsd : ℤ) : Option Byte := if 0 ≤ 9+lsd then digits[(9+lsd).toNat]? else none

/-- The loop of `convert`, with the pointer `p`. -/
def storeDigits (mem : List Byte) (p : ℕ) (i : ℤ) : Option (List Byte × ℕ) :=
  -- A quotient is nearer to zero than its dividend, so `i` stays in its type.
  (zeroAt (i.tmod 10)).bind fun digit =>
    (store mem p digit).bind fun mem =>
      if i.tdiv 10 ≠ 0 then storeDigits mem (p+1) (i.tdiv 10) else some (mem,p+1)
termination_by i.natAbs
decreasing_by
  rename_i hne
  have hdiv : (i.tdiv 10).natAbs = i.natAbs/10 := Int.natAbs_tdiv i 10
  omega

/-- `convert` into the memory from `buf` on; the length is returned. -/
def convertAt (mem : List Byte) (buf : ℕ) (value : ℤ) : Option (List Byte × ℕ) :=
  (storeDigits mem buf value).bind fun (mem,p) =>
    (if value < 0 then (store mem p 45).map fun mem => (mem,p+1) else some (mem,p)).bind fun (mem,p) =>
      (store mem p 0).map fun mem => (reverse mem buf p,p-buf)

def storeHexDigits (mem : List Byte) (p i : ℕ) : Option (List Byte × ℕ) :=
  digitsHex[i%16]?.bind fun digit =>
    (store mem p digit).bind fun mem =>
      if i/16 ≠ 0 then storeHexDigits mem (p+1) (i/16) else some (mem,p+1)
termination_by i
decreasing_by omega

def convertHexAt (mem : List Byte) (buf value : ℕ) : Option (List Byte × ℕ) :=
  (storeHexDigits mem buf value).bind fun (mem,p) =>
    (store mem p 0).map fun mem => (reverse mem buf p,p-buf)

theorem zeroAt_eq {lsd : ℤ} (h : lsd.natAbs < 10) : zeroAt lsd = some (zero lsd) := by
  have hlength : digits.length = 19 := rfl
  rw [zeroAt,if_pos (by omega),zero,List.getD_eq_getElem?_getD,List.getElem?_eq_getElem (by omega),Option.getD_some]

theorem storeDigits_eq (mem : List Byte) (p : ℕ) (i : ℤ) : storeDigits mem p i = storeAll mem p (convertLoop i) := by
  have hdigit (i : ℤ) : zeroAt (i.tmod 10) = some (zero (i.tmod 10)) := by
    have hmod : (i.tmod 10).natAbs = i.natAbs%10 := Int.natAbs_tmod i 10
    exact zeroAt_eq (by omega)
  induction i using convertLoop.induct generalizing mem p with
  | case1 i hne ih =>
    rw [storeDigits,hdigit,Option.bind_some,convertLoop,if_pos hne,storeAll]
    simp only [if_pos hne,ih]
  | case2 i hzero =>
    rw [storeDigits,hdigit,Option.bind_some,convertLoop,if_neg hzero,storeAll]
    simp only [if_neg hzero,storeAll]

theorem storeHexDigits_eq (mem : List Byte) (p i : ℕ) :
    storeHexDigits mem p i = storeAll mem p (convertHexLoop i) := by
  have hdigit (i : ℕ) : digitsHex[i%16]? = some (digitsHex.getD (i%16) 0) := by
    have hlength : digitsHex.length = 16 := rfl
    rw [List.getD_eq_getElem?_getD,List.getElem?_eq_getElem (by omega),Option.getD_some]
  induction i using convertHexLoop.induct generalizing mem p with
  | case1 i hne ih =>
    rw [storeHexDigits,hdigit,Option.bind_some,convertHexLoop,if_pos hne,storeAll]
    simp only [if_pos hne,ih]
  | case2 i hzero =>
    rw [storeHexDigits,hdigit,Option.bind_some,convertHexLoop,if_neg hzero,storeAll]
    simp only [if_neg hzero,storeAll]

/-- What is stored before the NUL is reversed, and the cells up to the NUL are all that change. -/
theorem reverse_storeAll (mem : List Byte) (buf : ℕ) (xs : List Byte) (h : buf+(xs.length+1) ≤ mem.length) :
    ((storeAll mem buf xs).bind fun (mem,p) => (store mem p 0).map fun mem => (reverse mem buf p,p-buf)) =
      some (overwrite mem buf (xs.reverse++[0]),xs.length) := by
  obtain ⟨front,old,back,rfl,rfl,hold⟩ := exists_split mem buf xs.length (by omega)
  cases back with
  | nil =>
    simp only [List.length_append,List.length_nil] at h
    omega
  | cons y back =>
    have hnul := store_split (front++xs) back 0 y
    have hwhole := overwrite_split front (old++[y]) back (xs.reverse++[0]) (by simp [hold])
    simp only [List.append_assoc,List.cons_append,List.nil_append] at hwhole
    rw [storeAll_split front old (y::back) xs hold.symm,Option.bind_some]
    simp only [hnul,Option.map_some,reverse_split]
    rw [List.length_append,Nat.add_sub_cancel_left,List.append_assoc,List.append_assoc,hwhole]

theorem convertAt_eq (mem : List Byte) (buf : ℕ) (value : ℤ) (h : buf+((convert value).length+1) ≤ mem.length) :
    convertAt mem buf value = some (overwrite mem buf (convert value++[0]),(convert value).length) := by
  have hsign (mem : List Byte) (p : ℕ) :
      (if value < 0 then (store mem p 45).map fun mem => (mem,p+1) else some (mem,p)) =
        storeAll mem p (if value < 0 then text "-" else []) := by
    split
    · have hminus : text "-" = [45] := rfl
      rw [hminus,storeAll]
      cases store mem p 45 <;> rfl
    · rfl
  have hlength : (convert value).length = (convertLoop value++if value < 0 then text "-" else []).length :=
    List.length_reverse
  rw [hlength] at h ⊢
  rw [convert,← reverse_storeAll mem buf _ h,storeAll_append,Option.bind_assoc,convertAt,storeDigits_eq]
  simp only [hsign]

theorem convertHexAt_eq (mem : List Byte) (buf value : ℕ) (h : buf+((convertHex value).length+1) ≤ mem.length) :
    convertHexAt mem buf value = some (overwrite mem buf (convertHex value++[0]),(convertHex value).length) := by
  have hlength : (convertHex value).length = (convertHexLoop value).length := List.length_reverse
  rw [hlength] at h ⊢
  rw [convertHex,← reverse_storeAll mem buf _ h,convertHexAt,storeHexDigits_eq]

/-- The bytes of the canonical decimal numeral, with `-` exactly for negative numbers. -/
def IsDecimal (value : ℤ) (s : List Byte) : Prop :=
  ∃ ds, Canonical 10 value.natAbs ds ∧
    s = (if value < 0 then text "-" else [])++ds.map fun d => UInt8.ofNat (48+d)

/-- The bytes of the canonical numeral in base 16, with capital letters. -/
def IsUpperHex (value : ℕ) (s : List Byte) : Prop :=
  ∃ ds, Canonical 16 value ds ∧ s = ds.map fun d => UInt8.ofNat (if d < 10 then 48+d else 55+d)

theorem isDecimal_iff {value : ℤ} {s : List Byte} : IsDecimal value s ↔ s = convert value := by
  have hdigit : ∀ d < 10, UInt8.ofNat (Nat.digitChar d).toNat = UInt8.ofNat (48+d) := by decide
  rw [convert_eq]
  exact text_iff (by decide) value.natAbs hdigit _ s

theorem isUpperHex_iff {value : ℕ} {s : List Byte} : IsUpperHex value s ↔ s = convertHex value := by
  have hdigit : ∀ d < 16,
      UInt8.ofNat (Nat.digitChar d).toUpper.toNat = UInt8.ofNat (if d < 10 then 48+d else 55+d) := by decide
  rw [convertHex_eq,hexNumeral,ofChars,List.map_map]
  exact text_iff (by decide) value hdigit [] s

end LogStream

/-- `data_` and the index of `cur_` in it. -/
structure FixedBuffer.Storage (SIZE : ℕ) where
  data : List Byte
  cur : ℕ
  size : data.length = SIZE
  inside : cur ≤ SIZE

namespace FixedBuffer.Storage

open LogStream

section

variable {SIZE : ℕ} (b : Storage SIZE)

def avail : ℕ := SIZE-b.cur

def toStringView : List Byte := b.data.take b.cur

/-- The buffer whose bytes are those before `cur_`. -/
def denote : FixedBuffer SIZE where
  data := b.toStringView
  fits := by
    rw [toStringView,List.length_take_of_le (by rw [b.size]; exact b.inside)]
    exact b.inside

/-- `add` behind stores into `data_`. -/
def add (data : List Byte) (len : ℕ) : Option (Storage SIZE) :=
  if h : data.length = SIZE ∧ b.cur+len ≤ SIZE then some ⟨data,b.cur+len,h.1,h.2⟩ else none

theorem length_toStringView : b.toStringView.length = b.cur :=
  List.length_take_of_le (by rw [b.size]; exact b.inside)

theorem denote_avail : b.denote.avail = b.avail := by
  show SIZE-b.toStringView.length = SIZE-b.cur
  rw [length_toStringView]

/-- `append`: the `memcpy` of what fits. -/
def append (buf : List Byte) : Option (Storage SIZE) :=
  let len := if b.avail < buf.length then b.avail else buf.length
  (storeAll b.data b.cur (buf.take len)).bind fun (data,_) => b.add data len

theorem map_denote {b : Storage SIZE} {r : Option (Storage SIZE)} {c : FixedBuffer SIZE} {s : List Byte}
    (h : ∃ b', r = some b' ∧ b'.toStringView = b.toStringView++s) (hc : c.data = b.toStringView++s) :
    r.map denote = some c := by
  obtain ⟨b',rfl,hview⟩ := h
  obtain ⟨data,fits⟩ := c
  rw [Option.map_some,Option.some.injEq,denote,FixedBuffer.mk.injEq,hview]
  exact hc.symm

theorem add_overwrite (s rest : List Byte) (h : (s++rest).length ≤ b.avail) :
    ∃ b', b.add (overwrite b.data b.cur (s++rest)) s.length = some b' ∧ b'.toStringView = b.toStringView++s := by
  have hsize := b.size
  have hinside := b.inside
  have havail : b.avail = SIZE-b.cur := rfl
  have hfit : b.cur+(s++rest).length ≤ b.data.length := by omega
  have hholds : (overwrite b.data b.cur (s++rest)).length = SIZE ∧ b.cur+s.length ≤ SIZE := by
    rw [overwrite_length,hsize]
    rw [List.length_append] at h
    exact ⟨rfl,by omega⟩
  exact ⟨_,dif_pos hholds,take_overwrite b.data b.cur s rest hfit⟩

theorem append_eq (buf : List Byte) :
    ∃ b', b.append buf = some b' ∧ b'.toStringView = b.toStringView++buf.take b.avail := by
  have hsize := b.size
  have hinside := b.inside
  have havail : b.avail = SIZE-b.cur := rfl
  rw [append]
  generalize hlen : (if b.avail < buf.length then b.avail else buf.length) = len
  have hle : len ≤ b.avail := by
    rw [← hlen]
    split <;> omega
  have hlength : (buf.take len).length = len := by
    rw [List.length_take,← hlen]
    split <;> omega
  have hcut : buf.take len = buf.take b.avail := by
    rw [← hlen]
    split
    · rfl
    · rw [List.take_length,List.take_of_length_le (by omega)]
  obtain ⟨b',hadd,hview⟩ := b.add_overwrite (buf.take len) [] (by rw [List.append_nil,hlength]; exact hle)
  rw [List.append_nil,hlength] at hadd
  refine ⟨b',?_,by rw [hview,hcut]⟩
  simp only [storeAll_fit b.data b.cur (buf.take len) (by omega),Option.bind_some]
  exact hadd

theorem denote_append (buf : List Byte) : (b.append buf).map denote = some (b.denote.append buf) := by
  refine map_denote (b.append_eq buf) ?_
  rw [FixedBuffer.append_data,denote_avail]
  rfl

end

variable (b : Storage kSmallBuffer)

def formatInteger (v : Integer) : Option (Storage kSmallBuffer) :=
  if kMaxNumericSize ≤ b.avail then (convertAt b.data b.cur v.value).bind fun (data,len) => b.add data len
  else some b

/-- The insertion of a pointer. -/
def formatPointer (p : UInt64) : Option (Storage kSmallBuffer) :=
  if kMaxNumericSize ≤ b.avail then
    (store b.data b.cur 48).bind fun data =>
      (store data (b.cur+1) 120).bind fun data =>
        (convertHexAt data (b.cur+2) p.toNat).bind fun (data,len) => b.add data (len+2)
  else some b

variable {b}

theorem formatInteger_eq (h : kMaxNumericSize ≤ b.avail) (v : Integer) :
    ∃ b', b.formatInteger v = some b' ∧ b'.toStringView = b.toStringView++convert v.value := by
  have hlength := length_convert_le v
  have hmax : kMaxNumericSize = 48 := rfl
  have havail : b.avail = kSmallBuffer-b.cur := rfl
  have hsize := b.size
  have hnul : (convert v.value).length+1 ≤ b.avail := by omega
  obtain ⟨b',hadd,hview⟩ := b.add_overwrite (convert v.value) [0] (by rw [List.length_append]; exact hnul)
  refine ⟨b',?_,hview⟩
  rw [formatInteger,if_pos h,convertAt_eq b.data b.cur v.value (by omega),Option.bind_some]
  exact hadd

theorem formatPointer_eq (h : kMaxNumericSize ≤ b.avail) (p : UInt64) :
    ∃ b', b.formatPointer p = some b' ∧ b'.toStringView = b.toStringView++pointerText p := by
  have hlength := length_pointerText_le p
  have hmax : kMaxNumericSize = 48 := rfl
  have havail : b.avail = kSmallBuffer-b.cur := rfl
  have hsize := b.size
  have hnul : (pointerText p).length+1 ≤ b.avail := by omega
  obtain ⟨b',hadd,hview⟩ := b.add_overwrite (pointerText p) [0] (by rw [List.length_append]; exact hnul)
  have hhead : text "0x" = [48,120] := rfl
  have hhex : (pointerText p).length = (text "0x").length+(convertHex p.toNat).length := List.length_append
  rw [hhead,List.length_cons,List.length_singleton,Nat.add_comm] at hhex
  have hfit : b.cur+(text "0x"++(convertHex p.toNat++[(0 : Byte)])).length ≤ b.data.length := by
    rw [← List.append_assoc,List.length_append,List.length_singleton]
    show b.cur+((pointerText p).length+1) ≤ b.data.length
    omega
  obtain ⟨first,hfirst,second,hsecond,hstored⟩ :
      ∃ first, store b.data b.cur 48 = some first ∧ ∃ second, store first (b.cur+1) 120 = some second ∧
        second = overwrite b.data b.cur (text "0x") := by
    have hstores := storeAll_fit b.data b.cur (text "0x") (by rw [hhead,List.length_cons,List.length_singleton]; omega)
    simp only [hhead,storeAll,Option.bind_eq_some_iff,Option.some.injEq,Prod.mk.injEq] at hstores
    obtain ⟨first,hfirst,second,hsecond,hstored,-⟩ := hstores
    exact ⟨first,hfirst,second,hsecond,hstored⟩
  have hconverted := convertHexAt_eq second (b.cur+2) p.toNat (by rw [hstored,overwrite_length]; omega)
  have hwhole := overwrite_overwrite b.data b.cur (text "0x") (convertHex p.toNat++[0]) hfit
  refine ⟨b',?_,hview⟩
  rw [formatPointer,if_pos h,hfirst,Option.bind_some,hsecond,Option.bind_some,hconverted,Option.bind_some,← hadd,hhex,
    pointerText,List.append_assoc,← hwhole,hstored]
  rfl

/-- The insertion of an integer does in memory what `LogStream` does with the bytes. -/
theorem denote_formatInteger (b : Storage kSmallBuffer) (v : Integer) :
    (b.formatInteger v).map denote = some (LogStream.formatInteger ⟨b.denote⟩ v).buffer := by
  have hroom := b.denote_avail
  by_cases h : kMaxNumericSize ≤ b.avail
  · rw [LogStream.formatInteger,dif_pos (by rw [hroom]; exact h)]
    exact map_denote (formatInteger_eq h v) rfl
  · rw [formatInteger,if_neg h,LogStream.formatInteger,dif_neg (by rw [hroom]; exact h)]
    rfl

theorem denote_formatPointer (b : Storage kSmallBuffer) (p : UInt64) :
    (b.formatPointer p).map denote = some (LogStream.formatPointer ⟨b.denote⟩ p).buffer := by
  have hroom := b.denote_avail
  by_cases h : kMaxNumericSize ≤ b.avail
  · rw [LogStream.formatPointer,dif_pos (by rw [hroom]; exact h)]
    exact map_denote (formatPointer_eq h p) rfl
  · rw [formatPointer,if_neg h,LogStream.formatPointer,dif_neg (by rw [hroom]; exact h)]
    rfl

/-- `operator<<`. -/
def insert (b : Storage kSmallBuffer) : Insertion → Option (Storage kSmallBuffer)
  | .bool v => if v then b.append (text "true") else b.append (text "false")
  | .char v => b.append [v]
  | .integer v => b.formatInteger v
  | .pointer p => b.formatPointer p
  | .cString (some str) => b.append (str.takeWhile (· != 0))
  | .cString none => b.append (text "(NULL)")
  | .string v => b.append v

theorem denote_insert (b : Storage kSmallBuffer) (i : Insertion) :
    (b.insert i).map denote = some (LogStream.insert ⟨b.denote⟩ i).buffer := by
  cases i with
  | bool v => cases v <;> exact denote_append ..
  | char v => exact denote_append ..
  | integer v => exact denote_formatInteger b v
  | pointer p => exact denote_formatPointer b p
  | cString str => cases str <;> exact denote_append ..
  | string v => exact denote_append ..

/-- No sequence of insertions leaves `data_`, and the buffer shows what `LogStream` holds. -/
theorem denote_run (b : Storage kSmallBuffer) (is : List Insertion) :
    (is.foldlM insert b).map denote = some (is.foldl LogStream.insert ⟨b.denote⟩).buffer := by
  induction is generalizing b with
  | nil => rfl
  | cons i is ih =>
    obtain ⟨b',hsome,hdenote⟩ := Option.map_eq_some_iff.mp (denote_insert b i)
    rw [List.foldlM_cons,hsome,List.foldl_cons]
    exact (ih b').trans (by rw [hdenote])

end FixedBuffer.Storage

namespace LogStream

/-- For every value of an integer type of at most 64 bits: `convert` stores its one canonical
numeral and a NUL, which are at most 22 bytes, and returns its length; so does `convertHex` in
base 16; and behind at least `kMaxNumericSize` free bytes the insertion of an integer or a
pointer stays in `data_` and appends exactly this text. -/
theorem integers_exact :
    (∀ value : ℤ, -0x8000000000000000 ≤ value → value ≤ 0xffffffffffffffff →
      ∃ s, (∀ r, IsDecimal value r ↔ r = s) ∧ s.length+1 ≤ 22 ∧
        ∀ mem buf, buf+(s.length+1) ≤ mem.length →
          convertAt mem buf value = some (overwrite mem buf (s++[0]),s.length)) ∧
      (∀ value : UInt64, ∃ s, (∀ r, IsUpperHex value.toNat r ↔ r = s) ∧ s.length+1 ≤ 22 ∧
        ∀ mem buf, buf+(s.length+1) ≤ mem.length →
          convertHexAt mem buf value.toNat = some (overwrite mem buf (s++[0]),s.length)) ∧
      ∀ b : FixedBuffer.Storage FixedBuffer.kSmallBuffer, kMaxNumericSize ≤ b.avail →
        (∀ v : Integer, ∃ s b', IsDecimal v.value s ∧ b.formatInteger v = some b' ∧
          b'.toStringView = b.toStringView++s) ∧
        ∀ p : UInt64, ∃ s b', IsUpperHex p.toNat s ∧ b.formatPointer p = some b' ∧
          b'.toStringView = b.toStringView++(text "0x"++s) := by
  refine ⟨fun value hlow hhigh => ?_,fun value => ?_,fun b hroom => ⟨fun v => ?_,fun p => ?_⟩⟩
  · refine ⟨convert value,fun r => isDecimal_iff,?_,fun mem buf => convertAt_eq mem buf value⟩
    have hlength := length_numeral_le hlow hhigh
    rw [convert_eq]
    omega
  · refine ⟨convertHex value.toNat,fun r => isUpperHex_iff,?_,fun mem buf => convertHexAt_eq mem buf value.toNat⟩
    have hlength := length_hexNumeral_le value.toNat_lt
    rw [convertHex_eq]
    omega
  · obtain ⟨b',hsome,hview⟩ := FixedBuffer.Storage.formatInteger_eq hroom v
    exact ⟨convert v.value,b',isDecimal_iff.mpr rfl,hsome,hview⟩
  · obtain ⟨b',hsome,hview⟩ := FixedBuffer.Storage.formatPointer_eq hroom p
    exact ⟨convertHex p.toNat,b',isUpperHex_iff.mpr rfl,hsome,hview⟩

/-- The least value of all fills 20 bytes and the NUL. -/
theorem integers_exact_lowest : convertAt (List.replicate 22 1) 0 (-0x8000000000000000) =
    some (text "-9223372036854775808"++[0,1],20) := by
  obtain ⟨s,hs,-,hstored⟩ := integers_exact.1 (-0x8000000000000000) (by decide) (by decide)
  have htext : text "-9223372036854775808" = s :=
    (hs _).mp ⟨[9,2,2,3,3,7,2,0,3,6,8,5,4,7,7,5,8,0,8],
      ⟨by decide,by decide,by decide,by decide⟩,by decide⟩
  rw [← htext] at hstored
  rw [hstored (List.replicate 22 1) 0 (by decide)]
  decide

end LogStream
end GgLib
