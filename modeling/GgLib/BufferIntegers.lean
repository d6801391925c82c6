import GgLib.BufferLayout
import GgLib.BigEndian

/-! The integers of a `Buffer`: `appendInt*`, `prependInt*`, `peekInt*` and `readInt*` on a host of
either byte order. A failed assertion gives nothing. -/
namespace GgLib

/-- The byte order of the host. -/
inductive Host
  | littleEndian | bigEndian
  deriving DecidableEq, Repr

namespace Host

variable {w : ℕ}

def store (host : Host) (x : BitVec (8*w)) : List Byte :=
  match host with
  | .bigEndian => BigEndian.bytes w x.toNat
  | .littleEndian => (BigEndian.bytes w x.toNat).reverse

def load (host : Host) (w : ℕ) (bs : List Byte) : BitVec (8*w) :=
  match host with
  | .bigEndian => BitVec.ofNat _ (BigEndian.value bs)
  | .littleEndian => BitVec.ofNat _ (BigEndian.value bs.reverse)

def byteSwap (x : BitVec (8*w)) : BitVec (8*w) :=
  BitVec.ofNat _ (BigEndian.value (BigEndian.bytes w x.toNat).reverse)

/-- `htobe`, which is `betoh` as well. -/
def toBigEndian (host : Host) (x : BitVec (8*w)) : BitVec (8*w) :=
  match host with
  | .bigEndian => x
  | .littleEndian => byteSwap x

theorem value_lt_two_pow {bs : List Byte} (h : bs.length = w) : BigEndian.value bs < 2^(8*w) := by
  have hlt := BigEndian.value_lt bs
  rwa [h,show (256 : ℕ) = 2^8 from rfl,← Nat.pow_mul] at hlt

theorem toNat_ofValue {bs : List Byte} (h : bs.length = w) :
    (BitVec.ofNat (8*w) (BigEndian.value bs)).toNat = BigEndian.value bs := by
  rw [BitVec.toNat_ofNat,Nat.mod_eq_of_lt (value_lt_two_pow h)]

theorem store_toBigEndian (host : Host) (x : BitVec (8*w)) :
    host.store (host.toBigEndian x) = BigEndian.bytes w x.toNat := by
  cases host with
  | bigEndian => rfl
  | littleEndian =>
    have hlen : (BigEndian.bytes w x.toNat).reverse.length = w := by simp
    have hbytes := BigEndian.bytes_value (BigEndian.bytes w x.toNat).reverse
    rw [hlen] at hbytes
    rw [store,toBigEndian,byteSwap,toNat_ofValue hlen,hbytes,List.reverse_reverse]

theorem toBigEndian_load (host : Host) {bs : List Byte} (h : bs.length = w) :
    host.toBigEndian (host.load w bs) = BitVec.ofNat (8*w) (BigEndian.value bs) := by
  cases host with
  | bigEndian => rfl
  | littleEndian =>
    have hlen : bs.reverse.length = w := by rw [List.length_reverse,h]
    have hbytes := BigEndian.bytes_value bs.reverse
    rw [hlen] at hbytes
    rw [toBigEndian,load,byteSwap,toNat_ofValue hlen,hbytes,List.reverse_reverse]

theorem toInt_ofValue {bs : List Byte} (h : bs.length = w) :
    (BitVec.ofNat (8*w) (BigEndian.value bs)).toInt = BigEndian.signed bs := by
  have hpow : 2^(8*w) = 256^bs.length := by rw [h,Nat.pow_mul]
  rw [BitVec.toInt_eq_toNat_cond,toNat_ofValue h,hpow,BigEndian.signed]

end Host

namespace Buffer

open MemoryBlock

/-- `appendInt64`, `appendInt32` and `appendInt16` by the number of bytes. -/
def appendInt (host : Host) {w : ℕ} (b : Buffer) (x : BitVec (8*w)) : Buffer :=
  b.append (host.store (host.toBigEndian x))

def appendInt64 (host : Host) (b : Buffer) (x : BitVec 64) : Buffer := b.appendInt host (w:=8) x
def appendInt32 (host : Host) (b : Buffer) (x : BitVec 32) : Buffer := b.appendInt host (w:=4) x
def appendInt16 (host : Host) (b : Buffer) (x : BitVec 16) : Buffer := b.appendInt host (w:=2) x
def appendInt8 (b : Buffer) (x : BitVec 8) : Buffer := b.append [UInt8.ofBitVec x]

def peekInt (host : Host) (w : ℕ) (b : Buffer) : Option (BitVec (8*w)) :=
  if w ≤ b.readableBytes then some (host.toBigEndian (host.load w (window b.buffer b.readerIndex w))) else none

def peekInt64 (host : Host) (b : Buffer) : Option (BitVec 64) := b.peekInt host 8
def peekInt32 (host : Host) (b : Buffer) : Option (BitVec 32) := b.peekInt host 4
def peekInt16 (host : Host) (b : Buffer) : Option (BitVec 16) := b.peekInt host 2

def peekInt8 (b : Buffer) : Option (BitVec 8) :=
  if 1 ≤ b.readableBytes then b.buffer[b.readerIndex]?.map UInt8.toBitVec else none

def prependInt (host : Host) {w : ℕ} (b : Buffer) (x : BitVec (8*w)) : Option Buffer :=
  if w ≤ b.prependableBytes then some (b.prepend (host.store (host.toBigEndian x))) else none

def prependInt64 (host : Host) (b : Buffer) (x : BitVec 64) : Option Buffer := b.prependInt host (w:=8) x
def prependInt32 (host : Host) (b : Buffer) (x : BitVec 32) : Option Buffer := b.prependInt host (w:=4) x
def prependInt16 (host : Host) (b : Buffer) (x : BitVec 16) : Option Buffer := b.prependInt host (w:=2) x

def prependInt8 (b : Buffer) (x : BitVec 8) : Option Buffer :=
  if 1 ≤ b.prependableBytes then some (b.prepend [UInt8.ofBitVec x]) else none

end Buffer

inductive IntType
  | int8 | int16 | int32 | int64
  deriving DecidableEq, Repr

namespace IntType

def size : IntType → ℕ
  | .int8 => 1
  | .int16 => 2
  | .int32 => 4
  | .int64 => 8

/-- A value of the type, as its bits. -/
abbrev Value (t : IntType) : Type := BitVec (8*t.size)

def append (host : Host) (b : Buffer) : (t : IntType) → t.Value → Buffer
  | .int8, x => b.appendInt8 x
  | .int16, x => b.appendInt16 host x
  | .int32, x => b.appendInt32 host x
  | .int64, x => b.appendInt64 host x

def peek (host : Host) (b : Buffer) : (t : IntType) → Option t.Value
  | .int8 => b.peekInt8
  | .int16 => b.peekInt16 host
  | .int32 => b.peekInt32 host
  | .int64 => b.peekInt64 host

def prepend (host : Host) (b : Buffer) : (t : IntType) → t.Value → Option Buffer
  | .int8, x => b.prependInt8 x
  | .int16, x => b.prependInt16 host x
  | .int32, x => b.prependInt32 host x
  | .int64, x => b.prependInt64 host x

/-- `readInt8` and so on: peek, then retrieve. -/
def read (host : Host) (b : Buffer) (t : IntType) : Option (t.Value × Buffer) :=
  (t.peek host b).map fun x => (x,b.retrieve t.size)

variable (host : Host) {b : Buffer}

def bytes {t : IntType} (x : t.Value) : List Byte := BigEndian.bytes t.size x.toNat

@[simp] theorem length_bytes {t : IntType} (x : t.Value) : (bytes x).length = t.size := BigEndian.length_bytes ..

theorem bytes_int8 (x : BitVec 8) : [UInt8.ofBitVec x] = BigEndian.bytes 1 x.toNat := by
  have hbyte : UInt8.ofBitVec x = UInt8.ofNat x.toNat := by
    rw [← UInt8.toNat_inj,UInt8.toNat_ofNat',Nat.mod_eq_of_lt x.isLt]
    rfl
  rw [hbyte]
  rfl

theorem append_eq (b : Buffer) (t : IntType) (x : t.Value) : t.append host b x = b.append (bytes x) := by
  cases t with
  | int8 => exact congrArg b.append (bytes_int8 x)
  | int16 => exact congrArg b.append (host.store_toBigEndian (w:=2) x)
  | int32 => exact congrArg b.append (host.store_toBigEndian (w:=4) x)
  | int64 => exact congrArg b.append (host.store_toBigEndian (w:=8) x)

theorem prependInt_eq (b : Buffer) {w : ℕ} (x : BitVec (8*w)) : b.prependInt host x =
    if w ≤ b.prependableBytes then some (b.prepend (BigEndian.bytes w x.toNat)) else none := by
  rw [Buffer.prependInt,host.store_toBigEndian]

theorem prepend_eq (b : Buffer) (t : IntType) (x : t.Value) :
    t.prepend host b x = if t.size ≤ b.prependableBytes then some (b.prepend (bytes x)) else none := by
  cases t with
  | int8 => exact congrArg (fun l => if 1 ≤ b.prependableBytes then some (b.prepend l) else none) (bytes_int8 x)
  | int16 => exact prependInt_eq host b (w:=2) x
  | int32 => exact prependInt_eq host b (w:=4) x
  | int64 => exact prependInt_eq host b (w:=8) x

theorem window_eq {len : ℕ} (hlen : len ≤ b.readableBytes) :
    MemoryBlock.window b.buffer b.readerIndex len = b.toStringView.take len :=
  Buffer.retrieveAsString_spec hlen

theorem peekInt_eq (h : b.Wf) {w : ℕ} (hw : w ≤ b.toStringView.length) :
    b.peekInt host w = some (BitVec.ofNat (8*w) (BigEndian.value (b.toStringView.take w))) := by
  rw [← Buffer.readableBytes_eq h] at hw
  have hlen : (b.toStringView.take w).length = w := by
    rw [List.length_take,← Buffer.readableBytes_eq h]
    omega
  rw [Buffer.peekInt,if_pos hw,window_eq hw,host.toBigEndian_load hlen]

/-- Whatever the width and the host, the first bytes are taken in network order. -/
theorem peek_eq (h : b.Wf) {t : IntType} (ht : t.size ≤ b.toStringView.length) :
    t.peek host b = some (BitVec.ofNat (8*t.size) (BigEndian.value (b.toStringView.take t.size))) := by
  cases t with
  | int16 => exact peekInt_eq host h ht
  | int32 => exact peekInt_eq host h ht
  | int64 => exact peekInt_eq host h ht
  | int8 =>
    have hone : 1 ≤ b.readableBytes := by rwa [Buffer.readableBytes_eq h]
    have hwindow := window_eq hone
    rw [MemoryBlock.window] at hwindow
    have hpeek : b.peekInt8 = b.buffer[b.readerIndex]?.map UInt8.toBitVec := if_pos hone
    show b.peekInt8 = some (BitVec.ofNat 8 (BigEndian.value (b.toStringView.take 1)))
    rw [hpeek,← hwindow,← List.head?_drop]
    cases hdrop : b.buffer.drop b.readerIndex with
    | nil =>
      rw [hdrop] at hwindow
      have hlen := congrArg List.length hwindow
      change 1 ≤ _ at ht
      simp only [List.take_nil,List.length_nil,List.length_take] at hlen
      omega
    | cons a as =>
      show some a.toBitVec = some (BitVec.ofNat 8 (256*0+a.toNat))
      rw [Nat.mul_zero,Nat.zero_add]
      exact congrArg some (BitVec.ofNat_toNat 8 a.toBitVec).symm

theorem read_spec (h : b.Wf) {t : IntType} (x : t.Value) {rest : List Byte}
    (hview : b.toStringView = bytes x++rest) :
    ∃ b', t.read host b = some (x,b') ∧ b'.Wf ∧ b'.toStringView = rest := by
  have hsize : t.size ≤ b.toStringView.length := by
    rw [hview,List.length_append,length_bytes]
    omega
  have hvalue : BitVec.ofNat (8*t.size) (BigEndian.value (b.toStringView.take t.size)) = x := by
    rw [hview,List.take_left' (length_bytes x),bytes,BigEndian.value_bytes,show (256 : ℕ) = 2^8 from rfl,
      ← Nat.pow_mul,Nat.mod_eq_of_lt x.isLt,BitVec.ofNat_toNat,BitVec.setWidth_eq]
  obtain ⟨hw,hv⟩ := Buffer.retrieve_spec h (show t.size ≤ b.readableBytes by rwa [Buffer.readableBytes_eq h])
  refine ⟨b.retrieve t.size,?_,hw,?_⟩
  · rw [read,peek_eq host h hsize,hvalue]
    rfl
  · rw [hv,hview,List.drop_left' (length_bytes x)]

end IntType

abbrev TypedInt : Type := Σ t : IntType, t.Value

namespace TypedInt

variable (host : Host)

/-- One after another, as long as the vector can grow. -/
def appendAll : Buffer → List TypedInt → Option Buffer
  | b, [] => some b
  | b, ⟨t,x⟩::xs =>
    if (t.append host b x).buffer.length < 2^63 then appendAll (t.append host b x) xs else none

def readAll : Buffer → List IntType → Option (List TypedInt × Buffer)
  | b, [] => some ([],b)
  | b, t::ts => do
    let (x,b) ← t.read host b
    let (xs,b) ← readAll b ts
    return (⟨t,x⟩::xs,b)

def bytes (xs : List TypedInt) : List Byte := xs.flatMap fun v => IntType.bytes v.2

theorem appendAll_spec {xs : List TypedInt} {b b' : Buffer} (h : b.Wf) (happend : appendAll host b xs = some b') :
    b'.Wf ∧ b'.toStringView = b.toStringView++bytes xs := by
  induction xs generalizing b with
  | nil =>
    cases happend
    exact ⟨h,(List.append_nil _).symm⟩
  | cons v xs ih =>
    obtain ⟨t,x⟩ := v
    rw [appendAll] at happend
    split at happend
    · rename_i hfit
      rw [IntType.append_eq] at hfit happend
      have hlen : (IntType.bytes x).length < 2^63 := by
        rw [IntType.length_bytes]
        cases t <;> decide
      obtain ⟨hw,hv⟩ := Buffer.append_spec h hlen hfit
      obtain ⟨hw',hv'⟩ := ih hw happend
      refine ⟨hw',?_⟩
      rw [hv',hv,List.append_assoc]
      rfl
    · cases happend

theorem readAll_spec {xs : List TypedInt} {b : Buffer} {rest : List Byte} (h : b.Wf)
    (hview : b.toStringView = bytes xs++rest) :
    ∃ b', readAll host b (xs.map Sigma.fst) = some (xs,b') ∧ b'.Wf ∧ b'.toStringView = rest := by
  induction xs generalizing b with
  | nil => exact ⟨b,rfl,h,hview⟩
  | cons v xs ih =>
    obtain ⟨t,x⟩ := v
    rw [bytes,List.flatMap_cons,List.append_assoc] at hview
    obtain ⟨b₁,hread,hw,hv⟩ := IntType.read_spec host h x hview
    obtain ⟨b₂,hreads,hw',hv'⟩ := ih hw hv
    refine ⟨b₂,?_,hw',hv'⟩
    rw [List.map_cons,readAll,hread]
    show (readAll host b₁ (xs.map Sigma.fst)).bind _ = _
    rw [hreads]
    rfl

theorem peek_agree {b : Buffer} (h : b.Wf) {t : IntType} (ht : t.size ≤ b.toStringView.length) :
    ∃ x : t.Value, t.peek host b = some x ∧ x.toInt = BigEndian.signed (b.toStringView.take t.size) ∧
      ∀ t' : IntType, t'.size ≤ t.size →
        ∃ y : t'.Value, t'.peek host b = some y ∧ y.toInt = x.toInt/(256^(t.size-t'.size) : ℕ) := by
  have hlen {t : IntType} (ht : t.size ≤ b.toStringView.length) : (b.toStringView.take t.size).length = t.size :=
    List.length_take_of_le ht
  refine ⟨_,IntType.peek_eq host h ht,Host.toInt_ofValue (hlen ht),fun t' hle => ?_⟩
  have ht' : t'.size ≤ b.toStringView.length := Nat.le_trans hle ht
  refine ⟨_,IntType.peek_eq host h ht',?_⟩
  have hpos : 0 < t'.size := by cases t' <;> decide
  have htake := BigEndian.signed_take hpos (show t'.size ≤ _ by rw [hlen ht]; exact hle)
  rw [List.take_take,Nat.min_eq_left hle,hlen ht] at htake
  rw [Host.toInt_ofValue (hlen ht'),Host.toInt_ofValue (hlen ht),htake]

/-- For every well-formed buffer, on a host of either byte order. Integers of any types that are
appended, with anything behind them, are read back in their order behind what was readable before,
and only what is behind them is left; an integer that is prepended is read back, and the
readable bytes are those from before. A peek is the signed value of the first bytes in
network order, and that of a narrower type is the floor of that of a wider one. -/
theorem integers_survive {b : Buffer} (h : b.Wf) :
    (∀ (xs : List TypedInt) (b₁ : Buffer) (rest : List Byte), appendAll host b xs = some b₁ →
      rest.length < 2^63 → (b₁.append rest).buffer.length < 2^63 →
      ((b₁.append rest).retrieveAsString b.readableBytes).1 = b.toStringView ∧
      ∃ b₂, readAll host ((b₁.append rest).retrieveAsString b.readableBytes).2 (xs.map Sigma.fst) = some (xs,b₂) ∧
        b₂.Wf ∧ b₂.toStringView = rest) ∧
    (∀ (t : IntType) (x : t.Value), t.size ≤ b.prependableBytes → ∃ b₁ b₂, t.prepend host b x = some b₁ ∧
      t.read host b₁ = some (x,b₂) ∧ b₂.Wf ∧ b₂.toStringView = b.toStringView) ∧
    ∀ t : IntType, t.size ≤ b.readableBytes → ∃ x : t.Value, t.peek host b = some x ∧
      x.toInt = BigEndian.signed (b.toStringView.take t.size) ∧ ∀ t' : IntType, t'.size ≤ t.size →
        ∃ y : t'.Value, t'.peek host b = some y ∧ y.toInt = x.toInt/(256^(t.size-t'.size) : ℕ) := by
  refine ⟨?_,?_,?_⟩
  · intro xs b₁ rest happend hrest hfit
    obtain ⟨hw₁,hv₁⟩ := appendAll_spec host h happend
    obtain ⟨hw,hv⟩ := Buffer.append_spec hw₁ hrest hfit
    rw [hv₁,List.append_assoc] at hv
    have hle : b.readableBytes ≤ (b₁.append rest).readableBytes := by
      rw [Buffer.readableBytes_eq hw,hv,Buffer.readableBytes_eq h,List.length_append]
      omega
    constructor
    · rw [Buffer.retrieveAsString_spec hle,hv,Buffer.readableBytes_eq h,List.take_left]
    · obtain ⟨hw',hv'⟩ := Buffer.retrieve_spec hw hle
      rw [hv,List.drop_left' (Buffer.readableBytes_eq h).symm] at hv'
      exact readAll_spec host hw' hv'
  · intro t x ht
    have hlen : (IntType.bytes x).length ≤ b.prependableBytes := by rwa [IntType.length_bytes]
    obtain ⟨hw₁,hv₁⟩ := Buffer.prepend_spec h hlen
    obtain ⟨b₂,hread,hw₂,hv₂⟩ := IntType.read_spec host hw₁ x hv₁
    refine ⟨_,b₂,?_,hread,hw₂,hv₂⟩
    rw [IntType.prepend_eq,if_pos ht]
  · intro t ht
    rw [Buffer.readableBytes_eq h] at ht
    exact peek_agree host h ht

def negatives : List TypedInt :=
  [⟨.int8,BitVec.ofInt 8 (-1)⟩,⟨.int16,BitVec.ofInt 16 (-2)⟩,⟨.int32,BitVec.ofInt 32 (-3)⟩]

theorem integers_survive_negatives :
    ∃ b₁ b₂, appendAll .littleEndian (Buffer.create 4) negatives = some b₁ ∧
      readAll .littleEndian ((b₁.append []).retrieveAsString (Buffer.create 4).readableBytes).2
        [.int8,.int16,.int32] = some (negatives,b₂) ∧ b₂.toStringView = [] := by
  have hgrown : (appendAll .littleEndian (Buffer.create 4) negatives).map (fun b => (b.append []).buffer.length) =
      some 15 := by decide +kernel
  obtain ⟨b₁,hb₁,hlen⟩ := Option.map_eq_some_iff.mp hgrown
  have hwf : (Buffer.create 4).Wf := (Buffer.create_spec (n:=4) (by decide)).1
  obtain ⟨-,b₂,hread,-,hrest⟩ := (integers_survive .littleEndian hwf).1 negatives b₁ [] hb₁ (by decide)
    (by rw [hlen]; decide)
  exact ⟨b₁,b₂,hb₁,hread,hrest⟩

end TypedInt
end GgLib
