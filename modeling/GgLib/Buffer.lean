import GgLib.ByteQueue
import GgLib.MemoryBlock
import Mathlib.Data.Int.Basic
import Mathlib.Algebra.Group.Nat.Defs

/-! The `Buffer` class: a vector of bytes with a reader and a writer index, where
the readable bytes lie between the two. Indices and sizes are `size_t` values,
so additions and subtractions are taken modulo `2^64`. -/
namespace GgLib

open MemoryBlock

def sizeAdd (a b : ℕ) : ℕ := (a+b)%2^64
def sizeSub (a b : ℕ) : ℕ := (a+2^64-b)%2^64

theorem sizeAdd_of_lt {a b : ℕ} (h : a+b < 2^64) : sizeAdd a b = a+b := Nat.mod_eq_of_lt h

theorem sizeSub_of_le {a b : ℕ} (h : b ≤ a) (ha : a < 2^64) : sizeSub a b = a-b := by
  rw [sizeSub,show a+2^64-b = (a-b)+2^64 by omega,Nat.add_mod_right,Nat.mod_eq_of_lt (by omega)]

structure Buffer where
  buffer : List Byte
  readerIndex : ℕ
  writerIndex : ℕ
  deriving DecidableEq, Repr

/-- What `readv` reports: `-1` with an error number, or the bytes it stored. -/
inductive ReadvResult
  | error (errno : ℕ)
  | bytes (xs : List Byte)
  deriving DecidableEq, Repr

namespace Buffer

def kCheapPrepend : ℕ := 8
def kInitialSize : ℕ := 1024

def create (initialSize : ℕ) : Buffer :=
  ⟨List.replicate (sizeAdd kCheapPrepend initialSize) 0,kCheapPrepend,kCheapPrepend⟩

def swap (b rhs : Buffer) : Buffer × Buffer := (rhs,b)

def readableBytes (b : Buffer) : ℕ := sizeSub b.writerIndex b.readerIndex
def writableBytes (b : Buffer) : ℕ := sizeSub b.buffer.length b.writerIndex
def prependableBytes (b : Buffer) : ℕ := b.readerIndex

def toStringView (b : Buffer) : List Byte := window b.buffer b.readerIndex b.readableBytes

def retrieveAll (b : Buffer) : Buffer :=
  { b with readerIndex := kCheapPrepend, writerIndex := kCheapPrepend }

def retrieve (b : Buffer) (len : ℕ) : Buffer :=
  if len < b.readableBytes then { b with readerIndex := sizeAdd b.readerIndex len }
  else b.retrieveAll

/-- `memmem` over the readable bytes, as an offset from `peek()`. A match covers two
readable bytes, so it is never `beginWrite()`. -/
def findCRLF (b : Buffer) : Option ℕ := ByteQueue.findCRLF b.toStringView

/-- `retrieveUntil(peek() + n)`. -/
def retrieveUntil (b : Buffer) (n : ℕ) : Buffer := b.retrieve n

def retrieveAsString (b : Buffer) (len : ℕ) : List Byte × Buffer :=
  (window b.buffer b.readerIndex len,b.retrieve len)

def hasWritten (b : Buffer) (len : ℕ) : Buffer :=
  { b with writerIndex := sizeAdd b.writerIndex len }

def unWrite (b : Buffer) (len : ℕ) : Buffer :=
  { b with writerIndex := sizeSub b.writerIndex len }

/-- `buffer_.resize(writerIndex_ + len)`. -/
def grow (b : Buffer) (len : ℕ) : Buffer :=
  { b with buffer := resize b.buffer (sizeAdd b.writerIndex len) 0 }

/-- Move the readable bytes to the front, if there is room before them. -/
def compact (b : Buffer) : Buffer :=
  if kCheapPrepend < b.readerIndex then
    { buffer := overwrite b.buffer kCheapPrepend (window b.buffer b.readerIndex b.readableBytes)
      readerIndex := kCheapPrepend
      writerIndex := sizeAdd kCheapPrepend b.readableBytes }
  else b

def makeSpace (b : Buffer) (len : ℕ) : Buffer :=
  if sizeAdd b.writableBytes b.prependableBytes < sizeAdd len kCheapPrepend then
    (b.grow len).compact
  else b.compact

def ensureWritableBytes (b : Buffer) (len : ℕ) : Buffer :=
  if b.writableBytes < len then b.makeSpace len else b

/-- Store bytes at `beginWrite()`. -/
def copyToWrite (b : Buffer) (data : List Byte) : Buffer :=
  { b with buffer := overwrite b.buffer b.writerIndex data }

def append (b : Buffer) (data : List Byte) : Buffer :=
  ((b.ensureWritableBytes data.length).copyToWrite data).hasWritten data.length

def prepend (b : Buffer) (data : List Byte) : Buffer :=
  { b with
    readerIndex := sizeSub b.readerIndex data.length
    buffer := overwrite b.buffer (sizeSub b.readerIndex data.length) data }

def shrink (b : Buffer) (reserve : ℕ) : Buffer :=
  (b.swap (((create kInitialSize).ensureWritableBytes
    (sizeAdd b.readableBytes reserve)).append b.toStringView)).1

def extrabufSize : ℕ := 65536

/-- The bytes the one or two iovecs handed to `readv` can hold. -/
def iovecTotal (b : Buffer) : ℕ :=
  if b.writableBytes < extrabufSize then b.writableBytes+extrabufSize else b.writableBytes

/-- The buffer, the returned count and the saved error number. The iovecs are
filled in order: the writable bytes first, then `extrabuf`. -/
def readFd (b : Buffer) : ReadvResult → Buffer × ℤ × Option ℕ
  | .error errno => (b,-1,some errno)
  | .bytes xs =>
    let filled := b.copyToWrite (xs.take b.writableBytes)
    if xs.length ≤ b.writableBytes then
      ({ filled with writerIndex := sizeAdd b.writerIndex xs.length },xs.length,none)
    else
      (({ filled with writerIndex := filled.buffer.length } : Buffer).append
        (xs.drop b.writableBytes),xs.length,none)

/-- Only for debug use. -/
def reset (b : Buffer) : Buffer :=
  { b with readerIndex := kCheapPrepend, writerIndex := kCheapPrepend, buffer := [] }

end Buffer
end GgLib
