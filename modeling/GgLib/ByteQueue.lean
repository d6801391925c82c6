import Mathlib.Data.List.Basic

/-! Byte queues: what a `Buffer` stands for. Bytes enter and leave at both ends. -/
namespace GgLib

/-- A `char` of the source. -/
abbrev Byte := UInt8

abbrev ByteQueue := List Byte

namespace ByteQueue

def pushBack (q xs : ByteQueue) : ByteQueue := q++xs
def pushFront (q xs : ByteQueue) : ByteQueue := xs++q
def dropFront (q : ByteQueue) (n : ℕ) : ByteQueue := q.drop n
def dropBack (q : ByteQueue) (n : ℕ) : ByteQueue := q.take (q.length-n)

def CR : Byte := 13
def LF : Byte := 10

def findCRLF : ByteQueue → Option ℕ
  | [] => none
  | [_] => none
  | x::y::q => if x = CR ∧ y = LF then some 0 else (findCRLF (y::q)).map (·+1)

end ByteQueue
end GgLib
