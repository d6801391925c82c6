import GgLib.ByteQueue
import Mathlib.Tactic.Common

/-! The searches of `nonstd::string_view` and its throwing `substr`. A position is an
optional index, where `none` stands for `npos`, the largest `size_t`. -/
namespace GgLib

def text (s : String) : List Byte := s.toList.map fun c => UInt8.ofNat c.toNat

theorem text_toString (n : ℕ) : text (toString n) = (Nat.toDigits 10 n).map fun c => UInt8.ofNat c.toNat := by
  rw [text,Nat.toString_eq_repr,Nat.toList_repr]

/-- `std::out_of_range`. -/
inductive OutOfRange
  | outOfRange
  deriving DecidableEq, Repr

namespace StringView

def SP : Byte := 32
def COLON : Byte := 58
def QUESTION : Byte := 63

/-- `npos + 1` wraps around to 0. -/
def succPos : Option ℕ → ℕ
  | none => 0
  | some i => i+1

def find (sv : List Byte) (c : Byte) (pos : ℕ) : Option ℕ :=
  ((sv.drop pos).findIdx? (· == c)).map (·+pos)

def findFirstNotOf (sv : List Byte) (c : Byte) (pos : ℕ) : Option ℕ :=
  ((sv.drop pos).findIdx? (· != c)).map (·+pos)

def findLastNotOf (sv : List Byte) (c : Byte) : Option ℕ :=
  (sv.reverse.findIdx? (· != c)).map (sv.length-1-·)

/-- Throws exactly when `pos > size()`, so always at `npos`; a count of `npos` means
the rest of the view. -/
def substr (sv : List Byte) (pos count : Option ℕ) : Except OutOfRange (List Byte) :=
  match pos with
  | none => .error .outOfRange
  | some p =>
    if sv.length < p then .error .outOfRange
    else .ok ((sv.drop p).take (count.getD sv.length))

def span : Option ℕ → Option ℕ → Option ℕ
  | some first, some last => some (last+1-first)
  | _, _ => none

def startsWith (sv v : List Byte) : Bool := v.isPrefixOf sv

theorem find_eq_some {sv : List Byte} {c : Byte} {pos i : ℕ} (h : find sv c pos = some i) :
    pos ≤ i ∧ i < sv.length := by
  simp only [find,Option.map_eq_some_iff] at h
  obtain ⟨j,hj,rfl⟩ := h
  have hlt := (List.findIdx?_eq_some_iff_getElem.mp hj).1
  rw [List.length_drop] at hlt
  omega

theorem find_eq_none {sv : List Byte} {c : Byte} : find sv c 0 = none ↔ c ∉ sv := by
  simp only [find,List.drop_zero,Option.map_eq_none_iff,List.findIdx?_eq_none_iff,beq_eq_false_iff_ne]
  exact ⟨fun h hc => h c hc rfl,fun h x hx hxc => h (hxc ▸ hx)⟩

theorem findFirstNotOf_eq_none {sv : List Byte} {c : Byte} {pos : ℕ} :
    findFirstNotOf sv c pos = none ↔ ∀ x ∈ sv.drop pos, x = c := by
  simp [findFirstNotOf,List.findIdx?_eq_none_iff]

theorem findFirstNotOf_eq_some {sv : List Byte} {c : Byte} {pos i : ℕ}
    (h : findFirstNotOf sv c pos = some i) : pos ≤ i ∧ i < sv.length := by
  simp only [findFirstNotOf,Option.map_eq_some_iff] at h
  obtain ⟨j,hj,rfl⟩ := h
  have hlt := (List.findIdx?_eq_some_iff_getElem.mp hj).1
  rw [List.length_drop] at hlt
  omega

theorem substr_some {sv : List Byte} {p : ℕ} (h : p ≤ sv.length) (count : Option ℕ) :
    substr sv (some p) count = .ok ((sv.drop p).take (count.getD sv.length)) :=
  if_neg (by omega)

end StringView
end GgLib
