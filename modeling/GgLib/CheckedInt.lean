import Mathlib.Data.Int.Notation
import Mathlib.Tactic.Common

/-! Integers of a range whose operations are undefined when the exact result leaves it, as those
of a signed machine type. An operation is strict: nothing is defined behind an undefined one. -/

/-- An integer from `lo` to `hi`, or nothing. -/
def CheckedInt (lo hi : ℤ) : Type := Option { z : ℤ // lo ≤ z ∧ z ≤ hi }

namespace CheckedInt

variable {lo hi : ℤ}

instance : DecidableEq (CheckedInt lo hi) := inferInstanceAs (DecidableEq (Option { z : ℤ // lo ≤ z ∧ z ≤ hi }))

def undefined : CheckedInt lo hi := none

def ofInt (z : ℤ) : CheckedInt lo hi := if h : lo ≤ z ∧ z ≤ hi then some ⟨z,h⟩ else undefined

def value : CheckedInt lo hi → Option ℤ
  | some a => some a.1
  | none => none

def bind₂ {lo' hi' : ℤ} (f : ℤ → ℤ → CheckedInt lo' hi') : CheckedInt lo hi → CheckedInt lo hi → CheckedInt lo' hi'
  | some a, some b => f a.1 b.1
  | _, _ => undefined

instance (n : ℕ) : OfNat (CheckedInt lo hi) n := ⟨ofInt n⟩
instance : Add (CheckedInt lo hi) := ⟨bind₂ fun a b => ofInt (a+b)⟩
instance : Sub (CheckedInt lo hi) := ⟨bind₂ fun a b => ofInt (a-b)⟩
instance : Mul (CheckedInt lo hi) := ⟨bind₂ fun a b => ofInt (a*b)⟩

/-- The quotient is truncated towards zero. -/
instance : Div (CheckedInt lo hi) := ⟨bind₂ fun a b => if b = 0 then undefined else ofInt (a.tdiv b)⟩

/-- The remainder has the sign of the dividend; it is undefined where the quotient is. -/
instance : Mod (CheckedInt lo hi) :=
  ⟨bind₂ fun a b => if b = 0 ∨ ¬ (lo ≤ a.tdiv b ∧ a.tdiv b ≤ hi) then undefined else ofInt (a.tmod b)⟩

/-- The conversion to another range, which has to hold the value. -/
def toRange {lo' hi' : ℤ} : CheckedInt lo hi → CheckedInt lo' hi'
  | some a => ofInt a.1
  | none => undefined

theorem ofInt_of_range {z : ℤ} (h : lo ≤ z ∧ z ≤ hi) : (ofInt z : CheckedInt lo hi) = some ⟨z,h⟩ := dif_pos h

theorem ofNat_eq (n : ℕ) : (OfNat.ofNat n : CheckedInt lo hi) = ofInt (OfNat.ofNat n) := rfl

theorem value_ofInt {z : ℤ} (h : lo ≤ z ∧ z ≤ hi) : (ofInt z : CheckedInt lo hi).value = some z := by
  rw [ofInt_of_range h]
  rfl

section Operations

variable {a b : ℤ} (ha : lo ≤ a ∧ a ≤ hi) (hb : lo ≤ b ∧ b ≤ hi)
include ha hb

theorem bind₂_ofInt {lo' hi' : ℤ} (f : ℤ → ℤ → CheckedInt lo' hi') :
    bind₂ f (ofInt a : CheckedInt lo hi) (ofInt b) = f a b := by
  rw [ofInt_of_range ha,ofInt_of_range hb]
  rfl

theorem ofInt_add : (ofInt a+ofInt b : CheckedInt lo hi) = ofInt (a+b) := bind₂_ofInt ha hb _

theorem ofInt_sub : (ofInt a-ofInt b : CheckedInt lo hi) = ofInt (a-b) := bind₂_ofInt ha hb _

theorem ofInt_mul : (ofInt a*ofInt b : CheckedInt lo hi) = ofInt (a*b) := bind₂_ofInt ha hb _

theorem ofInt_tdiv (hne : b ≠ 0) : (ofInt a/ofInt b : CheckedInt lo hi) = ofInt (a.tdiv b) :=
  (bind₂_ofInt ha hb _).trans (if_neg hne)

theorem ofInt_div (hpos : 0 ≤ a) (hne : b ≠ 0) : (ofInt a/ofInt b : CheckedInt lo hi) = ofInt (a/b) := by
  rw [ofInt_tdiv ha hb hne,Int.tdiv_eq_ediv_of_nonneg hpos]

theorem ofInt_tmod (hne : b ≠ 0) (hdiv : lo ≤ a.tdiv b ∧ a.tdiv b ≤ hi) :
    (ofInt a%ofInt b : CheckedInt lo hi) = ofInt (a.tmod b) := by
  refine (bind₂_ofInt ha hb _).trans (if_neg ?_)
  rintro (hzero | hout)
  · exact hne hzero
  · exact hout hdiv

end Operations

theorem toRange_ofInt {lo' hi' a : ℤ} (ha : lo ≤ a ∧ a ≤ hi) :
    (ofInt a : CheckedInt lo hi).toRange = (ofInt a : CheckedInt lo' hi') := by
  rw [ofInt_of_range ha]
  rfl

end CheckedInt
