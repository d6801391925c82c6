import Mathlib.Algebra.Order.Field.Basic
import Mathlib.Data.Set.Defs
import Mathlib.Tactic.Linarith

/-! Which of two points is closer to a third, and which point of a set is the only nearest one. -/
namespace NearestPoint

variable {K : Type*} [Field K] [LinearOrder K] [IsStrictOrderedRing K] {a b x : K}

theorem abs_sub_le_of_le_mid (hab : a ≤ b) (hx : 2*x ≤ a+b) : |a-x| ≤ |b-x| := by
  rw [abs_le]
  have hb : b-x ≤ |b-x| := le_abs_self _
  constructor <;> linarith

theorem abs_sub_le_of_mid_le (hba : b ≤ a) (hx : a+b ≤ 2*x) : |a-x| ≤ |b-x| := by
  rw [abs_le]
  have hb : x-b ≤ |b-x| := by
    rw [abs_sub_comm]
    exact le_abs_self _
  constructor <;> linarith

theorem abs_sub_lt_of_lt_mid (hab : a < b) (hx : 2*x < a+b) : |a-x| < |b-x| := by
  rw [abs_lt]
  have hb : b-x ≤ |b-x| := le_abs_self _
  constructor <;> linarith

theorem abs_sub_lt_of_mid_lt (hba : b < a) (hx : a+b < 2*x) : |a-x| < |b-x| := by
  rw [abs_lt]
  have hb : x-b ≤ |b-x| := by
    rw [abs_sub_comm]
    exact le_abs_self _
  constructor <;> linarith

/-- Between two bounds on the middles to all other points, a point is the only nearest one. -/
theorem nearest_of_between {S : Set K} {v lo hi : K} (hlo : lo ≤ v) (hhi : v ≤ hi)
    (hgap : ∀ u ∈ S, u ≠ v → u+v ≤ 2*lo ∨ 2*hi ≤ u+v) (hx : lo < x) (hx' : x < hi) :
    ∀ u ∈ S, u ≠ v → |v-x| < |u-x| := by
  intro u hu hne
  rcases hgap u hu hne with hbelow | habove
  · exact abs_sub_lt_of_mid_lt (lt_of_le_of_ne (by linarith) hne) (by linarith)
  · exact abs_sub_lt_of_lt_mid (lt_of_le_of_ne (by linarith) hne.symm) (by linarith)

end NearestPoint
