import Mathlib.Data.List.Basic
import Mathlib.Tactic.Common

/-! Texts that are appended to a store of bounded size. An item that finds less room than it needs
is left out; the others are appended, and cut where the store ends. -/
namespace BoundedText

variable {α ι S : Type*} (size : ℕ) (need : ι → ℕ) (rendering : ι → List α)

/-- The items that are not left out, behind `used` elements. -/
def kept (used : ℕ) : List ι → List ι
  | [] => []
  | i::is =>
    if size-used < need i then kept used is else i::kept (min size (used+(rendering i).length)) is

/-- What an insertion does: an item is left out, or its rendering is appended and cut. -/
structure Inserts (insert : S → ι → S) (data : S → List α) : Prop where
  fits : ∀ s, (data s).length ≤ size
  leftOut : ∀ s i, size-(data s).length < need i → data (insert s i) = data s
  appended : ∀ s i, ¬ size-(data s).length < need i → data (insert s i) = (data s++rendering i).take size

theorem take_take_append (n : ℕ) (l m : List α) : (l.take n++m).take n = (l++m).take n := by
  by_cases hle : l.length ≤ n
  · rw [List.take_of_length_le hle]
  · have hlen : (l.take n).length = n := List.length_take_of_le (by omega)
    rw [List.take_left' hlen,List.take_append_of_le_length (by omega)]

variable {size need rendering} {insert : S → ι → S} {data : S → List α}

theorem Inserts.foldl (h : Inserts size need rendering insert data) (s : S) (is : List ι) :
    data (is.foldl insert s) =
      (data s++(kept size need rendering (data s).length is).flatMap rendering).take size := by
  induction is generalizing s with
  | nil =>
    rw [kept,List.flatMap_nil,List.append_nil,List.take_of_length_le (h.fits s)]
    rfl
  | cons i is ih =>
    rw [List.foldl_cons,ih,kept]
    split
    · rename_i hout
      rw [h.leftOut s i hout]
    · rename_i hroom
      have hdata := h.appended s i hroom
      have hlen : (data (insert s i)).length = min size ((data s).length+(rendering i).length) := by
        rw [hdata,List.length_take,List.length_append]
      rw [hlen,hdata,take_take_append,List.append_assoc,List.flatMap_cons]

theorem kept_append_singleton {i : ι} (hi : need i = 0) (used : ℕ) (is : List ι) :
    kept size need rendering used (is++[i]) = kept size need rendering used is++[i] := by
  induction is generalizing used with
  | nil =>
    simp only [List.nil_append,kept,hi,Nat.not_lt_zero,if_false]
  | cons j is ih =>
    rw [List.cons_append,kept,kept]
    split
    · exact ih used
    · rw [ih,List.cons_append]

theorem kept_of_need_eq_zero (is : List ι) (h : ∀ i ∈ is, need i = 0) (used : ℕ) :
    kept size need rendering used is = is := by
  induction is generalizing used with
  | nil => rfl
  | cons i is ih =>
    rw [kept,h i List.mem_cons_self,if_neg (Nat.not_lt_zero _),ih fun j hj => h j (List.mem_cons_of_mem _ hj)]

end BoundedText
