import Mathlib.Data.List.Basic
import Mathlib.Tactic.Common

/-! Writes into a block of memory cells and the split of a block into the cells
before a window, the window and the cells after it. -/
namespace MemoryBlock

variable {α : Type*}

/-- Store `xs` in the cells from index `i` on; the block keeps its length. -/
def overwrite (cells : List α) (i : ℕ) (xs : List α) : List α :=
  cells.take i++xs.take (cells.length-i)++cells.drop (i+xs.length)

def resize (cells : List α) (n : ℕ) (z : α) : List α :=
  cells.take n++List.replicate (n-cells.length) z

def window (cells : List α) (i n : ℕ) : List α := (cells.drop i).take n

def store (cells : List α) (i : ℕ) (x : α) : Option (List α) :=
  if i < cells.length then some (cells.set i x) else none

/-- Store values one after the other; the index behind the last one is returned. -/
def storeAll (cells : List α) (i : ℕ) : List α → Option (List α × ℕ)
  | [] => some (cells,i)
  | x::xs => (store cells i x).bind fun cells => storeAll cells (i+1) xs

def reverse (cells : List α) (i j : ℕ) : List α := overwrite cells i (window cells i (j-i)).reverse

@[simp] theorem overwrite_length (cells : List α) (i : ℕ) (xs : List α) :
    (overwrite cells i xs).length = cells.length := by
  simp only [overwrite,List.length_append,List.length_take,List.length_drop]
  omega

@[simp] theorem resize_length (cells : List α) (n : ℕ) (z : α) : (resize cells n z).length = n := by
  simp only [resize,List.length_append,List.length_take,List.length_replicate]
  omega

theorem overwrite_fit (cells : List α) (i : ℕ) (xs : List α) (h : i+xs.length ≤ cells.length) :
    overwrite cells i xs = cells.take i++xs++cells.drop (i+xs.length) := by
  have hx : xs.take (cells.length-i) = xs := List.take_of_length_le (by omega)
  rw [overwrite,hx]

theorem overwrite_split (front old back xs : List α) (h : xs.length = old.length) :
    overwrite (front++old++back) front.length xs = front++xs++back := by
  rw [overwrite_fit _ _ _ (by simp [h]),h,← List.length_append,List.drop_left,
    List.append_assoc front old back,List.take_left]

theorem resize_split (cells : List α) (n : ℕ) (z : α) (h : cells.length ≤ n) :
    resize cells n z = cells++List.replicate (n-cells.length) z := by
  rw [resize,List.take_of_length_le h]

@[simp] theorem window_split (front content back : List α) :
    window (front++content++back) front.length content.length = content := by
  rw [window,List.append_assoc,List.drop_left,List.take_left]

theorem exists_split (cells : List α) (i n : ℕ) (h : i+n ≤ cells.length) :
    ∃ front content back, cells = front++content++back ∧ front.length = i ∧ content.length = n := by
  refine ⟨cells.take i,window cells i n,cells.drop (i+n),?_,?_,?_⟩
  · rw [window,← List.drop_drop,List.append_assoc,List.take_append_drop,List.take_append_drop]
  · rw [List.length_take]
    omega
  · rw [window,List.length_take,List.length_drop]
    omega

theorem storeAll_append (cells : List α) (i : ℕ) (xs ys : List α) :
    storeAll cells i (xs++ys) = (storeAll cells i xs).bind fun (cells,i) => storeAll cells i ys := by
  induction xs generalizing cells i with
  | nil => rfl
  | cons x xs ih => simp only [List.cons_append,storeAll,ih,Option.bind_assoc]

theorem store_split (front back : List α) (x y : α) :
    store (front++y::back) front.length x = some (front++x::back) := by
  rw [store,if_pos (by simp),List.set_append_right _ _ (Nat.le_refl _),Nat.sub_self,List.set_cons_zero]

theorem storeAll_split (front old back xs : List α) (h : xs.length = old.length) :
    storeAll (front++old++back) front.length xs = some (front++xs++back,(front++xs).length) := by
  induction xs generalizing front old with
  | nil =>
    rw [List.eq_nil_of_length_eq_zero h.symm,List.append_nil]
    rfl
  | cons x xs ih =>
    cases old with
    | nil => cases h
    | cons y old =>
      have hrest := ih (front++[x]) old (Nat.succ.inj h)
      rw [List.length_append,List.length_singleton] at hrest
      rw [storeAll,List.append_assoc,List.cons_append,store_split,Option.bind_some]
      simpa using hrest

theorem storeAll_fit (cells : List α) (i : ℕ) (xs : List α) (h : i+xs.length ≤ cells.length) :
    storeAll cells i xs = some (overwrite cells i xs,i+xs.length) := by
  obtain ⟨front,old,back,rfl,rfl,hold⟩ := exists_split cells i xs.length h
  rw [storeAll_split front old back xs hold.symm,overwrite_split front old back xs hold.symm,List.length_append]

theorem reverse_split (front content back : List α) :
    reverse (front++content++back) front.length (front++content).length = front++content.reverse++back := by
  rw [reverse,List.length_append,Nat.add_sub_cancel_left,window_split,
    overwrite_split front content back _ List.length_reverse]

theorem overwrite_overwrite (cells : List α) (i : ℕ) (xs ys : List α) (h : i+(xs++ys).length ≤ cells.length) :
    overwrite (overwrite cells i xs) (i+xs.length) ys = overwrite cells i (xs++ys) := by
  obtain ⟨front,old,back,rfl,rfl,hold⟩ := exists_split cells i (xs++ys).length h
  obtain ⟨olds,oldBack,rfl,hxs⟩ : ∃ olds oldBack, old = olds++oldBack ∧ olds.length = xs.length :=
    ⟨old.take xs.length,old.drop xs.length,(List.take_append_drop _ _).symm,by simp [hold]⟩
  have hys : oldBack.length = ys.length := by
    rw [List.length_append,List.length_append] at hold
    omega
  have hfirst := overwrite_split front olds (oldBack++back) xs hxs.symm
  have hsecond := overwrite_split (front++xs) oldBack back ys hys.symm
  rw [overwrite_split front (olds++oldBack) back (xs++ys) hold.symm,← List.append_assoc front,List.append_assoc,hfirst,
    ← List.length_append,← List.append_assoc,hsecond,← List.append_assoc front]

theorem take_overwrite (cells : List α) (i : ℕ) (xs ys : List α) (h : i+(xs++ys).length ≤ cells.length) :
    (overwrite cells i (xs++ys)).take (i+xs.length) = cells.take i++xs := by
  have hlength : (cells.take i++xs).length = i+xs.length := by
    rw [List.length_append] at h
    rw [List.length_append,List.length_take_of_le (by omega)]
  rw [overwrite_fit _ _ _ h,← List.append_assoc,List.append_assoc,← hlength,List.take_left]

end MemoryBlock
