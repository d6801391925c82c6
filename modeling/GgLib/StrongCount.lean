import Mathlib.Data.List.Induction
import Mathlib.Data.Int.Notation
import Mathlib.Tactic.Common

/-!
# A strong reference count

A script is what some code does with the references to one object, operation by operation. Whether the
object outlives a script is decided by how far the script ever dips below where it started.
-/

namespace GgLib
namespace StrongCount

inductive RefOp
  | acquire | release
  deriving DecidableEq, Repr

/-- A count that has reached zero stays there: no reference is left to copy or to give up. -/
def RefOp.apply : RefOp → ℕ → ℕ
  | _,0 => 0
  | .acquire,n+1 => n+2
  | .release,n+1 => n

/-- What a script leaves, beyond what it started from. -/
def balance : List RefOp → ℤ
  | [] => 0
  | .acquire::ops => balance ops+1
  | .release::ops => balance ops-1

/-- The most references that a script has given up beyond those it took, at any moment of it. -/
def deficit : List RefOp → ℕ
  | [] => 0
  | .acquire::ops => deficit ops-1
  | .release::ops => deficit ops+1

@[simp] theorem balance_append (xs ys : List RefOp) : balance (xs++ys) = balance xs+balance ys := by
  induction xs with
  | nil => simp [balance]
  | cons op xs ih => cases op <;> simp only [List.cons_append,balance,ih] <;> omega

theorem deficit_append_lt_iff (xs ys : List RefOp) (n : ℕ) :
    deficit (xs++ys) < n ↔ deficit xs < n ∧ (deficit ys : ℤ) < n+balance xs := by
  induction xs generalizing n with
  | nil => simp only [List.nil_append,deficit,balance]; omega
  | cons op xs ih =>
    cases op with
    | acquire => simp only [List.cons_append,deficit,balance]; have h := ih (n+1); omega
    | release => simp only [List.cons_append,deficit,balance]; have h := ih (n-1); omega

/-- Each script is met with more references than it gives up at its lowest point. -/
theorem deficit_flatten_lt_iff (scripts : List (List RefOp)) {n : ℕ} (hn : 0 < n) :
    deficit scripts.flatten < n ↔
      ∀ before ops after, scripts = before++ops::after →
        (deficit ops : ℤ) < n+balance before.flatten := by
  constructor
  · rintro h before ops after rfl
    rw [List.flatten_append,deficit_append_lt_iff,List.flatten_cons] at h
    have hrest : deficit (ops++after.flatten) < (n+balance before.flatten).toNat := by omega
    have hops := ((deficit_append_lt_iff ops after.flatten _).1 hrest).1
    omega
  · intro h
    induction scripts using List.reverseRecOn with
    | nil => exact hn
    | append_singleton scripts ops ih =>
      rw [List.flatten_append,List.flatten_singleton,deficit_append_lt_iff]
      refine ⟨ih ?_,h scripts ops [] (by simp)⟩
      intro before ops' after hsplit
      exact h before ops' (after++[ops]) (by simp [hsplit])

/-- A script between a reference of its own and its release: only what is left at the end matters. -/
theorem deficit_held_lt_iff {ops : List RefOp} {n : ℕ} (hn : 0 < n) (hops : deficit ops ≤ n) :
    deficit (.acquire::ops++[.release]) < n ↔ 0 < n+balance ops := by
  rw [deficit_append_lt_iff]
  simp only [deficit,balance]
  omega

section Trace

variable {α : Type*} (ref : α → Option RefOp)

/-- The count after each act of a run. -/
def trace : ℕ → List α → List (α × ℕ)
  | _,[] => []
  | n,a::acts =>
    let n' := (ref a).elim n (·.apply n)
    (a,n')::trace n' acts

theorem trace_zero {acts : List α} {m : α × ℕ} (hm : m ∈ trace ref 0 acts) : m.2 = 0 := by
  induction acts with
  | nil => simp [trace] at hm
  | cons a acts ih =>
    have hzero : (ref a).elim 0 (·.apply 0) = 0 := by cases ref a with
      | none => rfl
      | some op => rfl
    simp only [trace,hzero,List.mem_cons] at hm
    rcases hm with rfl | hm
    · rfl
    · exact ih hm

/-- The object lives through the run if and only if the script of the run never dips to zero. -/
theorem trace_pos_iff (acts : List α) {n : ℕ} (hn : 0 < n) :
    (∀ m ∈ trace ref n acts, 0 < m.2) ↔ deficit (acts.filterMap ref) < n := by
  induction acts generalizing n with
  | nil => simpa [trace,deficit] using hn
  | cons a acts ih =>
    obtain ⟨n,rfl⟩ := Nat.exists_eq_succ_of_ne_zero (Nat.pos_iff_ne_zero.1 hn)
    cases ha : ref a with
    | none =>
      simp only [trace,ha,Option.elim_none,List.forall_mem_cons,List.filterMap_cons]
      rw [ih hn]
      omega
    | some op =>
      simp only [trace,ha,Option.elim_some,List.forall_mem_cons,List.filterMap_cons]
      cases op with
      | acquire =>
        simp only [Nat.succ_eq_add_one,RefOp.apply,deficit]
        rw [ih (by omega)]
        omega
      | release =>
        simp only [Nat.succ_eq_add_one,RefOp.apply,deficit]
        rcases Nat.eq_zero_or_pos n with rfl | hpos
        · omega
        · rw [ih hpos]
          omega

theorem trace_lost {acts : List α} {a : α} {n : ℕ} (ha : ref a = none)
    (h : ∃ m ∈ trace ref n (acts++[a]), m.2 = 0) : (a,0) ∈ trace ref n (acts++[a]) := by
  induction acts generalizing n with
  | nil =>
    obtain ⟨m,hm,hzero⟩ := h
    simp only [List.nil_append,trace,ha,Option.elim_none,List.mem_singleton] at hm ⊢
    rw [hm] at hzero
    rw [← hzero]
  | cons b acts ih =>
    obtain ⟨m,hm,hzero⟩ := h
    simp only [List.cons_append,trace,List.mem_cons] at hm ⊢
    refine .inr (ih ?_)
    rcases hm with rfl | hm
    · simp only at hzero
      rw [hzero]
      obtain ⟨m,hm⟩ := List.exists_mem_of_ne_nil (trace ref 0 (acts++[a])) (by cases acts <;> simp [trace])
      exact ⟨m,hm,trace_zero ref hm⟩
    · exact ⟨m,hm,hzero⟩

end Trace
end StrongCount
end GgLib
