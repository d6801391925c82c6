import Mathlib.Data.List.Sort
import Mathlib.Data.List.TakeWhile
import Mathlib.Tactic.Common

/-! A priority queue over a linear order, as the list of its elements in order: the least
element is on top, and equal elements may occur more than once. -/

structure PriorityQueue (α : Type*) [LinearOrder α] where
  elements : List α
  sorted : elements.Pairwise (· ≤ ·)

namespace PriorityQueue

variable {α : Type*} [LinearOrder α]

def empty : PriorityQueue α := ⟨[],.nil⟩

def top (q : PriorityQueue α) : Option α := q.elements.head?

def emplace (q : PriorityQueue α) (a : α) : PriorityQueue α :=
  ⟨q.elements.orderedInsert (· ≤ ·) a,q.sorted.orderedInsert a _⟩

/-- Pop as long as the top meets `p`: what was popped, and what is left. -/
def popWhile (q : PriorityQueue α) (p : α → Bool) : List α × PriorityQueue α :=
  (q.elements.takeWhile p,⟨q.elements.dropWhile p,q.sorted.sublist (List.dropWhile_sublist p)⟩)

instance : Membership α (PriorityQueue α) := ⟨fun q a => a ∈ q.elements⟩

variable {q : PriorityQueue α} {a b : α}

theorem mem_elements : a ∈ q.elements ↔ a ∈ q := Iff.rfl

theorem perm_emplace (q : PriorityQueue α) (a : α) : (q.emplace a).elements.Perm (a::q.elements) :=
  List.perm_orderedInsert _ a q.elements

theorem filter_emplace_of_neg {p : α → Bool} (h : p a = false) :
    (q.emplace a).elements.filter p = q.elements.filter p := by
  show (q.elements.orderedInsert (· ≤ ·) a).filter p = q.elements.filter p
  induction q.elements with
  | nil => simp [h]
  | cons b bs ih =>
    rw [List.orderedInsert_cons]
    by_cases hab : a ≤ b
    · rw [if_pos hab,List.filter_cons_of_neg (by simp [h])]
    · rw [if_neg hab,List.filter_cons,ih,List.filter_cons]

theorem filter_emplace_of_pos {p : α → Bool} (h : p a = true) (hnil : q.elements.filter p = []) :
    (q.emplace a).elements.filter p = [a] := by
  have hperm := (perm_emplace q a).filter p
  rw [List.filter_cons_of_pos h,hnil] at hperm
  exact List.perm_singleton.mp hperm

@[simp] theorem mem_emplace : b ∈ q.emplace a ↔ b = a ∨ b ∈ q := List.mem_orderedInsert _

theorem top_mem (h : q.top = some a) : a ∈ q := List.mem_of_head? h

theorem top_eq_none : q.top = none ↔ ∀ a, a ∉ q := by
  rw [top,List.head?_eq_none_iff]
  exact List.eq_nil_iff_forall_not_mem

theorem top_le (h : q.top = some a) (hb : b ∈ q) : a ≤ b := by
  obtain ⟨as,has⟩ := List.head?_eq_some_iff.mp h
  have hsorted := q.sorted
  rw [has,List.pairwise_cons] at hsorted
  rw [← mem_elements,has] at hb
  rcases List.mem_cons.mp hb with rfl | hb
  · exact le_rfl
  · exact hsorted.1 b hb

theorem popWhile_append (q : PriorityQueue α) (p : α → Bool) :
    (q.popWhile p).1++(q.popWhile p).2.elements = q.elements :=
  List.takeWhile_append_dropWhile

theorem mem_of_mem_popWhile {p : α → Bool} (h : b ∈ (q.popWhile p).2) : b ∈ q :=
  (List.dropWhile_sublist p).subset h

theorem of_mem_popped {p : α → Bool} (h : b ∈ (q.popWhile p).1) : p b = true :=
  List.mem_takeWhile_imp h

theorem filter_popWhile {p r : α → Bool} (h : ∀ a, p a = true → r a = false) :
    (q.popWhile p).2.elements.filter r = q.elements.filter r := by
  have hnil : (q.popWhile p).1.filter r = [] := by
    rw [List.filter_eq_nil_iff]
    intro a ha
    simp [h a (of_mem_popped ha)]
  rw [← popWhile_append q p,List.filter_append,hnil,List.nil_append]

theorem top_popWhile {p : α → Bool} (h : (q.popWhile p).2.top = some a) : p a = false := by
  have hnot := List.head?_dropWhile_not p q.elements
  rw [top,popWhile] at h
  rw [h] at hnot
  exact hnot

/-- When `p` holds of all that is before an element that meets it, no such element is left. -/
theorem not_of_mem_popWhile {p : α → Bool} (hp : ∀ a b, a ≤ b → p b = true → p a = true)
    (hb : b ∈ (q.popWhile p).2) : p b = false := by
  cases htop : (q.popWhile p).2.top with
  | none => exact absurd hb (top_eq_none.mp htop b)
  | some a =>
    have ha := top_popWhile htop
    rw [← Bool.not_eq_true] at ha ⊢
    exact fun h => ha (hp a b (top_le htop hb) h)

end PriorityQueue
