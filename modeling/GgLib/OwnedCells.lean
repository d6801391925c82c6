import Mathlib.Logic.Equiv.Basic
import Mathlib.Logic.Function.Basic
import Mathlib.Tactic.Common

/-! Objects that own at most one cell of a heap each, and the values that they stand for: what creates, copies, moves,
swaps and destroys objects acts on the values, deletes no cell twice and leaves none behind. -/
namespace OwnedCells

variable {α N : Type*} [DecidableEq N]

/-- Cells are numbered in the order of their allocation. -/
structure Heap (α : Type*) where
  cells : ℕ → Option α
  next : ℕ

namespace Heap

def empty : Heap α := ⟨fun _ => none,0⟩

def new (h : Heap α) (v : α) : Heap α × ℕ := (⟨Function.update h.cells h.next (some v),h.next+1⟩,h.next)

/-- Nothing to delete, or a cell that is there. -/
def delete (h : Heap α) : Option ℕ → Option (Heap α)
  | none => some h
  | some p => if (h.cells p).isSome then some { h with cells := Function.update h.cells p none } else none

def read (h : Heap α) (pointer : Option ℕ) : Option α := pointer.bind h.cells

end Heap

/-- The objects that are alive, each with its pointer. -/
structure Objects (α N : Type*) where
  heap : Heap α
  pointers : N → Option (Option ℕ)

namespace Objects

def empty : Objects α N := ⟨.empty,fun _ => none⟩

variable (s : Objects α N)

def set (x : N) (pointer : Option ℕ) : Objects α N :=
  { s with pointers := Function.update s.pointers x (some pointer) }

def construct (x : N) : Option (Objects α N) := if s.pointers x = none then some (s.set x none) else none

def constructNew (x : N) (v : α) : Option (Objects α N) :=
  if s.pointers x = none then
    let (heap,p) := s.heap.new v
    some ({ s with heap }.set x (some p))
  else none

/-- A new cell for what the other object holds; a pointer without a cell is undefined. -/
def constructCopy (x y : N) : Option (Objects α N) :=
  match s.pointers y with
  | some none => s.construct x
  | some (some p) =>
    match s.heap.cells p with
    | some v => s.constructNew x v
    | none => none
  | none => none

def constructMove (x y : N) : Option (Objects α N) :=
  match s.pointers x, s.pointers y with
  | none, some pointer => some ((s.set x pointer).set y none)
  | _, _ => none

def swap (x y : N) : Option (Objects α N) :=
  match s.pointers x, s.pointers y with
  | some p, some q => some ((s.set x q).set y p)
  | _, _ => none

def destroy (x : N) : Option (Objects α N) :=
  match s.pointers x with
  | some pointer => (s.heap.delete pointer).map fun heap => ⟨heap,Function.update s.pointers x none⟩
  | none => none

/-- Write to the cell of an object. -/
def write (x : N) (v : α) : Option (Objects α N) :=
  match s.pointers x with
  | some (some p) =>
    if (s.heap.cells p).isSome then
      some { s with heap := { s.heap with cells := Function.update s.heap.cells p (some v) } }
    else none
  | _ => none

/-- The objects stand for values; no two of them share a cell, and there is no other cell. -/
structure Represents (s : Objects α N) (values : N → Option (Option α)) : Prop where
  value : ∀ x, values x = (s.pointers x).map s.heap.read
  live : ∀ x p, s.pointers x = some (some p) → (s.heap.cells p).isSome
  apart : ∀ x y p, s.pointers x = some (some p) → s.pointers y = some (some p) → x = y
  owned : ∀ p, (s.heap.cells p).isSome → ∃ x, s.pointers x = some (some p)
  fresh : ∀ p, s.heap.next ≤ p → s.heap.cells p = none

variable {s} {values : N → Option (Option α)}

omit [DecidableEq N] in
theorem represents_empty : (empty : Objects α N).Represents fun _ => none :=
  ⟨fun _ => rfl,nofun,nofun,nofun,fun _ _ => rfl⟩

omit [DecidableEq N] in
theorem Represents.lt_next (h : s.Represents values) {p : ℕ} (hp : (s.heap.cells p).isSome) : p < s.heap.next := by
  by_contra hle
  rw [h.fresh p (by omega)] at hp
  cases hp

omit [DecidableEq N] in
theorem Represents.alive (h : s.Represents values) (x : N) : s.pointers x = none ↔ values x = none := by
  rw [h.value x,Option.map_eq_none_iff]

theorem Represents.construct (h : s.Represents values) {x : N} (hx : values x = none) :
    ∃ s', s.construct x = some s' ∧ s'.Represents (Function.update values x (some none)) := by
  have hdead := (h.alive x).mpr hx
  refine ⟨s.set x none,by rw [Objects.construct,if_pos hdead],fun y => ?_,fun y p hy => ?_,fun y z p hy hz => ?_,
    fun p hp => ?_,h.fresh⟩
  · by_cases hyx : y = x
    · subst hyx
      simp [set,Heap.read]
    · simp [set,hyx,h.value y]
  · by_cases hyx : y = x
    · subst hyx
      simp [set] at hy
    · exact h.live y p (by simpa [set,hyx] using hy)
  · by_cases hyx : y = x
    · subst hyx
      simp [set] at hy
    · by_cases hzx : z = x
      · subst hzx
        simp [set] at hz
      · exact h.apart y z p (by simpa [set,hyx] using hy) (by simpa [set,hzx] using hz)
  · obtain ⟨y,hy⟩ := h.owned p hp
    have hyx : y ≠ x := by
      rintro rfl
      rw [hdead] at hy
      cases hy
    exact ⟨y,by simpa [set,hyx] using hy⟩

/-- A new object with a new cell. -/
theorem Represents.constructNew (h : s.Represents values) {x : N} (hx : values x = none) (v : α) :
    ∃ s', s.constructNew x v = some s' ∧ s'.Represents (Function.update values x (some (some v))) := by
  have hdead := (h.alive x).mpr hx
  have hnew : ∀ {y p}, s.pointers y = some (some p) → p ≠ s.heap.next := by
    intro y p hy hp
    have := h.lt_next (h.live y p hy)
    omega
  refine ⟨_,by rw [Objects.constructNew,if_pos hdead],fun y => ?_,fun y p hy => ?_,fun y z p hy hz => ?_,
    fun p hp => ?_,fun p hp => ?_⟩
  · by_cases hyx : y = x
    · subst hyx
      simp [set,Heap.new,Heap.read]
    · cases hpointer : s.pointers y with
      | none => simp [set,hyx,h.value y,hpointer]
      | some pointer =>
        cases pointer with
        | none => simp [set,hyx,h.value y,hpointer,Heap.read]
        | some p => simp [set,hyx,h.value y,hpointer,Heap.read,Heap.new,hnew hpointer]
  · by_cases hyx : y = x
    · subst hyx
      have hp : s.heap.next = p := by simpa [set,Heap.new] using hy
      subst hp
      simp [set,Heap.new]
    · have hy' : s.pointers y = some (some p) := by simpa [set,hyx] using hy
      simpa [set,Heap.new,hnew hy'] using h.live y p hy'
  · by_cases hyx : y = x <;> by_cases hzx : z = x
    · rw [hyx,hzx]
    · subst hyx
      have hp : s.heap.next = p := by simpa [set,Heap.new] using hy
      exact absurd hp.symm (hnew (by simpa [set,hzx] using hz))
    · subst hzx
      have hp : s.heap.next = p := by simpa [set,Heap.new] using hz
      exact absurd hp.symm (hnew (by simpa [set,hyx] using hy))
    · exact h.apart y z p (by simpa [set,hyx] using hy) (by simpa [set,hzx] using hz)
  · by_cases hpnext : p = s.heap.next
    · exact ⟨x,by simp [set,Heap.new,hpnext]⟩
    · obtain ⟨y,hy⟩ := h.owned p (by simpa [set,Heap.new,hpnext] using hp)
      have hyx : y ≠ x := by
        rintro rfl
        rw [hdead] at hy
        cases hy
      exact ⟨y,by simpa [set,hyx] using hy⟩
  · have hlt : s.heap.next < p := hp
    have hne : p ≠ s.heap.next := by omega
    simpa [set,Heap.new,hne] using h.fresh p (by omega)

theorem Represents.constructCopy (h : s.Represents values) {x y : N} (hx : values x = none) {value : Option α}
    (hy : values y = some value) :
    ∃ s', s.constructCopy x y = some s' ∧ s'.Represents (Function.update values x (some value)) := by
  have hvalue := h.value y
  rw [hy] at hvalue
  cases hpointer : s.pointers y with
  | none => simp [hpointer] at hvalue
  | some pointer =>
    cases pointer with
    | none =>
      have hnone : value = none := by simpa [hpointer,Heap.read] using hvalue
      subst hnone
      obtain ⟨s',hs',hrep⟩ := h.construct hx
      exact ⟨s',by simp only [Objects.constructCopy,hpointer,hs'],hrep⟩
    | some p =>
      obtain ⟨v,hv⟩ := Option.isSome_iff_exists.mp (h.live y p hpointer)
      have hsome : value = some v := by simpa [hpointer,Heap.read,hv] using hvalue
      subst hsome
      obtain ⟨s',hs',hrep⟩ := h.constructNew hx v
      exact ⟨s',by simp only [Objects.constructCopy,hpointer,hv,hs'],hrep⟩

omit [DecidableEq N] in
theorem Represents.comp (h : s.Represents values) (f : Equiv.Perm N) :
    Represents ⟨s.heap,s.pointers ∘ f⟩ (values ∘ f) where
  value x := h.value (f x)
  live x p hx := h.live (f x) p hx
  apart x y p hx hy := f.injective (h.apart (f x) (f y) p hx hy)
  owned p hp := by
    obtain ⟨x,hx⟩ := h.owned p hp
    exact ⟨f.symm x,by simpa using hx⟩
  fresh := h.fresh

theorem update_update_eq_comp_swap {β : Type*} (f : N → β) (x y : N) :
    Function.update (Function.update f x (f y)) y (f x) = f ∘ Equiv.swap x y := by
  funext z
  by_cases hzy : z = y
  · subst hzy
    simp
  · by_cases hzx : z = x
    · subst hzx
      simp [hzy]
    · simp [hzy,hzx,Equiv.swap_apply_of_ne_of_ne hzx hzy]

theorem Represents.swap (h : s.Represents values) {x y : N} {a b : Option α} (hx : values x = some a)
    (hy : values y = some b) :
    ∃ s', s.swap x y = some s' ∧
      s'.Represents (Function.update (Function.update values x (some b)) y (some a)) := by
  obtain ⟨p,hp⟩ := Option.ne_none_iff_exists'.mp (fun hnone => by
    rw [(h.alive x).mp hnone] at hx
    cases hx)
  obtain ⟨q,hq⟩ := Option.ne_none_iff_exists'.mp (fun hnone => by
    rw [(h.alive y).mp hnone] at hy
    cases hy)
  refine ⟨(s.set x q).set y p,by simp only [Objects.swap,hp,hq],?_⟩
  have hpointers : Function.update (Function.update s.pointers x (some q)) y (some p) =
      s.pointers ∘ Equiv.swap x y := by
    rw [← update_update_eq_comp_swap,hp,hq]
  have hvalues : Function.update (Function.update values x (some b)) y (some a) = values ∘ Equiv.swap x y := by
    rw [← update_update_eq_comp_swap,hx,hy]
  rw [hvalues]
  show Represents ⟨s.heap,Function.update (Function.update s.pointers x (some q)) y (some p)⟩ _
  rw [hpointers]
  exact h.comp _

/-- A move is the construction of an empty object that is swapped with the other. -/
theorem Represents.constructMove (h : s.Represents values) {x y : N} (hx : values x = none) {value : Option α}
    (hy : values y = some value) :
    ∃ s', s.constructMove x y = some s' ∧
      s'.Represents (Function.update (Function.update values x (some value)) y (some none)) := by
  have hyx : y ≠ x := by
    rintro rfl
    rw [hx] at hy
    cases hy
  have hdead := (h.alive x).mpr hx
  obtain ⟨q,hq⟩ := Option.ne_none_iff_exists'.mp (fun hnone => by
    rw [(h.alive y).mp hnone] at hy
    cases hy)
  obtain ⟨s₁,hs₁,hrep₁⟩ := h.construct hx
  obtain ⟨s₂,hs₂,hrep₂⟩ := hrep₁.swap (Function.update_self ..) (by rwa [Function.update_of_ne hyx])
  have hconstruct : s₁ = s.set x none := by
    rw [Objects.construct,if_pos hdead] at hs₁
    exact (Option.some.inj hs₁).symm
  refine ⟨s₂,?_,?_⟩
  · rw [← hs₂,hconstruct]
    simp only [Objects.constructMove,Objects.swap,set,hdead,hq,Function.update_self,Function.update_of_ne hyx,
      Function.update_idem]
  · rwa [Function.update_idem] at hrep₂

omit [DecidableEq N] in
theorem Represents.delete (h : s.Represents values) {x : N} {pointer : Option ℕ} (hx : s.pointers x = some pointer) :
    ∃ heap, s.heap.delete pointer = some heap ∧ heap.next = s.heap.next ∧
      ∀ p, heap.cells p = if pointer = some p then none else s.heap.cells p := by
  cases pointer with
  | none => exact ⟨s.heap,rfl,rfl,fun p => by simp⟩
  | some q =>
    refine ⟨{ s.heap with cells := Function.update s.heap.cells q none },?_,rfl,fun p => ?_⟩
    · rw [Heap.delete,if_pos (h.live x q hx)]
    · simp [Function.update_apply,eq_comm]

/-- The cell of an object goes with it. -/
theorem Represents.destroy (h : s.Represents values) {x : N} {a : Option α} (hx : values x = some a) :
    ∃ s', s.destroy x = some s' ∧ s'.Represents (Function.update values x none) := by
  obtain ⟨pointer,hpointer⟩ := Option.ne_none_iff_exists'.mp (fun hnone => by
    rw [(h.alive x).mp hnone] at hx
    cases hx)
  obtain ⟨heap,hheap,hnext,hcells⟩ := h.delete hpointer
  have hkept : ∀ {y p}, y ≠ x → s.pointers y = some (some p) → heap.cells p = s.heap.cells p := by
    intro y p hyx hy
    rw [hcells,if_neg]
    rintro rfl
    exact hyx (h.apart y x p hy hpointer)
  refine ⟨⟨heap,Function.update s.pointers x none⟩,by simp only [Objects.destroy,hpointer,hheap,Option.map_some],
    fun y => ?_,fun y p hy => ?_,fun y z p hy hz => ?_,fun p hp => ?_,fun p hp => ?_⟩
  · by_cases hyx : y = x
    · subst hyx
      simp
    · cases hy : s.pointers y with
      | none => simp [hyx,h.value y,hy]
      | some pointer =>
        cases pointer with
        | none => simp [hyx,h.value y,hy,Heap.read]
        | some p => simp [hyx,h.value y,hy,Heap.read,hkept hyx hy]
  · by_cases hyx : y = x
    · subst hyx
      simp at hy
    · have hy' : s.pointers y = some (some p) := by simpa [hyx] using hy
      show (heap.cells p).isSome
      rw [hkept hyx hy']
      exact h.live y p hy'
  · by_cases hyx : y = x
    · subst hyx
      simp at hy
    · by_cases hzx : z = x
      · subst hzx
        simp at hz
      · exact h.apart y z p (by simpa [hyx] using hy) (by simpa [hzx] using hz)
  · have hp' : (heap.cells p).isSome := hp
    rw [hcells] at hp'
    split at hp'
    · cases hp'
    · rename_i hne
      obtain ⟨y,hy⟩ := h.owned p hp'
      have hyx : y ≠ x := by
        rintro rfl
        exact hne (Option.some.inj (hpointer.symm.trans hy))
      exact ⟨y,by simpa [hyx] using hy⟩
  · have hle : s.heap.next ≤ p := hnext ▸ hp
    show heap.cells p = none
    rw [hcells,h.fresh p hle,ite_self]

/-- No other object sees a write. -/
theorem Represents.write (h : s.Represents values) {x : N} {w : α} (hx : values x = some (some w)) (v : α) :
    ∃ s', s.write x v = some s' ∧ s'.Represents (Function.update values x (some (some v))) := by
  have hvalue := h.value x
  rw [hx] at hvalue
  obtain ⟨q,hpointer⟩ : ∃ q, s.pointers x = some (some q) := by
    cases hpointer : s.pointers x with
    | none => simp [hpointer] at hvalue
    | some pointer =>
      cases pointer with
      | none => simp [hpointer,Heap.read] at hvalue
      | some q => exact ⟨q,rfl⟩
  have hlive := h.live x q hpointer
  have hsome : ∀ p, (Function.update s.heap.cells q (some v) p).isSome = (s.heap.cells p).isSome := by
    intro p
    by_cases hpq : p = q
    · subst hpq
      simp [hlive]
    · simp [hpq]
  refine ⟨{ s with heap := { s.heap with cells := Function.update s.heap.cells q (some v) } },
    by simp only [Objects.write,hpointer,if_pos hlive],fun y => ?_,fun y p hy => ?_,h.apart,fun p hp => ?_,
    fun p hp => ?_⟩
  · by_cases hyx : y = x
    · subst hyx
      simp [hpointer,Heap.read]
    · cases hy : s.pointers y with
      | none => simp [hyx,h.value y,hy]
      | some pointer =>
        cases pointer with
        | none => simp [hyx,h.value y,hy,Heap.read]
        | some p =>
          have hpq : p ≠ q := by
            rintro rfl
            exact hyx (h.apart y x p hy hpointer)
          simp [hyx,h.value y,hy,Heap.read,hpq]
  · show (Function.update s.heap.cells q (some v) p).isSome
    rw [hsome]
    exact h.live y p hy
  · exact h.owned p (by rw [← hsome]; exact hp)
  · have hpq : p ≠ q := by
      have := h.lt_next hlive
      have hle : s.heap.next ≤ p := hp
      omega
    simpa [hpq] using h.fresh p hp

end Objects
end OwnedCells
