import GgLib.LabelledSystem
import GgLib.OwnedCells

/-! `any`: objects with a pointer to a `holder` on the heap, and the values that they stand for. Types are those of
`T`, and `V t` are the values of type `t`. -/
namespace GgLib

open LabelledSystem OwnedCells

namespace Any

variable {T N : Type} {V : T → Type} [DecidableEq T] [DecidableEq N]

abbrev Holder (V : T → Type) := Σ t, V t

/-- The named objects, and the temporary `any` of an expression. -/
abbrev Anys (V : T → Type) (N : Type) := Objects (Holder V) (Option N)

inductive BadAnyCast
  | badAnyCast
  deriving DecidableEq, Repr

section Functions

variable (s : Anys V N) (x y : N)

/-- `.swap(*this)` of the temporary, which is destroyed behind it. -/
def exchange : Option (Anys V N) := (s.swap none (some x)).bind fun s => s.destroy none

/-- `any(rhs).swap(*this)`. -/
def assignCopy : Option (Anys V N) := (s.constructCopy none (some y)).bind fun s => exchange s x

/-- `rhs.swap(*this)` and `any().swap(rhs)`. -/
def assignMove : Option (Anys V N) :=
  (s.swap (some y) (some x)).bind fun s => (s.construct none).bind fun s => exchange s y

def assignValue (v : Holder V) : Option (Anys V N) := (s.constructNew none v).bind fun s => exchange s x

def clear : Option (Anys V N) := (s.construct none).bind fun s => exchange s x

/-- `none` is an object that is not alive, and `some none` is `typeid(void)`. -/
def type : Option (Option T) := (s.pointers (some x)).map fun content => (s.heap.read content).map Sigma.fst

/-- The address of what is held, or a null pointer. -/
def any_cast (t : T) : Option ℕ := if type s x = some (some t) then (s.pointers (some x)).join else none

/-- The other `any_cast`: what is held, or an exception. -/
def any_castRef (t : T) : Except BadAnyCast (V t) :=
  match any_cast s x t with
  | none => .error .badAnyCast
  | some result =>
    match s.heap.cells result with
    | some ⟨t',v⟩ => if h : t' = t then .ok (h ▸ v) else .error .badAnyCast
    | none => .error .badAnyCast

/-- An assignment to the reference that `any_cast` gives; an exception leaves all as it is. -/
def put (v : Holder V) : Option (Anys V N) :=
  match any_cast s x v.1 with
  | some _ => s.write (some x) v
  | none => (s.pointers (some x)).map fun _ => s

end Functions

inductive Label (V : T → Type) (N : Type)
  | construct (x : N)
  | constructValue (x : N) (v : Holder V)
  | constructCopy (x y : N)
  | constructMove (x y : N)
  | destroy (x : N)
  | swap (x y : N)
  | assignCopy (x y : N)
  | assignMove (x y : N)
  | assignValue (x : N) (v : Holder V)
  | clear (x : N)
  | put (x : N) (v : Holder V)

def step (s : Anys V N) : Label V N → Option (Anys V N)
  | .construct x => s.construct (some x)
  | .constructValue x v => s.constructNew (some x) v
  | .constructCopy x y => s.constructCopy (some x) (some y)
  | .constructMove x y => s.constructMove (some x) (some y)
  | .destroy x => s.destroy (some x)
  | .swap x y => s.swap (some x) (some y)
  | .assignCopy x y => Any.assignCopy s x y
  | .assignMove x y => Any.assignMove s x y
  | .assignValue x v => Any.assignValue s x v
  | .clear x => Any.clear s x
  | .put x v => Any.put s x v

/-- The objects as values: `none` is not alive, `some none` is empty. -/
abbrev Values (V : T → Type) (N : Type) := N → Option (Option (Holder V))

namespace Values

def type (values : Values V N) (x : N) : Option (Option T) := (values x).map fun value => value.map Sigma.fst

def any_cast (values : Values V N) (x : N) (t : T) : Except BadAnyCast (V t) :=
  match values x with
  | some (some ⟨t',v⟩) => if h : t' = t then .ok (h ▸ v) else .error .badAnyCast
  | _ => .error .badAnyCast

/-- What the calls are for; an object is created once before it is destroyed. -/
def step (values : Values V N) : Label V N → Option (Values V N)
  | .construct x => if values x = none then some (Function.update values x (some none)) else none
  | .constructValue x v => if values x = none then some (Function.update values x (some (some v))) else none
  | .constructCopy x y =>
    match values x, values y with
    | none, some value => some (Function.update values x (some value))
    | _, _ => none
  | .constructMove x y =>
    match values x, values y with
    | none, some value => some (Function.update (Function.update values x (some value)) y (some none))
    | _, _ => none
  | .destroy x => (values x).map fun _ => Function.update values x none
  | .swap x y =>
    match values x, values y with
    | some a, some b => some (Function.update (Function.update values x (some b)) y (some a))
    | _, _ => none
  | .assignCopy x y =>
    match values x, values y with
    | some _, some value => some (Function.update values x (some value))
    | _, _ => none
  | .assignMove x y =>
    match values x, values y with
    | some _, some value => some (Function.update (Function.update values x (some value)) y (some none))
    | _, _ => none
  | .assignValue x v => (values x).map fun _ => Function.update values x (some (some v))
  | .clear x => (values x).map fun _ => Function.update values x (some none)
  | .put x v =>
    (values x).map fun _ => if type values x = some (some v.1) then Function.update values x (some (some v)) else values

def named (values : Values V N) (x : Option N) : Option (Option (Holder V)) := x.bind values

end Values

variable {s : Anys V N} {values : Values V N}

omit [DecidableEq T] in
theorem Values.update_named (x : N) (value : Option (Option (Holder V))) :
    Function.update values.named (some x) value = Values.named (Function.update values x value) := by
  funext y
  cases y with
  | none => rfl
  | some y =>
    by_cases hyx : y = x
    · subst hyx
      simp [Values.named]
    · simp [Values.named,hyx]

omit [DecidableEq T] in
theorem exchange_eq {x : N} {a b : Option (Holder V)}
    (h : s.Represents (Function.update values.named none (some b))) (hx : values x = some a) :
    ∃ s', exchange s x = some s' ∧ s'.Represents (Values.named (Function.update values x (some b))) := by
  obtain ⟨s₁,hs₁,hrep₁⟩ := h.swap (x:=none) (y:=some x) (Function.update_self ..) hx
  obtain ⟨s₂,hs₂,hrep₂⟩ := hrep₁.destroy (x:=none) (a:=a) (by simp)
  refine ⟨s₂,by rw [exchange,hs₁,Option.bind_some,hs₂],?_⟩
  have hvalues : Function.update (Function.update (Function.update (Function.update values.named none (some b)) none
      (some a)) (some x) (some b)) none none = Values.named (Function.update values x (some b)) := by
    rw [← Values.update_named]
    funext y
    cases y with
    | none => simp [Values.named]
    | some y => simp [Function.update_apply]
  rwa [hvalues] at hrep₂

omit [DecidableEq T] in
theorem assignCopy_eq (h : s.Represents values.named) {x y : N} {a b : Option (Holder V)} (hx : values x = some a)
    (hy : values y = some b) :
    ∃ s', assignCopy s x y = some s' ∧ s'.Represents (Values.named (Function.update values x (some b))) := by
  obtain ⟨s₁,hs₁,hrep₁⟩ := h.constructCopy (x:=none) (y:=some y) rfl hy
  obtain ⟨s₂,hs₂,hrep₂⟩ := exchange_eq hrep₁ hx
  exact ⟨s₂,by rw [assignCopy,hs₁,Option.bind_some,hs₂],hrep₂⟩

omit [DecidableEq T] in
theorem assignMove_eq (h : s.Represents values.named) {x y : N} {a b : Option (Holder V)} (hx : values x = some a)
    (hy : values y = some b) :
    ∃ s', assignMove s x y = some s' ∧
      s'.Represents (Values.named (Function.update (Function.update values x (some b)) y (some none))) := by
  obtain ⟨s₁,hs₁,hrep₁⟩ := h.swap (x:=some y) (y:=some x) hy hx
  rw [Values.update_named,Values.update_named] at hrep₁
  obtain ⟨s₂,hs₂,hrep₂⟩ := hrep₁.construct (x:=none) rfl
  have hlive : ∃ c, Function.update (Function.update values y (some a)) x (some b) y = some c := by
    by_cases hyx : y = x
    · exact ⟨b,by simp [hyx]⟩
    · exact ⟨a,by simp [hyx]⟩
  obtain ⟨c,hc⟩ := hlive
  obtain ⟨s₃,hs₃,hrep₃⟩ := exchange_eq hrep₂ hc
  refine ⟨s₃,by rw [assignMove,hs₁,Option.bind_some,hs₂,Option.bind_some,hs₃],?_⟩
  have hvalues : Function.update (Function.update (Function.update values y (some a)) x (some b)) y (some none) =
      Function.update (Function.update values x (some b)) y (some none) := by
    funext z
    by_cases hzy : z = y
    · simp [hzy]
    · by_cases hzx : z = x
      · subst hzx
        simp [hzy]
      · simp [hzy,hzx]
  rwa [hvalues] at hrep₃

omit [DecidableEq T] in
theorem assignValue_eq (h : s.Represents values.named) {x : N} {a : Option (Holder V)} (hx : values x = some a)
    (v : Holder V) :
    ∃ s', assignValue s x v = some s' ∧ s'.Represents (Values.named (Function.update values x (some (some v)))) := by
  obtain ⟨s₁,hs₁,hrep₁⟩ := h.constructNew (x:=none) rfl v
  obtain ⟨s₂,hs₂,hrep₂⟩ := exchange_eq hrep₁ hx
  exact ⟨s₂,by rw [assignValue,hs₁,Option.bind_some,hs₂],hrep₂⟩

omit [DecidableEq T] in
theorem clear_eq (h : s.Represents values.named) {x : N} {a : Option (Holder V)} (hx : values x = some a) :
    ∃ s', clear s x = some s' ∧ s'.Represents (Values.named (Function.update values x (some none))) := by
  obtain ⟨s₁,hs₁,hrep₁⟩ := h.construct (x:=none) rfl
  obtain ⟨s₂,hs₂,hrep₂⟩ := exchange_eq hrep₁ hx
  exact ⟨s₂,by rw [clear,hs₁,Option.bind_some,hs₂],hrep₂⟩

omit [DecidableEq T] [DecidableEq N] in
theorem type_eq (h : s.Represents values.named) (x : N) : type s x = values.type x := by
  have hvalue : values x = _ := h.value (some x)
  rw [type,Values.type,hvalue,Option.map_map]
  rfl

omit [DecidableEq N] in
theorem any_cast_some (h : s.Represents values.named) {x : N} {t : T} {p : ℕ} (hcast : any_cast s x t = some p) :
    ∃ v, s.heap.cells p = some ⟨t,v⟩ ∧ values x = some (some ⟨t,v⟩) := by
  have hvalue : values x = _ := h.value (some x)
  rw [any_cast] at hcast
  split at hcast
  · rename_i htype
    cases hpointer : s.pointers (some x) with
    | none => simp [hpointer] at hcast
    | some content =>
      have hp : content = some p := by simpa [hpointer] using hcast
      subst hp
      rw [type,hpointer,Option.map_some,Option.some.injEq] at htype
      obtain ⟨⟨t',v⟩,hread,rfl⟩ := Option.map_eq_some_iff.mp htype
      refine ⟨v,hread,?_⟩
      rw [hvalue,hpointer,Option.map_some,hread]
  · cases hcast

omit [DecidableEq N] in
theorem any_cast_none (h : s.Represents values.named) {x : N} {t : T} (hcast : any_cast s x t = none) :
    values.type x ≠ some (some t) := by
  intro htype
  rw [any_cast,type_eq h,if_pos htype] at hcast
  rw [← type_eq h,type] at htype
  cases hpointer : s.pointers (some x) with
  | none => simp [hpointer] at htype
  | some content =>
    rw [hpointer] at hcast htype
    have hnone : content = none := hcast
    subst hnone
    cases htype

omit [DecidableEq N] in
theorem any_castRef_eq (h : s.Represents values.named) (x : N) (t : T) : any_castRef s x t = values.any_cast x t := by
  rw [any_castRef,Values.any_cast]
  cases hcast : any_cast s x t with
  | none =>
    have htype := any_cast_none h hcast
    rw [Values.type] at htype
    cases hvalue : values x with
    | none => rfl
    | some value =>
      cases value with
      | none => rfl
      | some v =>
        obtain ⟨t',v⟩ := v
        have hne : t' ≠ t := by
          rintro rfl
          rw [hvalue] at htype
          exact htype rfl
        simp only [dif_neg hne]
  | some p =>
    obtain ⟨v,hcell,hvalue⟩ := any_cast_some h hcast
    simp only [hcell,hvalue]

theorem put_eq (h : s.Represents values.named) {x : N} {a : Option (Holder V)} (hx : values x = some a) (v : Holder V) :
    ∃ s', put s x v = some s' ∧ s'.Represents (Values.named
      (if values.type x = some (some v.1) then Function.update values x (some (some v)) else values)) := by
  rw [put]
  cases hcast : any_cast s x v.1 with
  | none =>
    rw [if_neg (any_cast_none h hcast)]
    obtain ⟨content,hcontent⟩ := Option.ne_none_iff_exists'.mp (fun hnone => by
      have hdead : values x = none := (h.alive (some x)).mp hnone
      rw [hx] at hdead
      cases hdead)
    exact ⟨s,by simp only [hcontent,Option.map_some],h⟩
  | some p =>
    obtain ⟨w,-,hvalue⟩ := any_cast_some h hcast
    rw [if_pos (by rw [Values.type,hvalue]; rfl),← Values.update_named]
    exact h.write (x:=some x) hvalue v

/-- A call does to the objects what it does to the values. -/
theorem step_eq {label : Label V N} {values' : Values V N} (h : s.Represents values.named)
    (hstep : values.step label = some values') : ∃ s', step s label = some s' ∧ s'.Represents values'.named := by
  cases label with
  | construct x =>
    simp only [Values.step] at hstep
    split at hstep <;> cases hstep
    rw [← Values.update_named]
    exact h.construct (x:=some x) ‹_›
  | constructValue x v =>
    simp only [Values.step] at hstep
    split at hstep <;> cases hstep
    rw [← Values.update_named]
    exact h.constructNew (x:=some x) ‹_› v
  | constructCopy x y =>
    simp only [Values.step] at hstep
    split at hstep <;> cases hstep
    rw [← Values.update_named]
    exact h.constructCopy (x:=some x) (y:=some y) ‹_› ‹_›
  | constructMove x y =>
    simp only [Values.step] at hstep
    split at hstep <;> cases hstep
    rw [← Values.update_named,← Values.update_named]
    exact h.constructMove (x:=some x) (y:=some y) ‹_› ‹_›
  | destroy x =>
    obtain ⟨value,hvalue,rfl⟩ := Option.map_eq_some_iff.mp hstep
    rw [← Values.update_named]
    exact h.destroy (x:=some x) hvalue
  | swap x y =>
    simp only [Values.step] at hstep
    split at hstep <;> cases hstep
    rw [← Values.update_named,← Values.update_named]
    exact h.swap (x:=some x) (y:=some y) ‹_› ‹_›
  | assignCopy x y =>
    simp only [Values.step] at hstep
    split at hstep <;> cases hstep
    exact assignCopy_eq h ‹_› ‹_›
  | assignMove x y =>
    simp only [Values.step] at hstep
    split at hstep <;> cases hstep
    exact assignMove_eq h ‹_› ‹_›
  | assignValue x v =>
    obtain ⟨value,hvalue,rfl⟩ := Option.map_eq_some_iff.mp hstep
    exact assignValue_eq h hvalue v
  | clear x =>
    obtain ⟨value,hvalue,rfl⟩ := Option.map_eq_some_iff.mp hstep
    exact clear_eq h hvalue
  | put x v =>
    obtain ⟨value,hvalue,rfl⟩ := Option.map_eq_some_iff.mp hstep
    exact put_eq h hvalue v

/-- For all sequences of constructions, assignments, moves, swaps, destructions and writes through `any_cast`, in which
an object is created once before it is used and destroyed: no pointer is deleted twice or used behind its deletion,
and the objects are the values that were assigned, copies apart from each other. `type` and `any_cast` answer for
the value, `any_cast` with an exception exactly for another type; each holder belongs to one object, and with
the last object the last holder is gone. -/
theorem any_refines_values {labels : List (Label V N)} {values : Values V N}
    (h : Run Values.step (fun _ => none) labels values) :
    ∃ s : Anys V N, Run step .empty labels s ∧ (∀ x, (s.pointers (some x)).map s.heap.read = values x) ∧
      (∀ x, type s x = values.type x) ∧ (∀ x t, any_castRef s x t = values.any_cast x t) ∧
      (∀ p, (s.heap.cells p).isSome → ∃! x, s.pointers (some x) = some (some p)) ∧
      ((∀ x, values x = none) → ∀ p, s.heap.cells p = none) := by
  have hempty : (Objects.empty : Anys V N).Represents (Values.named fun _ => none) := by
    have hnamed : Values.named (fun _ => none) = fun _ : Option N => (none : Option (Option (Holder V))) := by
      funext x
      cases x <;> rfl
    rw [hnamed]
    exact Objects.represents_empty
  obtain ⟨s,hrun,hrep⟩ := h.simulation (R:=fun values (s : Anys V N) => s.Represents values.named)
    (fun values label values' s hs hstep => step_eq hs hstep) hempty
  have howner : ∀ p, (s.heap.cells p).isSome → ∃ x, s.pointers (some x) = some (some p) := by
    intro p hp
    obtain ⟨x,hx⟩ := hrep.owned p hp
    cases x with
    | none =>
      -- No temporary is left.
      have hdead : s.pointers none = none := (hrep.alive none).mpr rfl
      rw [hdead] at hx
      cases hx
    | some x => exact ⟨x,hx⟩
  refine ⟨s,hrun,fun x => (hrep.value (some x)).symm,type_eq hrep,any_castRef_eq hrep,fun p hp => ?_,
    fun hnone p => ?_⟩
  · obtain ⟨x,hx⟩ := howner p hp
    exact ⟨x,hx,fun y hy => Option.some.inj (hrep.apart (some y) (some x) p hy hx)⟩
  · by_contra hp
    obtain ⟨x,hx⟩ := howner p (Option.isSome_iff_ne_none.mpr hp)
    have hdead : s.pointers (some x) = none := (hrep.alive (some x)).mpr (hnone x)
    rw [hdead] at hx
    cases hx

def NumberOrText (number : Bool) : Type := if number then ℕ else String

/-- A copy that is written to, a move onto itself, and the end of all objects. -/
def copied : List (Label NumberOrText Bool) :=
  [.constructValue true ⟨true,(5 : ℕ)⟩,.constructCopy false true,.put false ⟨true,(6 : ℕ)⟩,.put false ⟨false,"six"⟩,
    .assignMove true true,.assignCopy true false,.destroy false,.destroy true]

theorem any_refines_values_copied : ∃ s : Anys NumberOrText Bool, Run step .empty copied s ∧
    ∀ p, s.heap.cells p = none := by
  obtain ⟨values,hvalues⟩ : ∃ values, exec Values.step (fun _ => none) copied = some values := ⟨_,rfl⟩
  obtain ⟨s,hrun,-,-,-,-,hgone⟩ := any_refines_values ((run_iff_exec _ _ _ _).mpr hvalues)
  refine ⟨s,hrun,hgone fun x => ?_⟩
  have hdead : ∀ x, (exec Values.step (fun _ => none) copied).map (fun values => (values x).isSome) = some false := by
    decide
  have hx := hdead x
  rw [hvalues,Option.map_some,Option.some.injEq] at hx
  exact Option.isNone_iff_eq_none.mp (by simpa using hx)

end Any
end GgLib
