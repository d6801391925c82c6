import Mathlib.Data.List.Basic
import Mathlib.Tactic.Common

/-! Labelled partial transition systems: executable runs over a list of labels,
invariants of whole runs, runs whose every step meets a side condition, and
forward simulation between two systems with the same labels. -/
namespace LabelledSystem

variable {S T L : Type*}

/-- Execute a list of labels; a label that is not enabled ends the run with `none`. -/
def exec (step : S → L → Option S) : S → List L → Option S
  | s, [] => some s
  | s, a::as => (step s a).bind fun t => exec step t as

theorem exec_append_singleton (step : S → L → Option S) (s : S) (as : List L) (a : L) :
    exec step s (as++[a]) = (exec step s as).bind fun t => step t a := by
  induction as generalizing s with
  | nil => simp [exec]
  | cons b as ih => simp only [List.cons_append,exec,ih,Option.bind_assoc]

inductive Run (step : S → L → Option S) : S → List L → S → Prop
  | refl (s : S) : Run step s [] s
  | cons {s t u : S} {a : L} {as : List L} :
      step s a = some t → Run step t as u → Run step s (a::as) u

theorem run_iff_exec (step : S → L → Option S) (s u : S) (as : List L) :
    Run step s as u ↔ exec step s as = some u := by
  constructor
  · intro h
    induction h with
    | refl => rfl
    | cons hs _ ih => simp [exec,hs,ih]
  · intro h
    induction as generalizing s with
    | nil =>
      cases h
      exact Run.refl _
    | cons a as ih =>
      obtain ⟨t,hs,ht⟩ := Option.bind_eq_some_iff.mp h
      exact Run.cons hs (ih t ht)

/-- What holds at the start and is kept by every step holds at the end of every run. -/
theorem Run.invariant {step : S → L → Option S} {I : S → Prop}
    (hstep : ∀ s a t, I s → step s a = some t → I t)
    {s u : S} {as : List L} (h : Run step s as u) (hs : I s) : I u := by
  induction h with
  | refl => exact hs
  | cons ha _ ih => exact ih (hstep _ _ _ hs ha)

/-- Every step of the run meets `C` in the state before it. -/
def Along (step : S → L → Option S) (C : S → L → Prop) : S → List L → Prop
  | _, [] => True
  | s, a::as => C s a ∧ ∀ t, step s a = some t → Along step C t as

/-- An invariant kept by the steps that meet `C`, over a run all of whose steps do. -/
theorem Run.invariant_along {step : S → L → Option S} {I : S → Prop} {C : S → L → Prop}
    (hstep : ∀ s a t, I s → C s a → step s a = some t → I t)
    {s u : S} {as : List L} (h : Run step s as u) (hC : Along step C s as) (hs : I s) : I u := by
  induction h with
  | refl => exact hs
  | cons ha _ ih => exact ih (hC.2 _ ha) (hstep _ _ _ hs hC.1 ha)

theorem Along.and {step : S → L → Option S} {C D : S → L → Prop} {s : S} {as : List L}
    (h : Along step C s as) (h' : Along step D s as) : Along step (fun s a => C s a ∧ D s a) s as := by
  induction as generalizing s with
  | nil => trivial
  | cons a as ih => exact ⟨⟨h.1,h'.1⟩,fun t ht => ih (h.2 t ht) (h'.2 t ht)⟩

/-- A condition on the labels alone. -/
theorem Along.of_labels {step : S → L → Option S} {C : L → Prop} {s : S} {as : List L}
    (h : ∀ a ∈ as, C a) : Along step (fun _ a => C a) s as := by
  induction as generalizing s with
  | nil => trivial
  | cons a as ih => exact ⟨h a (.head _),fun t _ => ih fun b hb => h b (.tail _ hb)⟩

/-- Under an invariant that the steps with `C` keep, `C` gives `D` along the whole run. -/
theorem Along.imp {step : S → L → Option S} {I : S → Prop} {C D : S → L → Prop}
    (hI : ∀ s a t, I s → C s a → step s a = some t → I t) (hD : ∀ s a, I s → C s a → D s a)
    {s : S} {as : List L} (hs : I s) (h : Along step C s as) : Along step D s as := by
  induction as generalizing s with
  | nil => trivial
  | cons a as ih => exact ⟨hD s a hs h.1,fun t ht => ih (hI s a t hs h.1 ht) (h.2 t ht)⟩

/-- Two conditions agree along a run when they agree on each step under an invariant, and
the steps that meet the second keep it. -/
theorem Along.congr {step : S → L → Option S} {I : S → Prop} {C D : S → L → Prop}
    (hI : ∀ s a t, I s → D s a → step s a = some t → I t) (hCD : ∀ s a, I s → (C s a ↔ D s a))
    {s : S} {as : List L} (hs : I s) : Along step C s as ↔ Along step D s as := by
  induction as generalizing s with
  | nil => exact Iff.rfl
  | cons a as ih =>
    constructor
    · rintro ⟨hC,hrest⟩
      have hD := (hCD s a hs).mp hC
      exact ⟨hD,fun t ht => (ih (hI s a t hs hD ht)).mp (hrest t ht)⟩
    · rintro ⟨hD,hrest⟩
      exact ⟨(hCD s a hs).mpr hD,fun t ht => (ih (hI s a t hs hD ht)).mpr (hrest t ht)⟩

/-- When a step keeps `G` exactly if it meets `C`, a run keeps `G` exactly if every step does. -/
theorem Run.iff_along {step : S → L → Option S} {I G : S → Prop} {C : S → L → Prop}
    (hI : ∀ s a t, I s → step s a = some t → I t)
    (hG : ∀ s a t, I s → step s a = some t → (G t ↔ G s ∧ C s a))
    {s u : S} {as : List L} (h : Run step s as u) (hs : I s) : G u ↔ G s ∧ Along step C s as := by
  induction h with
  | refl => simp [Along]
  | @cons s t u a as ha _ ih =>
    have ht : (∀ t', step s a = some t' → Along step C t' as) ↔ Along step C t as := by simp [ha]
    rw [ih (hI _ _ _ hs ha),hG _ _ _ hs ha,Along,ht,and_assoc]

/-- Every state of the run, the first and the last included, satisfies `P`. -/
def Throughout (step : S → L → Option S) (P : S → Prop) : S → List L → Prop
  | s, [] => P s
  | s, a::as => P s ∧ ∀ t, step s a = some t → Throughout step P t as

theorem Throughout.head {step : S → L → Option S} {P : S → Prop} {s : S} {as : List L}
    (h : Throughout step P s as) : P s := by
  cases as with
  | nil => exact h
  | cons a as => exact h.1

theorem Throughout.last {step : S → L → Option S} {P : S → Prop} {s u : S} {as : List L}
    (h : Throughout step P s as) (hrun : Run step s as u) : P u := by
  induction hrun with
  | refl => exact h
  | cons ha _ ih => exact ih (h.2 _ ha)

instance decidableAlong (step : S → L → Option S) (C : S → L → Prop) [∀ s a, Decidable (C s a)] :
    (s : S) → (as : List L) → Decidable (Along step C s as)
  | _, [] => isTrue trivial
  | s, a::as =>
    match h : step s a with
    | none => decidable_of_iff (C s a) (by simp [Along,h])
    | some t =>
      have := decidableAlong step C t as
      decidable_of_iff (C s a ∧ Along step C t as) (by simp [Along,h])

instance decidableThroughout (step : S → L → Option S) (P : S → Prop) [DecidablePred P] :
    (s : S) → (as : List L) → Decidable (Throughout step P s as)
  | s, [] => inferInstanceAs (Decidable (P s))
  | s, a::as =>
    match h : step s a with
    | none => decidable_of_iff (P s) (by simp [Throughout,h])
    | some t =>
      have := decidableThroughout step P t as
      decidable_of_iff (P s ∧ Throughout step P t as) (by simp [Throughout,h])

/-- An invariant kept by the steps with labels in `C` between states that satisfy `P`. -/
theorem Run.invariant_throughout {step : S → L → Option S} {I P : S → Prop} {C : L → Prop}
    (hstep : ∀ s a t, C a → P s → P t → I s → step s a = some t → I t)
    {s u : S} {as : List L} (h : Run step s as u) (hC : ∀ a ∈ as, C a) (hP : Throughout step P s as)
    (hs : I s) : I u := by
  induction h with
  | refl => exact hs
  | @cons s t u a as ha _ ih =>
    have ht := hP.2 _ ha
    exact ih (fun b hb => hC b (.tail _ hb)) ht (hstep _ _ _ (hC a (.head _)) hP.1 ht.head hs ha)

/-- When a step keeps `P` exactly if it meets `C`, `P` holds throughout a run exactly if every
step does. -/
theorem Run.throughout_iff_along {step : S → L → Option S} {P : S → Prop} {C : S → L → Prop}
    (hP : ∀ s a t, P s → step s a = some t → (P t ↔ C s a))
    {s u : S} {as : List L} (h : Run step s as u) (hs : P s) : Throughout step P s as ↔ Along step C s as := by
  induction h with
  | refl => simp [Throughout,Along,hs]
  | @cons s t u a as ha _ ih =>
    have hiff := hP _ _ _ hs ha
    have hthroughout : (∀ t', step s a = some t' → Throughout step P t' as) ↔ Throughout step P t as := by simp [ha]
    have halong : (∀ t', step s a = some t' → Along step C t' as) ↔ Along step C t as := by simp [ha]
    rw [Throughout,Along,hthroughout,halong,and_iff_right hs]
    constructor
    · intro ht
      exact ⟨hiff.mp ht.head,(ih ht.head).mp ht⟩
    · rintro ⟨hC,ht⟩
      exact (ih (hiff.mpr hC)).mpr ht

/-- Forward simulation: related states stay related along every run of the first system. -/
theorem Run.simulation {step : S → L → Option S} {spec : T → L → Option T} {R : S → T → Prop}
    (hstep : ∀ s a s' t, R s t → step s a = some s' → ∃ t', spec t a = some t' ∧ R s' t')
    {s u : S} {as : List L} (h : Run step s as u) {t : T} (hR : R s t) :
    ∃ v, Run spec t as v ∧ R u v := by
  induction h generalizing t with
  | refl => exact ⟨t,Run.refl t,hR⟩
  | cons ha _ ih =>
    obtain ⟨t',ht',hR'⟩ := hstep _ _ _ _ hR ha
    obtain ⟨v,hv,hRv⟩ := ih hR'
    exact ⟨v,Run.cons ht' hv,hRv⟩

end LabelledSystem
