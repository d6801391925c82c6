import Mathlib.Data.List.Basic
import Mathlib.Data.List.Infix
import Mathlib.Tactic.Common

/-! A queue of work that is drained in batches: work is pushed behind `pending`, a batch
takes all of it over, and the batch is worked off from its front. -/

structure WorkQueue (A : Type*) where
  pending : List A
  batch : List A
  finished : List A
  deriving DecidableEq, Repr

namespace WorkQueue

variable {A : Type*}

def empty : WorkQueue A := ⟨[],[],[]⟩

variable (q : WorkQueue A)

def push (a : A) : WorkQueue A := { q with pending := q.pending++[a] }

def swap : WorkQueue A := { q with pending := [], batch := q.pending }

def next : Option (A × WorkQueue A) :=
  match q.batch with
  | [] => none
  | a::batch => some (a,{ q with batch, finished := q.finished++[a] })

def history : List A := q.finished++q.batch++q.pending

@[simp] theorem history_push (a : A) : (q.push a).history = q.history++[a] := by
  simp [history,push]

variable {q}

theorem history_swap (h : q.batch = []) : q.swap.history = q.history := by
  simp [history,swap,h]

theorem next_some {a : A} {q' : WorkQueue A} (h : q.next = some (a,q')) :
    q.batch = a::q'.batch ∧ q'.pending = q.pending ∧ q'.finished = q.finished++[a] := by
  rw [next] at h
  split at h
  · cases h
  · rename_i hb
    cases h
    exact ⟨hb,rfl,rfl⟩

theorem next_none (h : q.next = none) : q.batch = [] := by
  rw [next] at h
  split at h
  · assumption
  · cases h

theorem history_next {a : A} {q' : WorkQueue A} (h : q.next = some (a,q')) : q'.history = q.history := by
  obtain ⟨hb,hp,hf⟩ := next_some h
  simp [history,hb,hp,hf]

theorem begun_next {a : A} {q' : WorkQueue A} (h : q.next = some (a,q')) :
    q'.finished++q'.batch = q.finished++q.batch := by
  obtain ⟨hb,-,hf⟩ := next_some h
  simp [hb,hf]

theorem finished_prefix_history : q.finished <+: q.history :=
  ⟨q.batch++q.pending,by simp [history]⟩

end WorkQueue
