import Mathlib.Data.List.Basic
import Mathlib.Data.List.Nodup
import Mathlib.Tactic.Common

/-! A condition variable of a monitor: the threads asleep on it, and those that were woken
and have not acquired the lock again. A step is one critical section. -/

structure ConditionVariable (T : Type*) where
  asleep : List T
  woken : List T
  deriving DecidableEq, Repr

namespace ConditionVariable

variable {T : Type*}

def empty : ConditionVariable T := ⟨[],[]⟩

variable (cv : ConditionVariable T)

/-- Release the lock and fall asleep. -/
def wait (t : T) : ConditionVariable T := { cv with asleep := cv.asleep++[t] }

def notifyAll : ConditionVariable T := ⟨[],cv.woken++cv.asleep⟩

def waiters : List T := cv.asleep++cv.woken

theorem waiters_wait (t : T) : (cv.wait t).waiters.Perm (t::cv.waiters) := by
  rw [waiters,wait,List.append_assoc]
  exact List.perm_middle

theorem waiters_notifyAll : cv.notifyAll.waiters.Perm cv.waiters := by
  rw [waiters,waiters,notifyAll,List.nil_append]
  exact List.perm_append_comm

variable {cv}

theorem mem_waiters_of_asleep {t : T} (h : t ∈ cv.asleep) : t ∈ cv.waiters := List.mem_append_left _ h

variable [DecidableEq T] {cv' : ConditionVariable T} {t : T}

variable (cv) in
/-- One sleeper wakes up, notified or by itself. -/
def wake (t : T) : Option (ConditionVariable T) :=
  if t ∈ cv.asleep then some ⟨cv.asleep.erase t,cv.woken++[t]⟩ else none

variable (cv) in
/-- Release one sleeper, if there is any; `t` is the one that the scheduler picks. -/
def notifyOne (t : T) : Option (ConditionVariable T) := if cv.asleep = [] then some cv else cv.wake t

variable (cv) in
/-- A woken thread returns from `wait` with the lock. -/
def acquire (t : T) : Option (ConditionVariable T) :=
  if t ∈ cv.woken then some { cv with woken := cv.woken.erase t } else none

theorem wake_some (h : cv.wake t = some cv') :
    t ∈ cv.asleep ∧ cv'.asleep = cv.asleep.erase t ∧ cv'.woken.length = cv.woken.length+1 ∧
      cv'.waiters.Perm cv.waiters := by
  rw [wake] at h
  split at h
  · rename_i ht
    cases h
    refine ⟨ht,rfl,by simp,?_⟩
    have hperm : (cv.asleep.erase t++(cv.woken++[t])).Perm (t::(cv.asleep.erase t++cv.woken)) := by
      rw [← List.append_assoc]
      exact List.perm_append_singleton t _
    exact hperm.trans ((List.perm_cons_erase ht).symm.append_right cv.woken)
  · cases h

theorem notifyOne_some (h : cv.notifyOne t = some cv') :
    (cv.asleep = [] ∧ cv' = cv) ∨ (cv.asleep ≠ [] ∧ cv.wake t = some cv') := by
  rw [notifyOne] at h
  split at h
  · exact .inl ⟨‹_›,(Option.some.inj h).symm⟩
  · exact .inr ⟨‹_›,h⟩

theorem waiters_notifyOne (h : cv.notifyOne t = some cv') : cv'.waiters.Perm cv.waiters := by
  rcases notifyOne_some h with ⟨-,rfl⟩ | ⟨-,h⟩
  · exact .refl _
  · exact (wake_some h).2.2.2

theorem acquire_some (h : cv.acquire t = some cv') :
    cv'.asleep = cv.asleep ∧ cv'.woken.length+1 = cv.woken.length ∧ (t::cv'.waiters).Perm cv.waiters := by
  rw [acquire] at h
  split at h
  · rename_i ht
    cases h
    refine ⟨rfl,?_,?_⟩
    · have := List.length_pos_of_mem ht
      rw [List.length_erase_of_mem ht]
      omega
    · have hperm : (cv.asleep++t::cv.woken.erase t).Perm (t::(cv.asleep++cv.woken.erase t)) := List.perm_middle
      exact hperm.symm.trans ((List.perm_cons_erase ht).symm.append_left cv.asleep)
  · cases h

theorem notMem_asleep_of_wake (hnodup : cv.waiters.Nodup) (h : cv.wake t = some cv') : t ∉ cv'.asleep := by
  obtain ⟨-,hasleep,-,-⟩ := wake_some h
  rw [hasleep]
  exact (List.Nodup.of_append_left hnodup).not_mem_erase

/-- Exactly the threads with `P` wait, each once. -/
structure Waits (cv : ConditionVariable T) (P : T → Prop) : Prop where
  nodup : cv.waiters.Nodup
  mem : ∀ t, t ∈ cv.waiters ↔ P t

variable {P Q : T → Prop}

omit [DecidableEq T] in
theorem waits_empty : (empty : ConditionVariable T).Waits fun _ => False :=
  ⟨.nil,fun _ => by simp [empty,waiters]⟩

omit [DecidableEq T] in
theorem Waits.congr (h : cv.Waits P) (hPQ : ∀ t, P t ↔ Q t) : cv.Waits Q :=
  ⟨h.nodup,fun t => (h.mem t).trans (hPQ t)⟩

omit [DecidableEq T] in
theorem Waits.perm (h : cv.Waits P) (hperm : cv'.waiters.Perm cv.waiters) : cv'.Waits P :=
  ⟨hperm.nodup_iff.mpr h.nodup,fun t => hperm.mem_iff.trans (h.mem t)⟩

omit [DecidableEq T] in
theorem Waits.wait (h : cv.Waits P) (ht : ¬ P t) : (cv.wait t).Waits fun u => u = t ∨ P u := by
  refine ⟨(waiters_wait cv t).nodup_iff.mpr ?_,fun u => (waiters_wait cv t).mem_iff.trans ?_⟩
  · exact List.nodup_cons.mpr ⟨fun hmem => ht ((h.mem t).mp hmem),h.nodup⟩
  · rw [List.mem_cons,h.mem u]

theorem Waits.acquire (h : cv.Waits P) (hcv : cv.acquire t = some cv') : cv'.Waits fun u => u ≠ t ∧ P u := by
  have hperm := (acquire_some hcv).2.2
  have hnodup := List.nodup_cons.mp (hperm.nodup_iff.mpr h.nodup)
  refine ⟨hnodup.2,fun u => ?_⟩
  rw [← h.mem u,← hperm.mem_iff,List.mem_cons]
  constructor
  · exact fun hu => ⟨fun hut => hnodup.1 (hut ▸ hu),.inr hu⟩
  · exact fun hu => hu.2.resolve_left hu.1

end ConditionVariable
