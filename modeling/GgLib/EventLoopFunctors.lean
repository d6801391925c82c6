import GgLib.EventLoop
import Mathlib.Data.List.Range

/-! The functors of an `EventLoop` over its runs: each is executed once, in the order of
the pushes and by the next `doPendingFunctors`, and none is left waiting in poll. -/
namespace GgLib

open LabelledSystem

namespace EventLoop

variable {w w' : EventLoop}

@[simp] theorem wakeup_work (w : EventLoop) : w.wakeup.work = w.work := by
  rw [wakeup]
  split <;> rfl

@[simp] theorem wakeup_phase (w : EventLoop) : w.wakeup.phase = w.phase := by
  rw [wakeup]
  split <;> rfl

@[simp] theorem wakeup_threads (w : EventLoop) : w.wakeup.threads = w.threads := by
  rw [wakeup]
  split <;> rfl

@[simp] theorem wakeup_callingPendingFunctors (w : EventLoop) :
    w.wakeup.callingPendingFunctors = w.callingPendingFunctors := by
  rw [wakeup]
  split <;> rfl

@[simp] theorem wakeup_quitCalled (w : EventLoop) : w.wakeup.quitCalled = w.quitCalled := by
  rw [wakeup]
  split <;> rfl

@[simp] theorem wakeup_accepted (w : EventLoop) : w.wakeup.accepted = w.accepted := by
  rw [wakeup]
  split <;> rfl

@[simp] theorem wakeup_quit (w : EventLoop) : w.wakeup.quit = w.quit := by
  rw [wakeup]
  split <;> rfl

@[simp] theorem wakeup_quitStored (w : EventLoop) : w.wakeup.quitStored = w.quitStored := by
  rw [wakeup]
  split <;> rfl

theorem wakeup_pos (w : EventLoop) : 0 < w.wakeup.wakeupFd := by
  rw [wakeup]
  split
  · exact Nat.succ_pos _
  · omega

/-- What one step of `loop()` does. -/
theorem loop_cases {active : List Active} (h : w.loop active = some w') :
    (w.phase = .starting ∧ w' = { w with quit := false, phase := .testing }) ∨
    (w.phase = .testing ∧ w.mutex = false ∧ w.quit = true ∧ w' = { w with phase := .returned }) ∨
    (w.phase = .testing ∧ w.mutex = false ∧ w.quit = false ∧ w' = { w with phase := .polling }) ∨
    (w.phase = .polling ∧ w' = { w with activeChannels := active, phase := .handling }) ∨
    (w.phase = .handling ∧ ∃ counter channels,
      w' = { w with wakeupFd := counter, activeChannels := channels }) ∨
    (w.phase = .handling ∧ w' = { w with callingPendingFunctors := true, phase := .swapping }) ∨
    (w.phase = .swapping ∧ w' = { w with work := w.work.swap, phase := .calling }) ∨
    (w.phase = .calling ∧ ∃ f work, w.work.next = some (f,work) ∧ w' = { w with work }) ∨
    (w.phase = .calling ∧ w.work.batch = [] ∧
      w' = { w with callingPendingFunctors := false, phase := .testing }) := by
  obtain ⟨phase,hphase⟩ : ∃ phase, w.phase = phase := ⟨_,rfl⟩
  rw [loop] at h
  cases phase with
  | starting =>
    rw [hphase] at h
    cases h
    exact .inl ⟨hphase,rfl⟩
  | testing =>
    simp only [hphase] at h
    split at h
    · cases h
    · rename_i hmutex
      have hmutex : w.mutex = false := by simpa using hmutex
      split at h
      · rename_i hquit
        cases h
        exact .inr (.inl ⟨hphase,hmutex,hquit,rfl⟩)
      · rename_i hquit
        cases h
        exact .inr (.inr (.inl ⟨hphase,hmutex,by simpa using hquit,rfl⟩))
  | polling =>
    rw [hphase] at h
    cases h
    exact .inr (.inr (.inr (.inl ⟨hphase,rfl⟩)))
  | handling =>
    simp only [hphase] at h
    split at h <;> cases h
    · exact .inr (.inr (.inr (.inr (.inl ⟨hphase,_,_,rfl⟩))))
    · exact .inr (.inr (.inr (.inr (.inl ⟨hphase,_,_,by rw [hphase]⟩))))
    · exact .inr (.inr (.inr (.inr (.inr (.inl ⟨hphase,rfl⟩)))))
  | swapping =>
    simp only [hphase] at h
    split at h
    · cases h
    · cases h
      exact .inr (.inr (.inr (.inr (.inr (.inr (.inl ⟨hphase,rfl⟩))))))
  | calling =>
    simp only [hphase] at h
    split at h
    · rename_i f work hnext
      cases h
      exact .inr (.inr (.inr (.inr (.inr (.inr (.inr (.inl ⟨hphase,f,work,hnext,by rw [hphase]⟩)))))))
    · rename_i hnext
      cases h
      exact .inr (.inr (.inr (.inr (.inr (.inr (.inr (.inr ⟨hphase,WorkQueue.next_none hnext,rfl⟩)))))))
  | returned =>
    rw [hphase] at h
    cases h

/-- What one step of a call does. -/
theorem advance_cases {thread : ℕ} (h : w.advance thread = some w') :
    (∃ f, w.threads thread = .pushed f ∧ ∃ w₁ : EventLoop,
      (w₁ = w.wakeup ∨ (w₁ = w ∧ thread = 0 ∧ w.callingPendingFunctors = false)) ∧
      w' = { w₁ with
        accepted := if w.quitCalled then w.accepted else w.accepted++[f]
        threads := Function.update w.threads thread .idle }) ∨
    (w.threads thread = .quitting ∧ w.mutex = false ∧
      w' = { w with
        quit := true
        mutex := true
        quitStored := true
        threads := Function.update w.threads thread .stored }) ∨
    (w.threads thread = .stored ∧ ∃ w₁ : EventLoop, (w₁ = w.wakeup ∨ w₁ = w) ∧
      w' = { w₁ with mutex := false, threads := Function.update w.threads thread .idle }) := by
  rw [advance] at h
  cases hpc : w.threads thread with
  | idle =>
    rw [hpc] at h
    cases h
  | pushed f =>
    simp only [hpc] at h
    cases h
    refine .inl ⟨f,rfl,if thread ≠ 0 ∨ w.callingPendingFunctors = true then w.wakeup else w,?_,?_⟩
    · split
      · exact .inl rfl
      · rename_i hn
        have hn : thread = 0 ∧ w.callingPendingFunctors = false := by simpa using hn
        exact .inr ⟨rfl,hn⟩
    · split <;> cases hq : w.quitCalled <;> simp [setThread,hq]
  | quitting =>
    simp only [hpc] at h
    split at h
    · cases h
    · rename_i hmutex
      cases h
      exact .inr (.inl ⟨rfl,by simpa using hmutex,rfl⟩)
  | stored =>
    simp only [hpc] at h
    cases h
    refine .inr (.inr ⟨rfl,if thread ≠ 0 then w.wakeup else w,?_,?_⟩)
    · split
      · exact .inl rfl
      · exact .inr rfl
    · split <;> simp [setThread]

theorem step_cases {l : Label} (h : w.step l = some w') :
    (∃ active, l = .loop active ∧ w.threads 0 = .idle ∧ w.loop active = some w') ∨
    (∃ thread, l = .queueInLoop thread ∧ w.Calls thread ∧ w.mutex = false ∧
      w' = { w with
        work := w.work.push w.work.history.length
        threads := Function.update w.threads thread (.pushed w.work.history.length) }) ∨
    (∃ thread, l = .quit thread ∧ w.Calls thread ∧
      w' = { w with quitCalled := true, threads := Function.update w.threads thread .quitting }) ∨
    ∃ thread, l = .advance thread ∧ w.advance thread = some w' := by
  cases l with
  | loop active =>
    rw [step] at h
    split at h
    · exact .inl ⟨active,rfl,by assumption,h⟩
    · cases h
  | queueInLoop thread =>
    rw [step] at h
    split at h
    · rename_i hcalls
      rw [queueInLoop] at h
      split at h
      · cases h
      · rename_i hmutex
        cases h
        exact .inr (.inl ⟨thread,rfl,hcalls,by simpa using hmutex,rfl⟩)
    · cases h
  | quit thread =>
    rw [step] at h
    split at h
    · rename_i hcalls
      cases h
      exact .inr (.inr (.inl ⟨thread,rfl,hcalls,rfl⟩))
    · cases h
  | advance thread => exact .inr (.inr (.inr ⟨thread,rfl,h⟩))

/-- The functors are numbered in the order of their push, and `doPendingFunctors` has a
batch only while it runs it. -/
structure Ordered (w : EventLoop) : Prop where
  numbered : w.work.history = List.range w.work.history.length
  batch : w.phase ≠ .calling → w.work.batch = []

theorem create_ordered : create.Ordered := ⟨rfl,fun _ => rfl⟩

theorem step_ordered {l : Label} (hw : w.Ordered) (h : w.step l = some w') : w'.Ordered := by
  rcases step_cases h with ⟨active,-,-,hl⟩ | ⟨thread,-,-,-,rfl⟩ | ⟨thread,-,-,rfl⟩ | ⟨thread,-,ha⟩
  · rcases loop_cases hl with ⟨hp,rfl⟩ | ⟨hp,-,-,rfl⟩ | ⟨hp,-,-,rfl⟩ | ⟨hp,rfl⟩ | ⟨hp,-,-,rfl⟩ | ⟨hp,rfl⟩ |
      ⟨hp,rfl⟩ | ⟨hp,f,work,hnext,rfl⟩ | ⟨hp,hb,rfl⟩
    · exact ⟨hw.numbered,fun _ => hw.batch (by rw [hp]; decide)⟩
    · exact ⟨hw.numbered,fun _ => hw.batch (by rw [hp]; decide)⟩
    · exact ⟨hw.numbered,fun _ => hw.batch (by rw [hp]; decide)⟩
    · exact ⟨hw.numbered,fun _ => hw.batch (by rw [hp]; decide)⟩
    · exact ⟨hw.numbered,fun _ => hw.batch (by rw [hp]; decide)⟩
    · exact ⟨hw.numbered,fun _ => hw.batch (by rw [hp]; decide)⟩
    · have hb := hw.batch (by rw [hp]; decide)
      refine ⟨?_,fun hne => absurd rfl hne⟩
      show w.work.swap.history = List.range w.work.swap.history.length
      rw [WorkQueue.history_swap hb]
      exact hw.numbered
    · refine ⟨?_,fun hne => absurd hp hne⟩
      show work.history = List.range work.history.length
      rw [WorkQueue.history_next hnext]
      exact hw.numbered
    · exact ⟨hw.numbered,fun _ => hb⟩
  · refine ⟨?_,hw.batch⟩
    show (w.work.push _).history = List.range (w.work.push _).history.length
    rw [WorkQueue.history_push,List.length_append,List.length_singleton,List.range_succ,← hw.numbered]
  · exact ⟨hw.numbered,hw.batch⟩
  · rcases advance_cases ha with ⟨f,-,w₁,hw₁,rfl⟩ | ⟨-,-,rfl⟩ | ⟨-,w₁,hw₁,rfl⟩
    · rcases hw₁ with rfl | ⟨rfl,-⟩
      · exact ⟨by simpa using hw.numbered,by simpa using hw.batch⟩
      · exact ⟨hw.numbered,hw.batch⟩
    · exact ⟨hw.numbered,hw.batch⟩
    · rcases hw₁ with rfl | rfl
      · exact ⟨by simpa using hw.numbered,by simpa using hw.batch⟩
      · exact ⟨hw.numbered,hw.batch⟩

/-- The eventfd is readable, or a thread that has pushed is about to make it so. -/
def Awake (w : EventLoop) : Prop :=
  0 < w.wakeupFd ∨ ∃ thread f, w.threads thread = .pushed f ∧ (thread = 0 → w.phase = .calling)

/-- The loop thread calls only where it may, and from the swap to the next poll a functor
that waits is one somebody wakes the loop for. -/
structure Wakeful (w : EventLoop) : Prop where
  calls : w.threads 0 ≠ .idle → w.phase = .handling ∨ w.phase = .calling
  flag : w.phase = .calling → w.callingPendingFunctors = true
  swapping : w.phase = .swapping → w.callingPendingFunctors = true
  awake : w.phase ≠ .handling → w.phase ≠ .swapping → w.work.pending ≠ [] → w.Awake

theorem create_wakeful : create.Wakeful :=
  ⟨fun h => absurd rfl h,nofun,nofun,fun _ _ h => absurd rfl h⟩

theorem Awake.update {thread : ℕ} {pc : Pc} (hpc : ∀ f, w.threads thread ≠ .pushed f) (h : w.Awake) :
    0 < w.wakeupFd ∨ ∃ t f, Function.update w.threads thread pc t = .pushed f ∧ (t = 0 → w.phase = .calling) := by
  rcases h with h | ⟨t,f,ht,h0⟩
  · exact .inl h
  · have hne : t ≠ thread := by
      rintro rfl
      exact hpc f ht
    exact .inr ⟨t,f,by rwa [Function.update_of_ne hne],h0⟩

/-- A thread other than the loop thread does not bring the loop thread into a call. -/
theorem calls_update {w : EventLoop} {thread : ℕ} {pc : Pc} {P : Prop} (h : w.threads 0 ≠ .idle → P)
    (h0 : thread = 0 → pc ≠ .idle → P) : Function.update w.threads thread pc 0 ≠ .idle → P := by
  by_cases ht : thread = 0
  · rw [ht,Function.update_self]
    exact h0 ht
  · rw [Function.update_of_ne (Ne.symm ht)]
    exact h

theorem loop_wakeful {active : List Active} (hw : w.Wakeful) (h0 : w.threads 0 = .idle)
    (h : w.loop active = some w') : w'.Wakeful := by
  have hcalls : ∀ P, w.threads 0 ≠ .idle → P := fun P hne => absurd h0 hne
  -- what was pushed is still to be woken for by a thread other than this one
  have hkeep : w.phase ≠ .handling → w.phase ≠ .swapping → w.work.pending ≠ [] →
      0 < w.wakeupFd ∨ ∃ thread f, w.threads thread = .pushed f ∧ thread ≠ 0 := by
    intro hh hs hpending
    rcases hw.awake hh hs hpending with h | ⟨t,f,ht,-⟩
    · exact .inl h
    · refine .inr ⟨t,f,ht,?_⟩
      rintro rfl
      rw [h0] at ht
      cases ht
  have hgo : ∀ phase, (0 < w.wakeupFd ∨ ∃ thread f, w.threads thread = .pushed f ∧ thread ≠ 0) →
      0 < w.wakeupFd ∨ ∃ thread f, w.threads thread = .pushed f ∧ (thread = 0 → phase = Phase.calling) :=
    fun _ h => h.imp_right fun ⟨t,f,ht,hne⟩ => ⟨t,f,ht,fun h => absurd h hne⟩
  rcases loop_cases h with ⟨hp,rfl⟩ | ⟨hp,-,-,rfl⟩ | ⟨hp,-,-,rfl⟩ | ⟨hp,rfl⟩ | ⟨hp,-,-,rfl⟩ | ⟨hp,rfl⟩ |
    ⟨hp,rfl⟩ | ⟨hp,f,work,hnext,rfl⟩ | ⟨hp,hb,rfl⟩
  · exact ⟨hcalls _,nofun,nofun,
      fun _ _ hne => hgo _ (hkeep (by rw [hp]; decide) (by rw [hp]; decide) hne)⟩
  · exact ⟨hcalls _,nofun,nofun,
      fun _ _ hne => hgo _ (hkeep (by rw [hp]; decide) (by rw [hp]; decide) hne)⟩
  · exact ⟨hcalls _,nofun,nofun,
      fun _ _ hne => hgo _ (hkeep (by rw [hp]; decide) (by rw [hp]; decide) hne)⟩
  · exact ⟨hcalls _,nofun,nofun,fun hne => absurd rfl hne⟩
  · exact ⟨hcalls _,fun h => absurd (hp.symm.trans h) (by decide),fun h => absurd (hp.symm.trans h) (by decide),
      fun hne => absurd hp hne⟩
  · exact ⟨hcalls _,nofun,fun _ => rfl,fun _ hne => absurd rfl hne⟩
  · exact ⟨hcalls _,fun _ => hw.swapping hp,nofun,fun _ _ hne => absurd rfl hne⟩
  · obtain ⟨-,hpending,-⟩ := WorkQueue.next_some hnext
    refine ⟨hcalls _,hw.flag,hw.swapping,fun hh hs hne => ?_⟩
    exact hgo _ (hkeep hh hs (by rwa [← hpending]))
  · exact ⟨hcalls _,nofun,nofun,
      fun _ _ hne => hgo _ (hkeep (by rw [hp]; decide) (by rw [hp]; decide) hne)⟩

theorem step_wakeful {l : Label} (hw : w.Wakeful) (h : w.step l = some w') : w'.Wakeful := by
  rcases step_cases h with ⟨active,-,h0,hl⟩ | ⟨thread,-,hc,-,rfl⟩ | ⟨thread,-,hc,rfl⟩ | ⟨thread,-,ha⟩
  · exact loop_wakeful hw h0 hl
  · refine ⟨calls_update hw.calls fun h0 _ => hc.2 h0,hw.flag,hw.swapping,fun hh _ _ => .inr ?_⟩
    refine ⟨thread,_,Function.update_self ..,fun h0 => ?_⟩
    exact (hc.2 h0).resolve_left hh
  · refine ⟨calls_update hw.calls fun h0 _ => hc.2 h0,hw.flag,hw.swapping,fun hh hs hne => ?_⟩
    exact (hw.awake hh hs hne).update fun f => by simp [hc.1]
  · have hidle : ∀ P : Prop, (w.threads 0 ≠ .idle → P) →
        Function.update w.threads thread .idle 0 ≠ .idle → P :=
      fun P hP => calls_update hP fun _ hne => absurd rfl hne
    rcases advance_cases ha with ⟨f,hf,w₁,hw₁,rfl⟩ | ⟨hpc,-,rfl⟩ | ⟨hpc,w₁,hw₁,rfl⟩
    · rcases hw₁ with rfl | ⟨rfl,rfl,hcalling⟩
      · exact ⟨hidle _ (by simpa using hw.calls),by simpa using hw.flag,by simpa using hw.swapping,
          fun _ _ _ => .inl (wakeup_pos w)⟩
      · refine ⟨hidle _ hw.calls,hw.flag,hw.swapping,fun hh _ _ => ?_⟩
        have hphase : w₁.phase = .calling := (hw.calls (by simp [hf])).resolve_left hh
        cases hcalling.symm.trans (hw.flag hphase)
    · refine ⟨calls_update hw.calls fun h0 _ => hw.calls (by rw [← h0,hpc]; simp),hw.flag,hw.swapping,
        fun hh hs hne => ?_⟩
      exact (hw.awake hh hs hne).update fun f => by simp [hpc]
    · rcases hw₁ with rfl | rfl
      · exact ⟨hidle _ (by simpa using hw.calls),by simpa using hw.flag,by simpa using hw.swapping,
          fun _ _ _ => .inl (wakeup_pos w)⟩
      · refine ⟨hidle _ hw.calls,hw.flag,hw.swapping,fun hh hs hne => ?_⟩
        exact (hw.awake hh hs hne).update fun f => by simp [hpc]

theorem step_begun {l : Label} {fs : List ℕ} (hw : w.Ordered)
    (hfs : fs <+: w.work.finished++w.work.batch) (h : w.step l = some w') :
    fs <+: w'.work.finished++w'.work.batch := by
  rcases step_cases h with ⟨active,-,-,hl⟩ | ⟨thread,-,-,-,rfl⟩ | ⟨thread,-,-,rfl⟩ | ⟨thread,-,ha⟩
  · rcases loop_cases hl with ⟨-,rfl⟩ | ⟨-,-,-,rfl⟩ | ⟨-,-,-,rfl⟩ | ⟨-,rfl⟩ | ⟨-,-,-,rfl⟩ | ⟨-,rfl⟩ |
      ⟨hp,rfl⟩ | ⟨-,f,work,hnext,rfl⟩ | ⟨-,-,rfl⟩
    · exact hfs
    · exact hfs
    · exact hfs
    · exact hfs
    · exact hfs
    · exact hfs
    · have hb := hw.batch (by rw [hp]; decide)
      rw [hb,List.append_nil] at hfs
      exact hfs.trans (List.prefix_append _ _)
    · show fs <+: work.finished++work.batch
      rw [WorkQueue.begun_next hnext]
      exact hfs
    · exact hfs
  · exact hfs
  · exact hfs
  · rcases advance_cases ha with ⟨f,-,w₁,hw₁,rfl⟩ | ⟨-,-,rfl⟩ | ⟨-,w₁,hw₁,rfl⟩
    · rcases hw₁ with rfl | ⟨rfl,-⟩
      · simpa using hfs
      · exact hfs
    · exact hfs
    · rcases hw₁ with rfl | rfl
      · simpa using hfs
      · exact hfs

theorem run_ordered {labels : List Label} (h : Run step create labels w) : w.Ordered :=
  h.invariant (I:=Ordered) (fun _ _ _ hI hs => step_ordered hI hs) create_ordered

/-- Over every run: the executed functors are those pushed first, each once and in the
order of the pushes; a functor pushed before the swap of a `doPendingFunctors` has been
executed when that call ends; and when the loop enters poll while functors are pending,
the eventfd is readable or another thread has pushed and has still to write it. -/
theorem functors_executed {labels : List Label} (h : Run step create labels w) :
    w.work.finished <+: List.range w.work.history.length ∧
    (∀ active w₁, w.phase = .swapping → step w (.loop active) = some w₁ →
      ∀ labels₁ w₂, Run step w₁ labels₁ w₂ → w₂.phase ≠ .calling → w.work.history <+: w₂.work.finished) ∧
    (w.phase = .polling → w.work.pending ≠ [] →
      0 < w.wakeupFd ∨ ∃ thread f, thread ≠ 0 ∧ w.threads thread = .pushed f) := by
  have hord := run_ordered h
  refine ⟨?_,?_,?_⟩
  · rw [← hord.numbered]
    exact WorkQueue.finished_prefix_history
  · intro active w₁ hp h₁ labels₁ w₂ h₂ hp₂
    have hord₁ := step_ordered hord h₁
    have hbegun : w.work.history <+: w₁.work.finished++w₁.work.batch := by
      rcases step_cases h₁ with ⟨_,-,-,hl⟩ | ⟨_,hlabel,-⟩ | ⟨_,hlabel,-⟩ | ⟨_,hlabel,-⟩
      · rcases loop_cases hl with ⟨hq,-⟩ | ⟨hq,-⟩ | ⟨hq,-⟩ | ⟨hq,-⟩ | ⟨hq,-⟩ | ⟨hq,-⟩ | ⟨-,rfl⟩ | ⟨hq,-⟩ | ⟨hq,-⟩
        all_goals first | cases hp.symm.trans hq | skip
        have hb := hord.batch (by rw [hp]; decide)
        simp [WorkQueue.history,WorkQueue.swap,hb]
      all_goals cases hlabel
    have hlast := h₂.invariant (I:=fun s => s.Ordered ∧ w.work.history <+: s.work.finished++s.work.batch)
      (fun _ _ _ hI hs => ⟨step_ordered hI.1 hs,step_begun hI.1 hI.2 hs⟩) ⟨hord₁,hbegun⟩
    rw [hlast.1.batch hp₂,List.append_nil] at hlast
    exact hlast.2
  · intro hp hpending
    have hwake := h.invariant (I:=Wakeful) (fun _ _ _ hI hs => step_wakeful hI hs) create_wakeful
    rcases hwake.awake (by rw [hp]; decide) (by rw [hp]; decide) hpending with hpos | ⟨t,f,ht,h0⟩
    · exact .inl hpos
    · refine .inr ⟨t,f,?_,ht⟩
      intro hzero
      cases hp.symm.trans (h0 hzero)

/-- One thread pushes before the swap and one behind it, the loop thread in a functor;
the loop is back in poll with two functors pending. -/
def twoPushers : List Label :=
  [.loop [],.queueInLoop 1,.loop [],.advance 1,.loop [.wakeup],.loop [],.loop [],.loop [],.queueInLoop 2,.loop [],
    .queueInLoop 0,.advance 0,.loop [],.loop []]

theorem functors_executed_twoPushers :
    ∃ w, exec step create twoPushers = some w ∧ w.work.finished = [0] ∧ w.work.pending = [1,2] ∧
      w.work.finished <+: List.range w.work.history.length ∧
      (0 < w.wakeupFd ∨ ∃ thread f, thread ≠ 0 ∧ w.threads thread = .pushed f) := by
  obtain ⟨w,hw⟩ : ∃ w, exec step create twoPushers = some w := Option.isSome_iff_exists.mp (by decide +kernel)
  have hfields : (exec step create twoPushers).map (fun w => (w.phase,w.work)) =
      some (.polling,⟨[1,2],[],[0]⟩) := by decide +kernel
  rw [hw] at hfields
  obtain ⟨hphase,hwork⟩ : w.phase = .polling ∧ w.work = ⟨[1,2],[],[0]⟩ := by simpa using hfields
  obtain ⟨horder,-,hwake⟩ := functors_executed ((run_iff_exec _ _ _ _).mpr hw)
  exact ⟨w,hw,by rw [hwork],by rw [hwork],horder,hwake hphase (by simp [hwork])⟩

end EventLoop
end GgLib
