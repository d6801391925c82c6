import GgLib.EventLoopFunctors
import Mathlib.Data.List.Nodup

/-! What `quit` leaves undone. The loop tests `quit_` behind `doPendingFunctors`, so a
functor that comes behind the swap is executed only if the loop goes round once more. -/
namespace GgLib

open LabelledSystem

namespace EventLoop

variable {w w' : EventLoop}

/-- The step stores `quit_` between the swap and the test of `quit_`, while a functor whose
`queueInLoop` had returned before `quit` was called is pending. -/
def Late (w : EventLoop) : Label → Prop
  | .advance thread => w.threads thread = .quitting ∧ w.quit = false ∧
      (w.phase = .testing ∨ w.phase = .calling) ∧ ∃ f ∈ w.accepted, f ∈ w.work.pending
  | _ => False

/-- The loop ends without another `doPendingFunctors` for an accepted functor. -/
def Stranded (w : EventLoop) : Prop :=
  w.quit = true ∧ (w.phase = .testing ∨ w.phase = .calling ∨ w.phase = .returned) ∧
    ∃ f ∈ w.accepted, f ∈ w.work.pending

/-- A functor is accepted behind its push and before any `quit`, and `quit_` is stored only
by a call of `quit`. -/
structure Accounted (w : EventLoop) : Prop where
  ordered : w.Ordered
  pushed : ∀ thread f, w.threads thread = .pushed f → f < w.work.history.length
  accepted : ∀ f ∈ w.accepted, f < w.work.history.length
  called : w.quitCalled = false → w.quit = false ∧ ∀ thread, w.threads thread ≠ .quitting
  returned : w.phase = .returned → w.quit = true

theorem create_accounted : create.Accounted :=
  ⟨create_ordered,nofun,nofun,fun _ => ⟨rfl,nofun⟩,nofun⟩

theorem pushed_update {thread : ℕ} {pc : Pc} {n m : ℕ} (hnm : n ≤ m)
    (h : ∀ t f, w.threads t = .pushed f → f < n) (hpc : ∀ f, pc = .pushed f → f < m) :
    ∀ t f, Function.update w.threads thread pc t = .pushed f → f < m := by
  refine (Function.forall_update_iff w.threads fun _ pc => ∀ f, pc = .pushed f → f < m).mpr ⟨hpc,?_⟩
  intro t _ f hf
  exact (h t f hf).trans_le hnm

theorem quitting_update {thread : ℕ} {pc : Pc} (h : ∀ t, w.threads t ≠ .quitting) (hpc : pc ≠ .quitting) :
    ∀ t, Function.update w.threads thread pc t ≠ .quitting :=
  (Function.forall_update_iff w.threads fun _ pc => pc ≠ .quitting).mpr ⟨hpc,fun t _ => h t⟩

theorem loop_accounted {active : List Active} {l : Label} (hw : w.Accounted) (hs : w.step l = some w')
    (h : w.loop active = some w') : w'.Accounted := by
  have hord := step_ordered hw.ordered hs
  rcases loop_cases h with ⟨hp,rfl⟩ | ⟨hp,_,hq,rfl⟩ | ⟨hp,_,_,rfl⟩ | ⟨hp,rfl⟩ | ⟨hp,_,_,rfl⟩ | ⟨hp,rfl⟩ |
    ⟨hp,rfl⟩ | ⟨hp,f,work,hnext,rfl⟩ | ⟨hp,_,rfl⟩
  · exact ⟨hord,hw.pushed,hw.accepted,fun hc => ⟨rfl,(hw.called hc).2⟩,nofun⟩
  · exact ⟨hord,hw.pushed,hw.accepted,hw.called,fun _ => hq⟩
  · exact ⟨hord,hw.pushed,hw.accepted,hw.called,nofun⟩
  · exact ⟨hord,hw.pushed,hw.accepted,hw.called,nofun⟩
  · exact ⟨hord,hw.pushed,hw.accepted,hw.called,hw.returned⟩
  · exact ⟨hord,hw.pushed,hw.accepted,hw.called,nofun⟩
  · have hhistory := WorkQueue.history_swap (hw.ordered.batch (by rw [hp]; decide))
    refine ⟨hord,fun t f hf => ?_,fun f hf => ?_,hw.called,nofun⟩
    · show f < w.work.swap.history.length
      rw [hhistory]
      exact hw.pushed t f hf
    · show f < w.work.swap.history.length
      rw [hhistory]
      exact hw.accepted f hf
  · have hhistory := WorkQueue.history_next hnext
    refine ⟨hord,fun t g hg => ?_,fun g hg => ?_,hw.called,hw.returned⟩
    · show g < work.history.length
      rw [hhistory]
      exact hw.pushed t g hg
    · show g < work.history.length
      rw [hhistory]
      exact hw.accepted g hg
  · exact ⟨hord,hw.pushed,hw.accepted,hw.called,nofun⟩

theorem Accounted.accept {f thread : ℕ} (hw : w.Accounted) (hf : w.threads thread = .pushed f)
    (hord : ({ w with
      accepted := if w.quitCalled then w.accepted else w.accepted++[f]
      threads := Function.update w.threads thread .idle } : EventLoop).Ordered) :
    ({ w with
      accepted := if w.quitCalled then w.accepted else w.accepted++[f]
      threads := Function.update w.threads thread .idle } : EventLoop).Accounted where
  ordered := hord
  pushed := pushed_update le_rfl hw.pushed nofun
  accepted := by
    intro g hg
    simp only at hg
    split at hg
    · exact hw.accepted g hg
    · rcases List.mem_append.mp hg with hg | hg
      · exact hw.accepted g hg
      · rw [List.mem_singleton.mp hg]
        exact hw.pushed thread f hf
  called := fun hc => ⟨(hw.called hc).1,quitting_update (hw.called hc).2 nofun⟩
  returned := hw.returned

theorem accounted_wakeup : w.wakeup.Accounted ↔ w.Accounted := by
  rw [wakeup]
  split
  · exact ⟨fun h => ⟨⟨h.1.1,h.1.2⟩,h.2,h.3,h.4,h.5⟩,fun h => ⟨⟨h.1.1,h.1.2⟩,h.2,h.3,h.4,h.5⟩⟩
  · rfl

theorem step_accounted {l : Label} (hw : w.Accounted) (h : w.step l = some w') : w'.Accounted := by
  have hord := step_ordered hw.ordered h
  rcases step_cases h with ⟨active,-,-,hl⟩ | ⟨thread,-,-,-,rfl⟩ | ⟨thread,-,-,rfl⟩ | ⟨thread,-,ha⟩
  · exact loop_accounted hw h hl
  · have hlength : (w.work.push w.work.history.length).history.length = w.work.history.length+1 := by simp
    refine ⟨hord,?_,fun f hf => ?_,fun hc => ?_,hw.returned⟩
    · refine pushed_update (Nat.le_of_lt (by rw [hlength]; omega)) hw.pushed fun f hf => ?_
      cases hf
      rw [hlength]
      omega
    · have := hw.accepted f hf
      show f < (w.work.push w.work.history.length).history.length
      omega
    · exact ⟨(hw.called hc).1,quitting_update (hw.called hc).2 nofun⟩
  · exact ⟨hord,pushed_update le_rfl hw.pushed nofun,hw.accepted,nofun,hw.returned⟩
  · rcases advance_cases ha with ⟨f,hf,w₁,hw₁,rfl⟩ | ⟨hpc,-,rfl⟩ | ⟨hpc,w₁,hw₁,rfl⟩
    · rcases hw₁ with rfl | ⟨rfl,-⟩
      · have hwake : w.wakeup.threads thread = .pushed f := by simpa using hf
        have hwakes := (accounted_wakeup.mpr hw).accept hwake
        simpa using hwakes (by simpa using hord)
      · exact hw.accept hf hord
    · refine ⟨hord,pushed_update le_rfl hw.pushed nofun,hw.accepted,fun hc => ?_,fun _ => rfl⟩
      exact absurd hpc ((hw.called hc).2 thread)
    · have hcalled : w.quitCalled = false → w.quit = false ∧
          ∀ t, Function.update w.threads thread .idle t ≠ .quitting :=
        fun hc => ⟨(hw.called hc).1,quitting_update (hw.called hc).2 nofun⟩
      have hpushed : ∀ t f, Function.update w.threads thread .idle t = .pushed f → f < w.work.history.length :=
        pushed_update le_rfl hw.pushed nofun
      rcases hw₁ with rfl | rfl
      · exact ⟨hord,by simpa using hpushed,by simpa using hw.accepted,by simpa using hcalled,
          by simpa using hw.returned⟩
      · exact ⟨hord,hpushed,hw.accepted,hcalled,hw.returned⟩

theorem mem_push_iff (hw : w.Accounted) {f : ℕ} (hf : f ∈ w.accepted) :
    f ∈ (w.work.push w.work.history.length).pending ↔ f ∈ w.work.pending := by
  have hne : f ≠ w.work.history.length := (hw.accepted f hf).ne
  simp [WorkQueue.push,hne]

theorem loop_stranded_iff {active : List Active} (h : w.loop active = some w') :
    w'.Stranded ↔ w.Stranded := by
  rcases loop_cases h with ⟨hp,rfl⟩ | ⟨hp,-,hq,rfl⟩ | ⟨hp,-,hq,rfl⟩ | ⟨hp,rfl⟩ | ⟨hp,-,-,rfl⟩ | ⟨hp,rfl⟩ |
    ⟨hp,rfl⟩ | ⟨hp,f,work,hnext,rfl⟩ | ⟨hp,-,rfl⟩
  · simp [Stranded,hp]
  · simp [Stranded,hp]
  · simp [Stranded,hq]
  · simp [Stranded,hp]
  · simp [Stranded,hp]
  · simp [Stranded,hp]
  · simp [Stranded,hp,WorkQueue.swap]
  · simp [Stranded,(WorkQueue.next_some hnext).2.1]
  · simp [Stranded,hp]

theorem step_stranded_iff {l : Label} (hw : w.Accounted) (h : w.step l = some w') :
    w'.Stranded ↔ w.Stranded ∨ w.Late l := by
  rcases step_cases h with ⟨active,rfl,-,hl⟩ | ⟨thread,rfl,-,-,rfl⟩ | ⟨thread,rfl,-,rfl⟩ | ⟨thread,rfl,ha⟩
  · simp only [loop_stranded_iff hl,Late,or_false]
  · have hmem : (∃ f ∈ w.accepted, f ∈ (w.work.push w.work.history.length).pending) ↔
        ∃ f ∈ w.accepted, f ∈ w.work.pending :=
      exists_congr fun f => and_congr_right fun hf => mem_push_iff hw hf
    simp only [Stranded,hmem,Late,or_false]
  · simp only [Stranded,Late,or_false]
  · rcases advance_cases ha with ⟨f,hf,w₁,hw₁,rfl⟩ | ⟨hpc,-,rfl⟩ | ⟨hpc,w₁,hw₁,rfl⟩
    · -- before any call of `quit` nothing is stranded, afterwards nothing is accepted
      have hlate : ¬ w.Late (.advance thread) := by simp [Late,hf]
      have hquit : w₁.quit = w.quit ∧ w₁.phase = w.phase ∧ w₁.work = w.work := by
        rcases hw₁ with rfl | ⟨rfl,-⟩ <;> simp
      cases hc : w.quitCalled with
      | false => simp [Stranded,hquit,(hw.called hc).1,hlate]
      | true => simp [Stranded,hquit,hlate]
    · cases hquit : w.quit with
      | true => simp [Stranded,Late,hquit]
      | false =>
        have hphase : w.phase ≠ .returned := by
          intro hp
          cases hquit.symm.trans (hw.returned hp)
        simp [Stranded,Late,hquit,hpc,hphase]
    · have hlate : ¬ w.Late (.advance thread) := by simp [Late,hpc]
      rcases hw₁ with rfl | rfl <;> simp [Stranded,hlate]

theorem create_not_stranded : ¬ create.Stranded := by
  rintro ⟨hquit,-⟩
  cases hquit

theorem executed_iff (hw : w.Accounted) (hp : w.phase = .returned) :
    (∀ f ∈ w.accepted, f ∈ w.work.finished) ↔ ¬ w.Stranded := by
  have hhistory : w.work.history = w.work.finished++w.work.pending := by
    rw [WorkQueue.history,hw.ordered.batch (by rw [hp]; decide),List.append_nil]
  have hnodup : (w.work.finished++w.work.pending).Nodup := by
    rw [← hhistory,hw.ordered.numbered]
    exact List.nodup_range
  constructor
  · rintro h ⟨-,-,f,hf,hpending⟩
    exact List.disjoint_of_nodup_append hnodup (h f hf) hpending
  · intro h f hf
    have hmem : f ∈ w.work.finished++w.work.pending := by
      rw [← hhistory,hw.ordered.numbered]
      exact List.mem_range.mpr (hw.accepted f hf)
    refine (List.mem_append.mp hmem).resolve_right fun hpending => h ?_
    exact ⟨hw.returned hp,.inr (.inr hp),f,hf,hpending⟩

/-- In every run to the end of `loop()`, with any calls of any threads: every functor whose
`queueInLoop` had returned before `quit` was called is executed if and only if no step
stores `quit_` late. -/
theorem accepted_executed_iff {labels : List Label} (h : Run step create labels w) (hp : w.phase = .returned) :
    (∀ f ∈ w.accepted, f ∈ w.work.finished) ↔ Along step (fun w l => ¬ w.Late l) create labels := by
  have hacc : w.Accounted :=
    h.invariant (I:=Accounted) (fun _ _ _ hI hs => step_accounted hI hs) create_accounted
  have hiff := h.iff_along (I:=Accounted) (G:=fun w => ¬ w.Stranded) (C:=fun w l => ¬ w.Late l)
    (fun _ _ _ hI hs => step_accounted hI hs)
    (fun _ _ _ hI hs => by rw [step_stranded_iff hI hs,not_or]) create_accounted
  rw [executed_iff hacc hp,hiff]
  exact and_iff_right create_not_stranded

instance (w : EventLoop) (l : Label) : Decidable (w.Late l) :=
  match l with
  | .advance _ => inferInstanceAs (Decidable (_ ∧ _))
  | .loop _ | .queueInLoop _ | .quit _ => isFalse id

/-- A thread queues a functor and calls `quit` while the loop handles events. -/
def quitInTime : List Label :=
  [.loop [],.loop [],.loop [],.queueInLoop 1,.advance 1,.quit 1,.advance 1,.advance 1,.loop [],.loop [],.loop [],
    .loop [],.loop []]

theorem accepted_executed_iff_quitInTime :
    ∃ w, exec step create quitInTime = some w ∧ w.accepted = [0] ∧ ∀ f ∈ w.accepted, f ∈ w.work.finished := by
  obtain ⟨w,hw⟩ : ∃ w, exec step create quitInTime = some w := Option.isSome_iff_exists.mp (by decide +kernel)
  have hfields : (exec step create quitInTime).map (fun w => (w.phase,w.accepted)) = some (.returned,[0]) := by
    decide +kernel
  rw [hw] at hfields
  obtain ⟨hp,haccepted⟩ : w.phase = .returned ∧ w.accepted = [0] := by simpa using hfields
  exact ⟨w,hw,haccepted,(accepted_executed_iff ((run_iff_exec _ _ _ _).mpr hw) hp).mpr (by decide +kernel)⟩

/-- The thread does the same while the loop is between the swap and the test of `quit_`. -/
def quitBehindSwap : List Label :=
  [.loop [],.loop [],.loop [],.loop [],.loop [],.queueInLoop 1,.advance 1,.quit 1,.advance 1,.advance 1,.loop [],
    .loop []]

theorem accepted_not_executed :
    ¬ ∀ (labels : List Label) (w : EventLoop), Run step create labels w → w.phase = .returned →
      ∀ f ∈ w.accepted, f ∈ w.work.finished := by
  intro h
  obtain ⟨w,hw⟩ : ∃ w, exec step create quitBehindSwap = some w := Option.isSome_iff_exists.mp (by decide +kernel)
  have hfields : (exec step create quitBehindSwap).map (fun w => (w.phase,w.accepted,w.work.finished)) =
      some (.returned,[0],[]) := by decide +kernel
  rw [hw] at hfields
  obtain ⟨hp,haccepted,hfinished⟩ : w.phase = .returned ∧ w.accepted = [0] ∧ w.work.finished = [] := by
    simpa using hfields
  have hmem := h _ w ((run_iff_exec _ _ _ _).mpr hw) hp 0 (by simp [haccepted])
  rw [hfinished] at hmem
  cases hmem

end EventLoop
end GgLib
