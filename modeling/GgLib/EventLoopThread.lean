import GgLib.EventLoopFunctors

/-! `EventLoopThread`: the thread that owns an `EventLoop` publishes it in `loop_` and then
calls `loop()`, whose first store to `quit_` comes after a `quit` that was faster. Thread 0
runs `threadFunc`, thread 1 called `startLoop`. -/
namespace GgLib

open LabelledSystem

namespace EventLoopThread

inductive Label
  | publish
  | startLoop
  | destroy
  | loop (l : EventLoop.Label)
  | finish
  deriving DecidableEq, Repr

end EventLoopThread

/-- `published` tells whether `loop_` points to the loop, `obtained` whether `startLoop` has
returned it. -/
structure EventLoopThread where
  loop : EventLoop
  published : Bool
  obtained : Bool

namespace EventLoopThread

/-- `startLoop` has started the thread, which has made its `EventLoop`. -/
def create : EventLoopThread := ⟨.create,false,false⟩

variable (w : EventLoopThread)

/-- `loop()` comes behind the publication, and other threads call only what `startLoop` gave
them and `threadFunc` has not destroyed. -/
def Enabled : EventLoop.Label → Prop
  | .loop _ => w.published = true
  | .queueInLoop thread => thread ≠ 0 → w.obtained = true ∧ w.published = true
  | .quit thread => thread ≠ 0 → w.obtained = true ∧ w.published = true
  | .advance _ => True

instance (l : EventLoop.Label) : Decidable (w.Enabled l) :=
  match l with
  | .loop _ => inferInstanceAs (Decidable (_ = _))
  | .queueInLoop _ | .quit _ => inferInstanceAs (Decidable (_ → _))
  | .advance _ => isTrue trivial

def onLoop (l : EventLoop.Label) : Option EventLoopThread := (w.loop.step l).map fun loop => { w with loop }

/-- `destroy` is the destructor of `EventLoopThread`, `finish` the end of `threadFunc`. -/
def step : Label → Option EventLoopThread
  | .publish =>
    if w.loop.phase = .starting ∧ w.published = false then some { w with published := true } else none
  | .startLoop => if w.published then some { w with obtained := true } else none
  | .destroy =>
    if w.obtained then
      if w.published then w.onLoop (.quit 1) else some w
    else none
  | .loop l => if w.Enabled l then w.onLoop l else none
  | .finish => if w.loop.phase = .returned then some { w with published := false } else none

/-- Once `quit` has stored `quit_` it stays, and `loop()` does not go on from its test of
`quit_` to poll. -/
def QuitKept : Prop :=
  w.loop.quitStored = true → w.loop.quit = true ∧
    ∀ active w', w.step (.loop (.loop active)) = some w' → w.loop.phase = .testing → w'.loop.phase = .returned

/-- `loop()` stores `false` into `quit_` behind the store of a `quit`. -/
def StartsAfterQuit : Label → Prop
  | .loop (.loop _) => w.loop.phase = .starting ∧ w.loop.quitStored = true
  | _ => False

variable {w} {w' : EventLoopThread}

theorem quitKept_iff : w.QuitKept ↔ (w.loop.quitStored = true → w.loop.quit = true) := by
  constructor
  · exact fun h hstored => (h hstored).1
  · intro h hstored
    refine ⟨h hstored,fun active w' hs hphase => ?_⟩
    rw [step] at hs
    split at hs
    · obtain ⟨loop,hl,rfl⟩ := Option.map_eq_some_iff.mp hs
      rw [EventLoop.step] at hl
      split at hl
      · rcases EventLoop.loop_cases hl with ⟨hp,-⟩ | ⟨-,-,-,rfl⟩ | ⟨-,-,hq,-⟩ | ⟨hp,-⟩ | ⟨hp,-⟩ | ⟨hp,-⟩ |
          ⟨hp,-⟩ | ⟨hp,-⟩ | ⟨hp,-⟩
        · cases hphase.symm.trans hp
        · rfl
        · cases hq.symm.trans (h hstored)
        all_goals cases hphase.symm.trans hp
      · cases hl
    · cases hs

/-- A step of the loop stores into `quit_` when `loop()` starts and in a call of `quit`. -/
theorem onLoop_quit {l : EventLoop.Label} (h : w.onLoop l = some w') :
    (w'.loop.quit = w.loop.quit ∧ w'.loop.quitStored = w.loop.quitStored ∧ ¬ w.StartsAfterQuit (.loop l)) ∨
    (w'.loop.quit = true ∧ w'.loop.quitStored = true ∧ ¬ w.StartsAfterQuit (.loop l)) ∨
    (∃ active, l = .loop active ∧ w.loop.phase = .starting ∧ w'.loop.quit = false ∧
      w'.loop.quitStored = w.loop.quitStored) := by
  obtain ⟨loop,hl,rfl⟩ := Option.map_eq_some_iff.mp h
  rcases EventLoop.step_cases hl with ⟨active,rfl,-,hl⟩ | ⟨thread,rfl,-,-,rfl⟩ | ⟨thread,rfl,-,rfl⟩ | ⟨thread,rfl,ha⟩
  · rcases EventLoop.loop_cases hl with ⟨hp,rfl⟩ | ⟨hp,-,-,rfl⟩ | ⟨hp,-,-,rfl⟩ | ⟨hp,rfl⟩ | ⟨hp,-,-,rfl⟩ |
      ⟨hp,rfl⟩ | ⟨hp,rfl⟩ | ⟨hp,_,_,-,rfl⟩ | ⟨hp,-,rfl⟩
    · exact .inr (.inr ⟨active,rfl,hp,rfl,rfl⟩)
    all_goals exact .inl ⟨rfl,rfl,by simp [StartsAfterQuit,hp]⟩
  · exact .inl ⟨rfl,rfl,id⟩
  · exact .inl ⟨rfl,rfl,id⟩
  · rcases EventLoop.advance_cases ha with ⟨f,-,w₁,hw₁,rfl⟩ | ⟨-,-,rfl⟩ | ⟨-,w₁,hw₁,rfl⟩
    · rcases hw₁ with rfl | ⟨rfl,-⟩
      · exact .inl ⟨by simp,by simp,id⟩
      · exact .inl ⟨rfl,rfl,id⟩
    · exact .inr (.inl ⟨rfl,rfl,id⟩)
    · rcases hw₁ with rfl | rfl
      · exact .inl ⟨by simp,by simp,id⟩
      · exact .inl ⟨rfl,rfl,id⟩

theorem onLoop_quitKept_iff {l : EventLoop.Label} (hw : w.QuitKept) (h : w.onLoop l = some w') :
    w'.QuitKept ↔ ¬ w.StartsAfterQuit (.loop l) := by
  rw [quitKept_iff] at hw ⊢
  rcases onLoop_quit h with ⟨hquit,hstored,hstarts⟩ | ⟨hquit,-,hstarts⟩ | ⟨active,rfl,hp,hquit,hstored⟩
  · rw [hquit,hstored]
    exact iff_of_true hw hstarts
  · exact iff_of_true (fun _ => hquit) hstarts
  · simp [StartsAfterQuit,hp,hquit,hstored]

theorem step_quitKept_iff {l : Label} (hw : w.QuitKept) (h : w.step l = some w') :
    w'.QuitKept ↔ ¬ w.StartsAfterQuit l := by
  have hkeep : w'.loop = w.loop → w'.QuitKept := by
    intro hloop
    rw [quitKept_iff,hloop]
    exact quitKept_iff.mp hw
  cases l with
  | publish =>
    rw [step] at h
    split at h
    · cases h
      exact iff_of_true (hkeep rfl) id
    · cases h
  | startLoop =>
    rw [step] at h
    split at h
    · cases h
      exact iff_of_true (hkeep rfl) id
    · cases h
  | destroy =>
    rw [step] at h
    split at h
    · split at h
      · exact onLoop_quitKept_iff hw h
      · cases h
        exact iff_of_true hw id
    · cases h
  | loop l =>
    rw [step] at h
    split at h
    · exact onLoop_quitKept_iff hw h
    · cases h
  | finish =>
    rw [step] at h
    split at h
    · cases h
      exact iff_of_true (hkeep rfl) id
    · cases h

/-- In every run, with any calls of `quit` and any interleaving with `threadFunc`: no `quit`
is lost if and only if none stores `quit_` before `loop()` does. -/
theorem quit_kept_iff {labels : List Label} {w : EventLoopThread} (h : Run step create labels w) :
    Throughout step QuitKept create labels ↔ Along step (fun w l => ¬ w.StartsAfterQuit l) create labels :=
  h.throughout_iff_along (fun _ _ _ hP hs => step_quitKept_iff hP hs) (quitKept_iff.mpr nofun)

instance (l : Label) : Decidable (w.StartsAfterQuit l) :=
  match l with
  | .loop (.loop _) => inferInstanceAs (Decidable (_ ∧ _))
  | .loop (.queueInLoop _) | .loop (.quit _) | .loop (.advance _) | .publish | .startLoop | .destroy | .finish =>
    isFalse id

/-- The destructor quits a loop that has started. -/
def destroyed : List Label :=
  [.publish,.startLoop,.loop (.loop []),.loop (.loop []),.destroy,.loop (.advance 1),.loop (.loop [.wakeup]),
    .loop (.advance 1),.loop (.loop []),.loop (.loop []),.loop (.loop []),.loop (.loop []),.loop (.loop []),.finish]

theorem quit_kept_iff_destroyed :
    ∃ w, exec step create destroyed = some w ∧ w.loop.phase = .returned ∧
      Throughout step QuitKept create destroyed := by
  obtain ⟨w,hw⟩ : ∃ w, exec step create destroyed = some w := Option.isSome_iff_exists.mp (by decide +kernel)
  have hphase : (exec step create destroyed).map (·.loop.phase) = some .returned := by decide +kernel
  rw [hw] at hphase
  exact ⟨w,hw,Option.some.inj hphase,(quit_kept_iff ((run_iff_exec _ _ _ _).mpr hw)).mpr (by decide +kernel)⟩

/-- Thread 1 quits between the publication and the start of `loop()`, which then polls. -/
def quitFirst : List Label :=
  [.publish,.startLoop,.destroy,.loop (.advance 1),.loop (.advance 1),.loop (.loop []),.loop (.loop [])]

theorem quit_lost :
    ¬ ∀ (labels : List Label) (w : EventLoopThread), Run step create labels w →
      Throughout step QuitKept create labels := by
  intro h
  obtain ⟨w,hw⟩ : ∃ w, exec step create quitFirst = some w := Option.isSome_iff_exists.mp (by decide +kernel)
  have hfields : (exec step create quitFirst).map (fun w => (w.loop.phase,w.loop.quitStored,w.loop.quit)) =
      some (.polling,true,false) := by decide +kernel
  rw [hw] at hfields
  obtain ⟨-,hstored,hquit⟩ : w.loop.phase = .polling ∧ w.loop.quitStored = true ∧ w.loop.quit = false := by
    simpa using hfields
  have hrun := (run_iff_exec _ _ _ _).mpr hw
  have hkept := ((h _ w hrun).last hrun hstored).1
  cases hquit.symm.trans hkept

end EventLoopThread
end GgLib
