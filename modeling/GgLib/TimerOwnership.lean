import GgLib.TimerEntries

/-! Which timers `handleRead` touches. The batch holds raw pointers, so each of its timers
has to stay in `activeTimers_` until `reset` is done with it. -/
namespace GgLib

open LabelledSystem

namespace TimerLoop

/-- Every timer that was dereferenced was owned then, and no timer ran behind its cancel
in the same batch. -/
structure Sound (trace : List Event) : Prop where
  owned : ∀ timerId, .touch timerId false ∉ trace
  notRun : ∀ timerId before between behind,
    trace = before++.cancelInLoop timerId::(between++.run timerId::behind) → .handleRead ∈ between

def CancelledNow (trace : List Event) (timerId : ℕ) : Prop :=
  ∃ before behind, trace = before++.cancelInLoop timerId::behind ∧ .handleRead ∉ behind

theorem cancelledNow_snoc (trace : List Event) (e : Event) (timerId : ℕ) :
    CancelledNow (trace++[e]) timerId ↔
      e = .cancelInLoop timerId ∨ (e ≠ .handleRead ∧ CancelledNow trace timerId) := by
  constructor
  · rintro ⟨before,behind,hsplit,hnot⟩
    rcases List.eq_nil_or_concat behind with rfl | ⟨behind,f,rfl⟩
    · exact .inl (List.cons.inj (List.append_inj' hsplit rfl).2).1
    · rw [List.concat_eq_append] at hsplit hnot
      have hsplit' : trace++[e] = (before++.cancelInLoop timerId::behind)++[f] := by simpa using hsplit
      obtain ⟨htrace,hf⟩ := List.append_inj' hsplit' rfl
      cases hf
      simp only [List.mem_append,List.mem_singleton,not_or] at hnot
      exact .inr ⟨Ne.symm hnot.2,before,behind,htrace,hnot.1⟩
  · rintro (rfl | ⟨hne,before,behind,rfl,hnot⟩)
    · exact ⟨trace,[],rfl,List.not_mem_nil⟩
    · exact ⟨before,behind++[e],by simp,by simp [hnot,Ne.symm hne]⟩

theorem sound_snoc (trace : List Event) (e : Event) :
    Sound (trace++[e]) ↔ Sound trace ∧ (∀ timerId, e ≠ .touch timerId false) ∧
      ∀ timerId, e = .run timerId → ¬ CancelledNow trace timerId := by
  constructor
  · intro h
    refine ⟨⟨fun id hid => h.owned id (List.mem_append_left _ hid),?_⟩,?_,?_⟩
    · rintro id before between behind rfl
      exact h.notRun id before between (behind++[e]) (by simp)
    · rintro id rfl
      exact h.owned id (by simp)
    · rintro id rfl ⟨before,behind,rfl,hnot⟩
      exact hnot (h.notRun id before behind [] (by simp))
  · rintro ⟨h,howned,hrun⟩
    refine ⟨fun id hid => ?_,fun id before between behind hsplit => ?_⟩
    · rcases List.mem_append.mp hid with hid | hid
      · exact h.owned id hid
      · exact howned id (List.mem_singleton.mp hid).symm
    · rcases List.eq_nil_or_concat behind with rfl | ⟨behind,f,rfl⟩
      · have hsplit' : trace++[e] = (before++.cancelInLoop id::between)++[.run id] := by simpa using hsplit
        obtain ⟨htrace,he⟩ := List.append_inj' hsplit' rfl
        by_contra hnot
        exact hrun id (List.cons.inj he).1 ⟨before,between,htrace,hnot⟩
      · rw [List.concat_eq_append] at hsplit
        have hsplit' : trace++[e] = (before++.cancelInLoop id::(between++.run id::behind))++[f] := by
          simpa using hsplit
        exact h.notRun id before between behind (List.append_inj' hsplit' rfl).1

theorem sound_nil : Sound [] :=
  ⟨fun _ => List.not_mem_nil,fun id before between behind h => by simp at h⟩

def CancelsBatch (w : TimerLoop) : Label → Prop
  | .cancelInLoop timerId => timerId ∈ w.batch
  | _ => False

/-- What `handleRead` has still to run belongs to its batch, and a timer of the batch that
was cancelled is not owned any more. -/
structure Ordered (w : TimerLoop) : Prop where
  todo : ∀ now expired todo, w.phase = .running now expired todo → ∀ timerId ∈ todo, timerId ∈ expired
  cancelled : ∀ timerId ∈ w.batch, CancelledNow w.trace timerId → w.queue.activeTimers timerId = none

/-- Nothing went wrong so far, and all timers of the batch are still owned. -/
def Owned (w : TimerLoop) : Prop :=
  Sound w.trace ∧ ∀ timerId ∈ w.batch, w.queue.activeTimers timerId ≠ none

theorem initial_ordered (clock : Clock) : (initial clock).Ordered where
  todo := fun now expired todo h => by cases h
  cancelled := fun _ h => by cases h

theorem Ordered.advance {w w' : TimerLoop} (ht : w.Tracked) (hw : w.Ordered) (h : w.advance = some w') :
    w'.phase = .undefined ∨ w'.Ordered := by
  have hnow : ∀ {e : Event} {trace : List Event} {id : ℕ}, (∀ id, e ≠ .cancelInLoop id) →
      CancelledNow (trace++[e]) id → CancelledNow trace id := by
    intro e trace id hcancel hc
    exact (((cancelledNow_snoc trace e id).mp hc).resolve_left (hcancel id)).2
  rcases advance_cases h with ⟨now,expired,id,todo,hphase,⟨-,rfl⟩ | ⟨-,rfl⟩⟩ | ⟨now,expired,hphase,rfl⟩ |
    ⟨now,id,todo,hphase,⟨timer,htimer,rfl⟩ | ⟨-,rfl⟩⟩ | ⟨now,hphase,rfl⟩
  · have hbatch : w.batch = expired := by rw [batch,hphase]
    refine .inr ⟨fun now' expired' todo' h id' hid' => ?_,fun id' hid' hc => ?_⟩
    · cases h
      exact hw.todo now expired _ hphase id' (.tail _ hid')
    · exact hw.cancelled id' (by rw [hbatch]; exact hid') (hnow (by simp) (hnow (by simp) hc))
  · exact .inl rfl
  · have hbatch : w.batch = expired := by rw [batch,hphase]
    refine .inr ⟨fun now' expired' todo' h => (by cases h),fun id' hid' hc => ?_⟩
    exact hw.cancelled id' (by rw [hbatch]; exact hid') hc
  · have hbatch : w.batch = id::todo := by rw [batch,hphase]
    have hkey : timer.sequence = id := ht.tracks.keyed id timer htimer
    have hnodup : (id::todo).Nodup := hbatch ▸ ht.nodup
    refine .inr ⟨fun now' expired' todo' h => (by cases h),fun id' hid' hc => ?_⟩
    have hne : id' ≠ timer.sequence := by
      rintro rfl
      exact (List.nodup_cons.mp hnodup).1 (hkey ▸ hid')
    rw [TimerQueue.restartOrErase_of_ne hne]
    exact hw.cancelled id' (by rw [hbatch]; exact .tail _ hid') (hnow (by simp) hc)
  · exact .inl rfl
  · exact .inr ⟨fun now' expired' todo' h => (by cases h),fun id' hid' => (by cases hid')⟩

theorem step_ordered {w w' : TimerLoop} {l : Label} (ht : w.Tracked) (hw : w.Ordered)
    (h : step w l = some w') : w'.phase = .undefined ∨ w'.Ordered := by
  cases l with
  | tick d => cases h; exact .inr ⟨hw.todo,hw.cancelled⟩
  | create when interval => cases h; exact .inr ⟨hw.todo,hw.cancelled⟩
  | createElsewhere => cases h; exact .inr ⟨hw.todo,hw.cancelled⟩
  | addTimerInLoop timerId =>
    obtain ⟨-,timer,hmem,rfl⟩ := step_addTimerInLoop h
    have hnew := ht.unused timer.sequence (.inr ⟨timer,hmem,rfl⟩)
    refine .inr ⟨hw.todo,fun id hid hc => ?_⟩
    have hne : id ≠ timer.sequence := fun heq => hnew.pending (heq ▸ hid)
    show (w.queue.addTimerInLoop w.clock.now timer).activeTimers id = none
    rw [TimerQueue.addTimerInLoop_activeTimers hnew.active,Function.update_of_ne hne]
    exact hw.cancelled id hid hc
  | cancelInLoop timerId =>
    obtain ⟨-,rfl⟩ := step_cancelInLoop h
    refine .inr ⟨hw.todo,fun id hid hc => ?_⟩
    show Function.update w.queue.activeTimers timerId none id = none
    by_cases heq : id = timerId
    · rw [heq,Function.update_self]
    · rw [Function.update_of_ne heq]
      have hc' := ((cancelledNow_snoc _ _ _).mp hc).resolve_left (by simpa using Ne.symm heq)
      exact hw.cancelled id hid hc'.2
  | handleRead =>
    obtain ⟨-,rfl⟩ := step_handleRead h
    refine .inr ⟨fun now expired todo hphase id hid => ?_,fun id hid hc => ?_⟩
    · cases hphase
      exact hid
    · have hnot := ((cancelledNow_snoc _ _ _).mp hc).resolve_left (by simp)
      exact absurd rfl hnot.1
  | advance => exact hw.advance ht h

/-- A step of `handleRead` keeps its timers owned, and touches no other. -/
theorem advance_owned {w w' : TimerLoop} (ht : w.Tracked) (hw : w.Ordered) (h : w.advance = some w') :
    w'.Owned ↔ w.Owned := by
  rcases advance_cases h with ⟨now,expired,id,todo,hphase,⟨hactive,rfl⟩ | ⟨hnone,rfl⟩⟩ |
    ⟨now,expired,hphase,rfl⟩ | ⟨now,id,todo,hphase,⟨timer,htimer,rfl⟩ | ⟨hnone,rfl⟩⟩ | ⟨now,hphase,rfl⟩
  · have hid : id ∈ w.batch := by
      rw [batch,hphase]
      exact hw.todo now expired _ hphase id (.head _)
    have hbatch : w.batch = expired := by rw [batch,hphase]
    have hnot : ¬ CancelledNow (w.trace++[.touch id true]) id := by
      intro hc
      have hc' := ((cancelledNow_snoc _ _ _).mp hc).resolve_left (by simp)
      exact hactive (hw.cancelled id hid hc'.2)
    have hrun : ∀ id', Event.run id = .run id' → ¬ CancelledNow (w.trace++[.touch id true]) id' := by
      rintro id' ⟨⟩
      exact hnot
    simp only [Owned,sound_snoc,hbatch]
    simp [hrun,batch]
  · have hid : id ∈ w.batch := by
      rw [batch,hphase]
      exact hw.todo now expired _ hphase id (.head _)
    refine iff_of_false (fun h => ?_) fun h => h.2 id hid hnone
    exact h.1.owned id (by simp)
  · simp [Owned,batch,hphase]
  · have hbatch : w.batch = id::todo := by rw [batch,hphase]
    have hkey : timer.sequence = id := ht.tracks.keyed id timer htimer
    have hnodup : (id::todo).Nodup := hbatch ▸ ht.nodup
    have hsame : ∀ id' ∈ todo, (w.queue.restartOrErase now timer).activeTimers id' =
        w.queue.activeTimers id' := by
      intro id' hid'
      refine TimerQueue.restartOrErase_of_ne ?_
      rintro rfl
      exact (List.nodup_cons.mp hnodup).1 (hkey ▸ hid')
    have htodo : (∀ id' ∈ todo, (w.queue.restartOrErase now timer).activeTimers id' ≠ none) ↔
        ∀ id' ∈ todo, w.queue.activeTimers id' ≠ none :=
      forall₂_congr fun id' hid' => by rw [hsame id' hid']
    have hsound : Sound (w.trace++[.touch id true]) ↔ Sound w.trace := by
      rw [sound_snoc]
      simp
    show Sound (w.trace++[.touch id true]) ∧ _ ↔ Sound w.trace ∧ ∀ id' ∈ w.batch, _
    rw [hsound,hbatch,List.forall_mem_cons,← htodo,htimer]
    simp [batch]
  · have hid : id ∈ w.batch := by simp [batch,hphase]
    refine iff_of_false (fun h => ?_) fun h => h.2 id hid hnone
    exact h.1.owned id (by simp)
  · simp [Owned,batch,hphase]

/-- One step keeps the timers of the batch owned exactly if it cancels none of them. -/
theorem step_owned {w w' : TimerLoop} {l : Label} (ht : w.Tracked) (hw : w.Ordered)
    (h : step w l = some w') : w'.Owned ↔ w.Owned ∧ ¬ w.CancelsBatch l := by
  cases l with
  | tick d => cases h; simp [Owned,CancelsBatch,batch]
  | create when interval => cases h; simp [Owned,CancelsBatch,batch]
  | createElsewhere => cases h; simp [Owned,CancelsBatch,batch]
  | addTimerInLoop timerId =>
    obtain ⟨-,timer,hmem,rfl⟩ := step_addTimerInLoop h
    have hnew := ht.unused timer.sequence (.inr ⟨timer,hmem,rfl⟩)
    have hsame : ∀ id ∈ w.batch, (w.queue.addTimerInLoop w.clock.now timer).activeTimers id =
        w.queue.activeTimers id := by
      intro id hid
      have hne : id ≠ timer.sequence := fun heq => hnew.pending (heq ▸ hid)
      rw [TimerQueue.addTimerInLoop_activeTimers hnew.active,Function.update_of_ne hne]
    have hnot : ¬ w.CancelsBatch (.addTimerInLoop timerId) := id
    rw [and_iff_left hnot]
    exact and_congr_right fun _ => forall₂_congr fun id hid => not_congr (by rw [← hsame id hid])
  | cancelInLoop timerId =>
    obtain ⟨-,rfl⟩ := step_cancelInLoop h
    have hsound : Sound (w.trace++[.cancelInLoop timerId]) ↔ Sound w.trace := by
      rw [sound_snoc]
      simp
    show Sound (w.trace++[_]) ∧ (∀ id ∈ w.batch, Function.update w.queue.activeTimers timerId none id ≠ none) ↔
      (Sound w.trace ∧ _) ∧ timerId ∉ w.batch
    rw [hsound,and_assoc]
    refine and_congr_right fun _ => ⟨fun hall => ⟨fun id hid hnone => ?_,fun hmem => ?_⟩,?_⟩
    · refine hall id hid ?_
      by_cases heq : id = timerId
      · rw [heq,Function.update_self]
      · rw [Function.update_of_ne heq,hnone]
    · exact hall timerId hmem (Function.update_self ..)
    · rintro ⟨hall,hnot⟩ id hid
      have hne : id ≠ timerId := by
        rintro rfl
        exact hnot hid
      rw [Function.update_of_ne hne]
      exact hall id hid
  | handleRead =>
    obtain ⟨hidle,rfl⟩ := step_handleRead h
    have hbatch : w.batch = [] := by rw [batch,hidle]
    have hactive : ∀ id ∈ ((w.queue.readTimerfd w.clock.now).getExpired w.clock.now).2,
        w.queue.activeTimers id ≠ none := by
      intro id hid
      exact Option.isSome_iff_ne_none.mp (TimerQueue.mem_getExpired.mp hid).2
    have hsound : Sound (w.trace++[.handleRead]) ↔ Sound w.trace := by
      rw [sound_snoc]
      simp
    show Sound (w.trace++[_]) ∧ (∀ id ∈ ((w.queue.readTimerfd w.clock.now).getExpired w.clock.now).2,
      w.queue.activeTimers id ≠ none) ↔ (Sound w.trace ∧ ∀ id ∈ w.batch, _) ∧ ¬ False
    rw [hsound,hbatch,and_iff_left hactive]
    simp
  | advance =>
    rw [advance_owned ht hw h]
    simp [CancelsBatch]

/-- A run that touched a destroyed timer, or the invariants of all others. -/
def Known (w : TimerLoop) : Prop :=
  (w.phase = .undefined ∧ ¬ Sound w.trace) ∨ (w.phase ≠ .undefined ∧ w.Tracked ∧ w.Ordered)

theorem initial_known (clock : Clock) : (initial clock).Known :=
  .inr ⟨by simp [initial],initial_tracked clock,initial_ordered clock⟩

theorem undefined_not_sound {w w' : TimerLoop} {l : Label} (hw : w.phase ≠ .undefined)
    (h : step w l = some w') (hw' : w'.phase = .undefined) : ¬ Sound w'.trace := by
  cases l with
  | tick d => cases h; exact absurd hw' hw
  | create when interval => cases h; exact absurd hw' hw
  | createElsewhere => cases h; exact absurd hw' hw
  | addTimerInLoop timerId =>
    obtain ⟨-,timer,-,rfl⟩ := step_addTimerInLoop h
    exact absurd hw' hw
  | cancelInLoop timerId =>
    obtain ⟨-,rfl⟩ := step_cancelInLoop h
    exact absurd hw' hw
  | handleRead =>
    obtain ⟨-,rfl⟩ := step_handleRead h
    cases hw'
  | advance =>
    rcases advance_cases h with ⟨now,expired,id,todo,-,⟨-,rfl⟩ | ⟨-,rfl⟩⟩ | ⟨now,expired,-,rfl⟩ |
      ⟨now,id,todo,-,⟨timer,-,rfl⟩ | ⟨-,rfl⟩⟩ | ⟨now,-,rfl⟩
    · cases hw'
    · exact fun hsound => hsound.owned id (by simp)
    · cases hw'
    · cases hw'
    · exact fun hsound => hsound.owned id (by simp)
    · cases hw'

theorem step_known {w w' : TimerLoop} {l : Label} (hw : w.Known) (h : step w l = some w') : w'.Known := by
  rcases hw with ⟨hphase,hnot⟩ | ⟨hlive,ht,ho⟩
  · obtain ⟨hphase',htrace⟩ := step_undefined hphase h
    exact .inl ⟨hphase',by rwa [htrace]⟩
  · by_cases hphase : w'.phase = .undefined
    · exact .inl ⟨hphase,undefined_not_sound hlive h hphase⟩
    · exact .inr ⟨hphase,(step_tracked ht h).resolve_left hphase,(step_ordered ht ho h).resolve_left hphase⟩

/-- A run keeps the timers of the batch owned exactly if none of its steps cancels one. -/
theorem owned_iff_along {clock : Clock} {labels : List Label} {w : TimerLoop}
    (h : Run step (initial clock) labels w) :
    w.Owned ↔ Along step (fun w l => ¬ w.CancelsBatch l) (initial clock) labels := by
  have hstart : (initial clock).Owned := ⟨sound_nil,fun _ hid => by cases hid⟩
  have hiff : w.Owned ↔ (initial clock).Owned ∧
      Along step (fun w l => ¬ w.CancelsBatch l) (initial clock) labels := by
    refine h.iff_along (I:=Known) (fun _ _ _ hI hstep => step_known hI hstep) ?_ (initial_known clock)
    intro u l v hI hstep
    rcases hI with ⟨hphase,hnot⟩ | ⟨-,ht,ho⟩
    · obtain ⟨-,htrace⟩ := step_undefined hphase hstep
      exact iff_of_false (fun ho => hnot (htrace ▸ ho.1)) fun ho => hnot ho.1.1
    · exact step_owned ht ho hstep
  exact hiff.trans (and_iff_right hstart)

theorem tracked_of_along {clock : Clock} {labels : List Label} {w : TimerLoop}
    (h : Run step (initial clock) labels w)
    (halong : Along step (fun w l => ¬ w.CancelsBatch l) (initial clock) labels) :
    w.phase ≠ .undefined ∧ w.Tracked := by
  have hknown : w.Known := h.invariant (I:=Known) (fun _ _ _ hI hstep => step_known hI hstep) (initial_known clock)
  rcases hknown with ⟨-,hnot⟩ | ⟨hphase,ht,-⟩
  · exact absurd ((owned_iff_along h).mpr halong).1 hnot
  · exact ⟨hphase,ht⟩

/-- In every run, with any callbacks: `handleRead` touches only timers that it still owns and
runs none behind its cancel if no callback cancels a timer of the batch; and outside a batch
that is the only case. -/
theorem sound_iff {clock : Clock} {labels : List Label} {w : TimerLoop}
    (h : Run step (initial clock) labels w) :
    (Along step (fun w l => ¬ w.CancelsBatch l) (initial clock) labels → Sound w.trace) ∧
      (w.batch = [] → Sound w.trace → Along step (fun w l => ¬ w.CancelsBatch l) (initial clock) labels) := by
  constructor
  · exact fun halong => ((owned_iff_along h).mpr halong).1
  · intro hbatch hsound
    exact (owned_iff_along h).mp ⟨hsound,by simp [hbatch]⟩

instance (w : TimerLoop) (l : Label) : Decidable (w.CancelsBatch l) :=
  match l with
  | .cancelInLoop timerId => inferInstanceAs (Decidable (timerId ∈ w.batch))
  | .tick _ | .create _ _ | .createElsewhere | .addTimerInLoop _ | .handleRead | .advance => isFalse id

def millisecond : Interval := ⟨true,1000,by decide⟩

def once : Interval := ⟨false,0,by decide⟩

def epoch : Clock := ⟨1,by decide⟩

/-- A timer that repeats and one that does not; the callback of the first cancels a timer. -/
def twoTimers (cancelled : ℕ) : List Label :=
  [.create 1000 millisecond,.addTimerInLoop 0,.create 500 once,.addTimerInLoop 1,.create 90000 once,
    .addTimerInLoop 2,.tick 2000,.handleRead,.advance,.advance,.cancelInLoop cancelled,.advance,.advance,.advance]

theorem sound_iff_twoTimers :
    ∃ w, exec step (initial epoch) (twoTimers 2++[.advance]) = some w ∧ w.batch = [] ∧ Sound w.trace ∧
      Along step (fun w l => ¬ w.CancelsBatch l) (initial epoch) (twoTimers 2++[.advance]) := by
  obtain ⟨w,hw⟩ : ∃ w, exec step (initial epoch) (twoTimers 2++[.advance]) = some w :=
    Option.isSome_iff_exists.mp (by decide +kernel)
  have hbatch : (exec step (initial epoch) (twoTimers 2++[.advance])).map batch = some [] := by decide +kernel
  rw [hw] at hbatch
  have hiff := sound_iff ((run_iff_exec _ _ _ _).mpr hw)
  have hsound := hiff.1 (by decide +kernel)
  exact ⟨w,hw,Option.some.inj hbatch,hsound,hiff.2 (Option.some.inj hbatch) hsound⟩

/-- A repeating timer cancels itself; `reset` asks the destroyed timer for its number. -/
theorem not_sound :
    ¬ ∀ (clock : Clock) (labels : List Label) (w : TimerLoop),
      Run step (initial clock) labels w → Sound w.trace := by
  intro h
  obtain ⟨w,hw⟩ : ∃ w, exec step (initial epoch) (twoTimers 0) = some w :=
    Option.isSome_iff_exists.mp (by decide +kernel)
  have htouch : (exec step (initial epoch) (twoTimers 0)).map (fun w => decide (.touch 0 false ∈ w.trace)) =
      some true := by decide +kernel
  rw [hw] at htouch
  exact (h epoch _ w ((run_iff_exec _ _ _ _).mpr hw)).owned 0 (of_decide_eq_true (Option.some.inj htouch))

end TimerLoop
end GgLib
