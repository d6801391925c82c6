import GgLib.TimerOwnership

/-! For when `timerfd_` is armed. Between two batches it is armed early enough for every
entry; within a batch that only has to hold of the entries that `reset` would take for no
expiration at all, and then a callback has added them. -/
namespace GgLib

open LabelledSystem

namespace TimerQueue

/-- `timerfd_` is armed, or due, no later than `key` or 100 microseconds behind the arming. -/
def ArmedFor (q : TimerQueue) (key : ℤ) : Prop :=
  ∃ a, q.timerfd = some a ∧ a.instant ≤ max key (a.moment+100)

/-- It is so for every entry whose key satisfies `S`. -/
def Armed (q : TimerQueue) (S : ℤ → Prop) : Prop := ∀ entry ∈ q.timers, S entry.first → q.ArmedFor entry.first

variable {q q' : TimerQueue} {S : ℤ → Prop} {now key key' : ℤ} {timer : Timer}

theorem ArmedFor.mono (h : q.ArmedFor key) (hfd : q'.timerfd = q.timerfd) (hkey : key ≤ key') :
    q'.ArmedFor key' := by
  obtain ⟨a,ha,hle⟩ := h
  exact ⟨a,hfd.trans ha,hle.trans (max_le_max_right _ hkey)⟩

theorem resetTimerfd_armedFor (q : TimerQueue) (now : ℤ) (hkey : key ≤ key') :
    (q.resetTimerfd now key).ArmedFor key' := by
  refine ⟨_,rfl,?_⟩
  show now+(howMuchTimeFromNow key now).microSeconds ≤ max key' (now+100)
  rw [howMuchTimeFromNow_microSeconds]
  omega

theorem insert_changed (h : (q.insert timer).2 = true) : ∀ entry ∈ q.timers, timer.expiration ≤ entry.first := by
  intro entry hentry
  cases htop : q.timers.top with
  | none => exact absurd hentry (PriorityQueue.top_eq_none.mp htop entry)
  | some top =>
    have hlt : timer.expiration < top.first := by simpa [insert,htop] using h
    exact hlt.le.trans (Entry.first_le (PriorityQueue.top_le htop hentry))

theorem insert_not_changed (h : (q.insert timer).2 = false) :
    ∃ entry ∈ q.timers, entry.first ≤ timer.expiration := by
  cases htop : q.timers.top with
  | none => simp [insert,htop] at h
  | some top => exact ⟨top,PriorityQueue.top_mem htop,by simpa [insert,htop] using h⟩

theorem insert_timerfd (q : TimerQueue) (timer : Timer) : (q.insert timer).1.timerfd = q.timerfd := by
  simp only [insert]
  split <;> rfl

/-- A new earliest timer arms `timerfd_`, any other relies on the entry before it. -/
theorem Armed.addTimerInLoop (hS : ∀ k k', k ≤ k' → S k' → S k) (hq : q.Armed S) :
    (q.addTimerInLoop now timer).Armed S := by
  intro entry hentry hkey
  rw [addTimerInLoop_timers,PriorityQueue.mem_emplace] at hentry
  cases hchanged : (q.insert timer).2 with
  | true =>
    have hfirst : timer.expiration ≤ entry.first := by
      rcases hentry with rfl | hentry
      · exact le_rfl
      · exact insert_changed hchanged entry hentry
    simp only [TimerQueue.addTimerInLoop,hchanged,if_true]
    exact resetTimerfd_armedFor _ now hfirst
  | false =>
    simp only [TimerQueue.addTimerInLoop,hchanged,Bool.false_eq_true,if_false]
    rcases hentry with rfl | hentry
    · obtain ⟨top,htop,hle⟩ := insert_not_changed hchanged
      exact (hq top htop (hS _ _ hle hkey)).mono (insert_timerfd q timer) hle
    · exact (hq entry hentry hkey).mono (insert_timerfd q timer) le_rfl

theorem lt_of_mem_getExpired {entry : Entry} (h : entry ∈ (q.getExpired now).1.timers) : now < entry.first := by
  have hnot := PriorityQueue.not_of_mem_popWhile (p:=fun entry : Entry => decide (entry.first ≤ now))
    (fun a b hab hb => decide_eq_true ((Entry.first_le hab).trans (of_decide_eq_true hb))) h
  exact not_le.mp (of_decide_eq_false hnot)

theorem Armed.restartOrErase (hq : q.Armed (· ≤ 0)) (hnow : 0 < now) :
    (q.restartOrErase now timer).Armed (· ≤ 0) := by
  intro entry hentry hkey
  rw [TimerQueue.restartOrErase] at hentry ⊢
  split at hentry
  · rename_i hrepeats
    rw [if_pos hrepeats]
    rcases PriorityQueue.mem_emplace.mp hentry with rfl | hentry
    · have hpos : timer.repeats = true := (Bool.and_eq_true _ _ ▸ hrepeats).1
      have hle : 0 ≤ timer.interval.microSeconds := timer.interval.nonneg hpos
      have hexp : (timer.restart now).expiration = now+timer.interval.microSeconds := by
        simp [Timer.restart,hpos,Timestamp.addTime]
      simp only [hexp] at hkey
      omega
    · exact (hq entry hentry hkey).mono rfl le_rfl
  · rename_i hrepeats
    rw [if_neg hrepeats]
    exact (hq entry hentry hkey).mono rfl le_rfl

/-- `reset` arms `timerfd_` for the first entry, unless its key is no valid expiration. -/
theorem Armed.armNext (hq : q.Armed (· ≤ 0)) : (q.armNext now).Armed fun _ => True := by
  intro entry hentry _
  rw [armNext_timers] at hentry
  cases htop : (q.timers.popWhile fun entry => (q.activeTimers entry.second).isNone).2.top with
  | none => exact absurd hentry (PriorityQueue.top_eq_none.mp htop entry)
  | some top =>
    have hle : top.first ≤ entry.first := Entry.first_le (PriorityQueue.top_le htop hentry)
    simp only [TimerQueue.armNext,htop]
    split
    · exact resetTimerfd_armedFor _ now hle
    · rename_i hvalid
      have hkey : top.first ≤ 0 := by simpa [Timestamp.valid] using hvalid
      have hmem : top ∈ q.timers := PriorityQueue.mem_of_mem_popWhile (PriorityQueue.top_mem htop)
      exact (hq top hmem hkey).mono rfl hle

end TimerQueue
namespace TimerLoop

/-- The time at which the batch began. -/
def Phase.now : Phase → Option ℤ
  | .running now _ _ => some now
  | .resetting now _ => some now
  | .idle => none
  | .undefined => none

/-- `timerfd_` is armed for what no batch will see to. -/
structure Ready (w : TimerLoop) : Prop where
  armed : w.queue.Armed fun key => w.phase = .idle ∨ key ≤ 0
  positive : ∀ now, w.phase.now = some now → 0 < now

theorem initial_ready (clock : Clock) : (initial clock).Ready where
  armed := fun _ h => by cases h
  positive := fun _ h => by cases h

theorem armed_iff {q : TimerQueue} {phase : Phase} (h : phase ≠ .idle) :
    (q.Armed fun key => phase = .idle ∨ key ≤ 0) ↔ q.Armed (· ≤ 0) := by
  simp [TimerQueue.Armed,h]

theorem Ready.advance {w w' : TimerLoop} (hw : w.Ready) (h : w.advance = some w') : w'.Ready := by
  have harmed : w.phase ≠ .idle → w.queue.Armed (· ≤ 0) := fun hne => (armed_iff hne).mp hw.armed
  have hpositive := hw.positive
  rcases advance_cases h with ⟨now,expired,id,todo,hphase,⟨-,rfl⟩ | ⟨-,rfl⟩⟩ | ⟨now,expired,hphase,rfl⟩ |
    ⟨now,id,todo,hphase,⟨timer,htimer,rfl⟩ | ⟨-,rfl⟩⟩ | ⟨now,hphase,rfl⟩ <;>
    rw [hphase] at harmed hpositive <;> have hq := harmed (by simp)
  · exact ⟨(armed_iff (by simp)).mpr hq,hpositive⟩
  · exact ⟨(armed_iff (by simp)).mpr hq,fun _ hnow => by cases hnow⟩
  · exact ⟨(armed_iff (by simp)).mpr hq,hpositive⟩
  · exact ⟨(armed_iff (by simp)).mpr (hq.restartOrErase (hpositive now rfl)),hpositive⟩
  · exact ⟨(armed_iff (by simp)).mpr hq,fun _ hnow => by cases hnow⟩
  · exact ⟨fun entry hentry _ => hq.armNext entry hentry trivial,fun _ hnow => by cases hnow⟩

theorem step_ready {w w' : TimerLoop} {l : Label} (hw : w.Ready) (h : step w l = some w') : w'.Ready := by
  cases l with
  | tick d => cases h; exact ⟨hw.armed,hw.positive⟩
  | create when interval => cases h; exact ⟨hw.armed,hw.positive⟩
  | createElsewhere => cases h; exact ⟨hw.armed,hw.positive⟩
  | addTimerInLoop timerId =>
    obtain ⟨-,timer,-,rfl⟩ := step_addTimerInLoop h
    refine ⟨hw.armed.addTimerInLoop fun k k' hle hS => ?_,hw.positive⟩
    exact hS.imp_right hle.trans
  | cancelInLoop timerId =>
    obtain ⟨-,rfl⟩ := step_cancelInLoop h
    exact ⟨fun entry hentry hkey => (hw.armed entry hentry hkey).mono rfl le_rfl,hw.positive⟩
  | handleRead =>
    obtain ⟨-,rfl⟩ := step_handleRead h
    have hclock := w.clock.valid
    refine ⟨fun entry hentry hkey => ?_,fun now hnow => ?_⟩
    · have hlt := TimerQueue.lt_of_mem_getExpired hentry
      rcases hkey with hidle | hkey
      · cases hidle
      · omega
    · cases hnow
      exact hclock
  | advance => exact hw.advance h

/-- In every run whose callbacks cancel no timer of their batch, between two batches: every
active timer has exactly one entry, with its expiration as key; every other entry is that of
a cancelled timer; and while a timer is active `timerfd_` is armed, or already due, for an
instant that is for none of them later than its expiration or 100 microseconds behind the
arming. -/
theorem no_timer_lost {clock : Clock} {labels : List Label} {w : TimerLoop}
    (h : Run step (initial clock) labels w)
    (hbatch : Along step (fun w l => ¬ w.CancelsBatch l) (initial clock) labels) :
    w.phase ≠ .undefined ∧ (w.phase = .idle →
      (∀ timerId timer, w.queue.activeTimers timerId = some timer →
        w.queue.entriesOf timerId = [⟨timer.expiration,timerId⟩]) ∧
      (∀ entry ∈ w.queue.timers, w.queue.activeTimers entry.second = none →
        .cancelInLoop entry.second ∈ w.trace) ∧
      ((∃ timerId, w.queue.activeTimers timerId ≠ none) → ∃ a, w.queue.timerfd = some a ∧
        ∀ timerId timer, w.queue.activeTimers timerId = some timer →
          a.instant ≤ max timer.expiration (a.moment+100))) := by
  obtain ⟨hphase,ht⟩ := tracked_of_along h hbatch
  have hready : w.Ready := h.invariant (I:=Ready) (fun _ _ _ hI hstep => step_ready hI hstep) (initial_ready clock)
  refine ⟨hphase,fun hidle => ?_⟩
  have hnil : w.batch = [] := by rw [batch,hidle]
  have hentries : ∀ timerId timer, w.queue.activeTimers timerId = some timer →
      w.queue.entriesOf timerId = [⟨timer.expiration,timerId⟩] := by
    intro id timer htimer
    rw [ht.tracks.entries id timer htimer,hnil,if_neg List.not_mem_nil]
  have harmed : ∀ timerId timer, w.queue.activeTimers timerId = some timer →
      w.queue.ArmedFor timer.expiration := by
    intro id timer htimer
    have hmem : (⟨timer.expiration,id⟩ : TimerQueue.Entry) ∈ w.queue.entriesOf id := by
      rw [hentries id timer htimer]
      exact .head _
    exact hready.armed _ (List.mem_filter.mp hmem).1 (.inl hidle)
  refine ⟨hentries,ht.tracks.stale,fun hsome => ?_⟩
  obtain ⟨id,hactive⟩ := hsome
  obtain ⟨timer,htimer⟩ := Option.ne_none_iff_exists'.mp hactive
  obtain ⟨a,ha,-⟩ := harmed id timer htimer
  refine ⟨a,ha,fun id' timer' htimer' => ?_⟩
  obtain ⟨a',ha',hle⟩ := harmed id' timer' htimer'
  rw [ha] at ha'
  cases ha'
  exact hle

/-- The callback of timer 0 adds timer 2 and cancels timer 1; behind the batch timer 3 is
added, and timer 2 is cancelled while its entry is on top. -/
def staleTop : List Label :=
  [.create 1000 once,.addTimerInLoop 0,.create 5000 millisecond,.addTimerInLoop 1,.create 90000 once,.tick 2000,
    .handleRead,.advance,.addTimerInLoop 2,.cancelInLoop 1,.advance,.advance,.advance,.create 95000 once,
    .addTimerInLoop 3,.cancelInLoop 2]

theorem no_timer_lost_staleTop :
    ∃ w, exec step (initial epoch) staleTop = some w ∧ w.phase = .idle ∧
      w.queue.entriesOf 3 = [⟨95000,3⟩] ∧ .cancelInLoop 2 ∈ w.trace ∧
      ∃ a, w.queue.timerfd = some a ∧ a.instant ≤ max 95000 (a.moment+100) := by
  obtain ⟨w,hw⟩ : ∃ w, exec step (initial epoch) staleTop = some w :=
    Option.isSome_iff_exists.mp (by decide +kernel)
  have hfields : (exec step (initial epoch) staleTop).map (fun w =>
      (w.phase,w.queue.timers.elements,w.queue.activeTimers 2,w.queue.activeTimers 3)) =
      some (.idle,[⟨90000,2⟩,⟨95000,3⟩],none,some ⟨95000,once,3⟩) := by decide +kernel
  rw [hw] at hfields
  obtain ⟨hidle,htimers,htwo,hthree⟩ : w.phase = .idle ∧ w.queue.timers.elements = [⟨90000,2⟩,⟨95000,3⟩] ∧
      w.queue.activeTimers 2 = none ∧ w.queue.activeTimers 3 = some ⟨95000,once,3⟩ := by
    simpa using hfields
  obtain ⟨hentries,hstale,harmed⟩ :=
    (no_timer_lost ((run_iff_exec _ _ _ _).mpr hw) (by decide +kernel)).2 hidle
  obtain ⟨a,ha,hle⟩ := harmed ⟨3,by simp [hthree]⟩
  have hmem : (⟨90000,2⟩ : TimerQueue.Entry) ∈ w.queue.timers := by
    rw [← PriorityQueue.mem_elements,htimers]
    exact .head _
  exact ⟨w,hw,hidle,hentries 3 _ hthree,hstale _ hmem htwo,a,ha,hle 3 _ hthree⟩

end TimerLoop
end GgLib
