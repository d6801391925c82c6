import GgLib.TimerBatch
import Mathlib.Data.List.Chain

/-! The callbacks of the timers over whole runs: for each timer, the readings of the clock that `handleRead` ran it
at. -/
namespace GgLib

open LabelledSystem

namespace Timer

/-- When a timer whose callback ran at these readings is to run next. -/
def nextTime (t : Timer) (times : List ℤ) : ℤ :=
  match times.getLast? with
  | none => t.expiration
  | some time => Timestamp.addTime time t.interval

/-- Never early, an interval apart, and only once when the timer does not repeat. -/
structure Keeps (t : Timer) (times : List ℤ) : Prop where
  first : ∀ time ∈ times.head?, t.expiration ≤ time
  apart : times.IsChain fun time time' => Timestamp.addTime time t.interval ≤ time'
  once : t.repeats = false → times.length ≤ 1

theorem keeps_nil (t : Timer) : t.Keeps [] where
  first := by simp
  apart := .nil
  once _ := Nat.zero_le 1

theorem Keeps.snoc {t : Timer} {times : List ℤ} (h : t.Keeps times) {time : ℤ} (htime : t.nextTime times ≤ time)
    (hmore : times = [] ∨ t.repeats = true) : t.Keeps (times++[time]) := by
  cases hlast : times.getLast? with
  | none =>
    have hnil := List.getLast?_eq_none_iff.mp hlast
    subst hnil
    exact ⟨by simpa [nextTime] using htime,by simp,fun _ => Nat.le_refl 1⟩
  | some last =>
    have hsome : times ≠ [] := by
      rintro rfl
      cases hlast
    refine ⟨fun a ha => h.first a ?_,h.apart.append (.singleton _) ?_,fun hnot => ?_⟩
    · rwa [List.head?_append_of_ne_nil _ hsome] at ha
    · intro a ha b hb
      rw [hlast] at ha
      rw [nextTime,hlast] at htime
      cases ha
      cases hb
      exact htime
    · rw [hmore.resolve_left hsome] at hnot
      cases hnot

end Timer

/-- `made` are the timers as they were constructed, and `ran` the callbacks, each with the reading of the clock that
its `handleRead` took. -/
structure TimerSchedule where
  loop : TimerLoop
  made : List Timer
  ran : List (ℕ × ℤ)

namespace TimerSchedule

open TimerLoop

def initial (clock : Clock) : TimerSchedule := ⟨.initial clock,[],[]⟩

def constructed (w : TimerLoop) (move : Move) : List Timer :=
  match move with
  | .queue (.create when interval) => [⟨when,interval,w.numCreated⟩]
  | _ => []

def called (w : TimerLoop) (move : Move) : List (ℕ × ℤ) :=
  match move,w.phase with
  | .queue .advance,.running now _ (timerId::_) => [(timerId,now)]
  | _,_ => []

def step (s : TimerSchedule) (move : Move) : Option TimerSchedule :=
  (stepAt s.loop move).map fun loop => ⟨loop,s.made++constructed s.loop move,s.ran++called s.loop move⟩

def readings (ran : List (ℕ × ℤ)) (timerId : ℕ) : List ℤ :=
  ran.filterMap fun call => if call.1 = timerId then some call.2 else none

theorem readings_snoc_self (ran : List (ℕ × ℤ)) (timerId : ℕ) (now : ℤ) :
    readings (ran++[(timerId,now)]) timerId = readings ran timerId++[now] := by
  simp [readings]

theorem readings_snoc_of_ne (ran : List (ℕ × ℤ)) {timerId id : ℕ} (h : id ≠ timerId) (now : ℤ) :
    readings (ran++[(timerId,now)]) id = readings ran id := by
  simp [readings,Ne.symm h]

theorem readings_eq_nil {ran : List (ℕ × ℤ)} {timerId : ℕ} (h : ∀ call ∈ ran, call.1 ≠ timerId) :
    readings ran timerId = [] := by
  rw [readings,List.filterMap_eq_nil_iff]
  intro call hcall
  rw [if_neg (h call hcall)]

/-- The reading at which a timer of the batch ran that is still to be reset. -/
def ranAt : TimerLoop.Phase → ℕ → Option ℤ
  | .running now expired todo, id => if id ∈ expired ∧ id ∉ todo then some now else none
  | .resetting now todo, id => if id ∈ todo then some now else none
  | .idle, _ => none
  | .undefined, _ => none

/-- What is in `activeTimers_` of the timer `t`. -/
structure Stands (phase : TimerLoop.Phase) (t : Timer) (times : List ℤ) (timer : Timer) : Prop where
  interval : timer.interval = t.interval
  waits : ranAt phase t.sequence = none → timer.expiration = t.nextTime times ∧ (times = [] ∨ t.repeats = true)
  ran : ∀ now, ranAt phase t.sequence = some now → times.getLast? = some now

theorem Stands.rephase {phase phase' : TimerLoop.Phase} {t : Timer} {times : List ℤ} {timer : Timer}
    (h : Stands phase t times timer) (hran : ranAt phase' t.sequence = ranAt phase t.sequence) :
    Stands phase' t times timer where
  interval := h.interval
  waits hnone := h.waits (hran ▸ hnone)
  ran now hnow := h.ran now (hran ▸ hnow)

theorem ranAt_running_of_ne {timerId id : ℕ} (h : id ≠ timerId) (now : ℤ) (expired todo : List ℕ) :
    ranAt (.running now expired todo) id = ranAt (.running now expired (timerId::todo)) id := by
  simp [ranAt,h]

theorem ranAt_resetting_of_ne {timerId id : ℕ} (h : id ≠ timerId) (now : ℤ) (todo : List ℕ) :
    ranAt (.resetting now todo) id = ranAt (.resetting now (timerId::todo)) id := by
  simp [ranAt,h]

/-- What `handleRead` has still to run is due, and ends its batch. -/
def Pending (w : TimerLoop) : Prop :=
  match w.phase with
  | .running now expired todo => (∃ ran, expired = ran++todo) ∧
    ∀ id ∈ todo, ∀ timer, w.queue.activeTimers id = some timer → timer.expiration ≤ now
  | _ => True

/-- The invariant of the runs that respect their batches. -/
structure Follows (s : TimerSchedule) : Prop where
  live : s.loop.Live
  below : ∀ t ∈ s.made, t.sequence < s.loop.numCreated
  distinct : (s.made.map (·.sequence)).Nodup
  called : ∀ call ∈ s.ran, ∃ t ∈ s.made, t.sequence = call.1
  created : ∀ timer ∈ s.loop.created, timer ∈ s.made ∧ readings s.ran timer.sequence = []
  known : ∀ id timer, s.loop.queue.activeTimers id = some timer → ∃ t ∈ s.made, t.sequence = id
  keeps : ∀ t ∈ s.made, t.Keeps (readings s.ran t.sequence)
  active : ∀ t ∈ s.made, ∀ timer, s.loop.queue.activeTimers t.sequence = some timer →
    Stands s.loop.phase t (readings s.ran t.sequence) timer
  pending : Pending s.loop

theorem initial_follows (clock : Clock) : (initial clock).Follows where
  live := initial_live clock
  below _ h := by cases h
  distinct := .nil
  called _ h := by cases h
  created _ h := by cases h
  known _ _ h := by cases h
  keeps _ h := by cases h
  active _ h := by cases h
  pending := trivial

variable {s s' : TimerSchedule} {loop : TimerLoop}

theorem Follows.eq_of_sequence (h : s.Follows) {t t' : Timer} (ht : t ∈ s.made) (ht' : t' ∈ s.made)
    (hsame : t.sequence = t'.sequence) : t = t' :=
  List.inj_on_of_nodup_map h.distinct ht ht' hsame

theorem Follows.quiet (h : s.Follows) (hlive : loop.Live) (hnum : s.loop.numCreated ≤ loop.numCreated)
    (hcreated : loop.created = s.loop.created)
    (hkept : ∀ id timer, loop.queue.activeTimers id = some timer →
      s.loop.queue.activeTimers id = some timer ∧ ranAt loop.phase id = ranAt s.loop.phase id)
    (hpending : Pending loop) : Follows ⟨loop,s.made,s.ran⟩ where
  live := hlive
  below t ht := Nat.lt_of_lt_of_le (h.below t ht) hnum
  distinct := h.distinct
  called := h.called
  created timer ht := h.created timer (by rwa [← hcreated])
  known id timer ht := h.known id timer (hkept id timer ht).1
  keeps := h.keeps
  active t ht timer htimer := by
    obtain ⟨hbefore,hran⟩ := hkept _ timer htimer
    exact (h.active t ht timer hbefore).rephase hran
  pending := hpending

theorem Follows.create (h : s.Follows) (when : ℤ) (interval : Interval)
    (hlive : Live { s.loop with
      numCreated := s.loop.numCreated+1
      created := s.loop.created++[⟨when,interval,s.loop.numCreated⟩] }) :
    Follows ⟨{ s.loop with
      numCreated := s.loop.numCreated+1
      created := s.loop.created++[⟨when,interval,s.loop.numCreated⟩] },
      s.made++[⟨when,interval,s.loop.numCreated⟩],s.ran⟩ := by
  have hnew : ∀ call ∈ s.ran, call.1 ≠ s.loop.numCreated := by
    intro call hcall
    obtain ⟨t,ht,heq⟩ := h.called call hcall
    exact heq ▸ Nat.ne_of_lt (h.below t ht)
  have hinactive : s.loop.queue.activeTimers s.loop.numCreated = none :=
    (h.live.tracked.unused _ (.inl (Nat.le_refl _))).active
  constructor
  · exact hlive
  · intro t ht
    rcases List.mem_append.mp ht with ht | ht
    · exact Nat.lt_succ_of_lt (h.below t ht)
    · rw [List.mem_singleton.mp ht]
      exact Nat.lt_succ_self _
  · rw [List.map_append,List.nodup_append]
    refine ⟨h.distinct,List.nodup_singleton _,fun a ha b hb => ?_⟩
    obtain ⟨t,ht,rfl⟩ := List.mem_map.mp ha
    rw [List.mem_singleton.mp hb]
    exact Nat.ne_of_lt (h.below t ht)
  · intro call hcall
    obtain ⟨t,ht,heq⟩ := h.called call hcall
    exact ⟨t,List.mem_append_left _ ht,heq⟩
  · intro timer ht
    rcases List.mem_append.mp ht with ht | ht
    · exact ⟨List.mem_append_left _ (h.created timer ht).1,(h.created timer ht).2⟩
    · rw [List.mem_singleton.mp ht]
      exact ⟨List.mem_append_right _ (.head _),readings_eq_nil hnew⟩
  · intro id timer ht
    obtain ⟨t,hmem,heq⟩ := h.known id timer ht
    exact ⟨t,List.mem_append_left _ hmem,heq⟩
  · intro t ht
    rcases List.mem_append.mp ht with ht | ht
    · exact h.keeps t ht
    · rw [List.mem_singleton.mp ht,readings_eq_nil hnew]
      exact Timer.keeps_nil _
  · intro t ht timer htimer
    rcases List.mem_append.mp ht with ht | ht
    · exact h.active t ht timer htimer
    · rw [List.mem_singleton.mp ht] at htimer
      rw [hinactive] at htimer
      cases htimer
  · exact h.pending

theorem ranAt_of_not_mem_batch {w : TimerLoop} {id : ℕ} (h : id ∉ w.batch) : ranAt w.phase id = none := by
  rw [TimerLoop.batch] at h
  cases hphase : w.phase with
  | idle => rfl
  | undefined => rfl
  | running now expired todo =>
    rw [hphase] at h
    exact if_neg fun hmem => h hmem.1
  | resetting now todo =>
    rw [hphase] at h
    exact if_neg h

/-- Behind a step of the callbacks that gives no timer of the batch a new expiration. -/
theorem Pending.mono {w : TimerLoop} (h : Pending w) (hphase : loop.phase = w.phase)
    (hkept : ∀ id ∈ w.batch, ∀ timer, loop.queue.activeTimers id = some timer →
      w.queue.activeTimers id = some timer) : Pending loop := by
  rw [TimerLoop.batch] at hkept
  unfold Pending at h ⊢
  rw [hphase]
  cases hw : w.phase with
  | idle | undefined | resetting now todo => trivial
  | running now expired todo =>
    simp only [hw] at h hkept ⊢
    obtain ⟨⟨ran,hexpired⟩,hdue⟩ := h
    refine ⟨⟨ran,hexpired⟩,fun id hid timer ht => hdue id hid timer (hkept id ?_ timer ht)⟩
    rw [hexpired]
    exact List.mem_append_right _ hid

theorem Follows.addTimerInLoop (h : s.Follows) {timer : Timer} (hmem : timer ∈ s.loop.created)
    (hlive : Live { s.loop with
      queue := s.loop.queue.addTimerInLoop s.loop.clock.now timer
      created := s.loop.created.erase timer }) :
    Follows ⟨{ s.loop with
      queue := s.loop.queue.addTimerInLoop s.loop.clock.now timer
      created := s.loop.created.erase timer },s.made,s.ran⟩ := by
  have hunused := h.live.tracked.unused timer.sequence (.inr ⟨timer,hmem,rfl⟩)
  obtain ⟨hmade,hnever⟩ := h.created timer hmem
  have hactive : (s.loop.queue.addTimerInLoop s.loop.clock.now timer).activeTimers =
      Function.update s.loop.queue.activeTimers timer.sequence (some timer) :=
    TimerQueue.addTimerInLoop_activeTimers hunused.active
  refine ⟨hlive,h.below,h.distinct,h.called,fun t ht => h.created t (List.mem_of_mem_erase ht),fun id t ht => ?_,
    h.keeps,fun t ht timer' ht' => ?_,?_⟩
  · by_cases hid : id = timer.sequence
    · exact ⟨timer,hmade,hid.symm⟩
    · rw [hactive,Function.update_of_ne hid] at ht
      exact h.known id t ht
  · by_cases hid : t.sequence = timer.sequence
    · rw [hactive,hid,Function.update_self] at ht'
      cases ht'
      have heq := h.eq_of_sequence ht hmade hid
      subst heq
      have hran := ranAt_of_not_mem_batch hunused.pending
      refine ⟨rfl,fun _ => ?_,fun now hnow => ?_⟩
      · rw [hnever]
        exact ⟨rfl,.inl rfl⟩
      · rw [hran] at hnow
        cases hnow
    · rw [hactive,Function.update_of_ne hid] at ht'
      exact h.active t ht timer' ht'
  · refine h.pending.mono rfl fun id hid t ht => ?_
    have hne : id ≠ timer.sequence := fun heq => hunused.pending (heq ▸ hid)
    rwa [hactive,Function.update_of_ne hne] at ht

theorem Follows.handleRead (h : s.Follows) (hstep : TimerLoop.step s.loop .handleRead = some loop)
    (hlive : loop.Live) : Follows ⟨loop,s.made,s.ran⟩ := by
  obtain ⟨hidle,rfl⟩ := step_handleRead hstep
  have htracks := h.live.tracked.tracks
  rw [batch,hidle] at htracks
  have hread : (s.loop.queue.readTimerfd s.loop.clock.now).Tracks [] fun id => .cancelInLoop id ∈ s.loop.trace :=
    ⟨htracks.keyed,htracks.entries,htracks.stale⟩
  refine h.quiet hlive (Nat.le_refl _) rfl (fun id timer ht => ⟨ht,?_⟩) ⟨⟨[],rfl⟩,fun id hid timer ht => ?_⟩
  · rw [hidle]
    exact if_neg fun hmem => hmem.2 hmem.1
  · have hdue : (s.loop.queue.readTimerfd s.loop.clock.now).Due s.loop.clock.now
        ((s.loop.queue.readTimerfd s.loop.clock.now).getExpired s.loop.clock.now).2 := hread.getExpired_due
    obtain ⟨timer',ht',hle⟩ := (hdue.mem id).mp hid
    have heq : timer' = timer := Option.some.inj (ht'.symm.trans ht)
    exact heq ▸ hle

/-- A callback runs. -/
theorem Follows.run (h : s.Follows) {now : ℤ} {expired : List ℕ} {timerId : ℕ} {todo : List ℕ}
    (hphase : s.loop.phase = .running now expired (timerId::todo)) {timer : Timer}
    (htimer : s.loop.queue.activeTimers timerId = some timer) (trace : List Event)
    (hlive : Live { s.loop with phase := .running now expired todo, trace }) :
    Follows ⟨{ s.loop with phase := .running now expired todo, trace },s.made,s.ran++[(timerId,now)]⟩ := by
  obtain ⟨⟨ran,hexpired⟩,hdue⟩ : (∃ ran, expired = ran++timerId::todo) ∧ ∀ id ∈ timerId::todo, ∀ timer,
      s.loop.queue.activeTimers id = some timer → timer.expiration ≤ now := by
    have hpending := h.pending
    unfold Pending at hpending
    simpa only [hphase] using hpending
  have hnodup : (ran++timerId::todo).Nodup := by
    have hbatch := h.live.tracked.nodup
    rw [batch,hphase] at hbatch
    exact hexpired ▸ hbatch
  have hfresh : timerId ∉ todo := (List.nodup_cons.mp (List.nodup_append.mp hnodup).2.1).1
  obtain ⟨t,ht,hid⟩ := h.known timerId timer htimer
  subst hid
  have hwaits : timer.expiration = t.nextTime (readings s.ran t.sequence) ∧
      (readings s.ran t.sequence = [] ∨ t.repeats = true) := by
    refine (h.active t ht timer htimer).waits ?_
    rw [hphase]
    exact if_neg fun hmem => hmem.2 (.head _)
  have hkeeps : t.Keeps (readings s.ran t.sequence++[now]) :=
    (h.keeps t ht).snoc (hwaits.1 ▸ hdue _ (.head _) timer htimer) hwaits.2
  refine ⟨hlive,h.below,h.distinct,fun call hcall => ?_,fun timer' ht' => ?_,h.known,fun t' ht' => ?_,
    fun t' ht' timer' htimer' => ?_,⟨ran++[t.sequence],by simp [hexpired]⟩,fun id hid => hdue id (.tail _ hid)⟩
  · rcases List.mem_append.mp hcall with hcall | hcall
    · exact h.called call hcall
    · rw [List.mem_singleton.mp hcall]
      exact ⟨t,ht,rfl⟩
  · obtain ⟨hmade,hnever⟩ := h.created timer' ht'
    have hne : timer'.sequence ≠ t.sequence := by
      intro heq
      have hnone := (h.live.tracked.unused t.sequence (.inr ⟨timer',ht',heq⟩)).active
      rw [htimer] at hnone
      cases hnone
    exact ⟨hmade,(readings_snoc_of_ne _ hne _).trans hnever⟩
  · by_cases heq : t'.sequence = t.sequence
    · rw [h.eq_of_sequence ht' ht heq,readings_snoc_self]
      exact hkeeps
    · rw [readings_snoc_of_ne _ heq]
      exact h.keeps t' ht'
  · by_cases heq : t'.sequence = t.sequence
    · have hsame := h.eq_of_sequence ht' ht heq
      subst hsame
      have hran : ranAt (.running now expired todo) t'.sequence = some now :=
        if_pos ⟨by simp [hexpired],hfresh⟩
      refine ⟨(h.active t' ht timer' htimer').interval,fun hnone => ?_,fun time htime => ?_⟩
      · rw [hran] at hnone
        cases hnone
      · rw [hran] at htime
        cases htime
        rw [readings_snoc_self,List.getLast?_concat]
    · rw [readings_snoc_of_ne _ heq]
      refine (h.active t' ht' timer' htimer').rephase ?_
      rw [hphase]
      exact ranAt_running_of_ne heq now expired todo

/-- `reset` goes on. -/
theorem Follows.reset (h : s.Follows) {now : ℤ} {timerId : ℕ} {todo : List ℕ}
    (hphase : s.loop.phase = .resetting now (timerId::todo)) {timer : Timer}
    (htimer : s.loop.queue.activeTimers timerId = some timer) (trace : List Event)
    (hlive : Live { s.loop with
      queue := s.loop.queue.restartOrErase now timer
      phase := .resetting now todo
      trace }) :
    Follows ⟨{ s.loop with
      queue := s.loop.queue.restartOrErase now timer
      phase := .resetting now todo
      trace },s.made,s.ran⟩ := by
  have hnodup : (timerId::todo).Nodup := by
    have hbatch := h.live.tracked.nodup
    rwa [batch,hphase] at hbatch
  have hfresh : timerId ∉ todo := (List.nodup_cons.mp hnodup).1
  have hkeyed := h.live.tracked.tracks.keyed timerId timer htimer
  subst hkeyed
  obtain ⟨t,ht,hid⟩ := h.known timer.sequence timer htimer
  have hself : (s.loop.queue.restartOrErase now timer).activeTimers timer.sequence = afterReset now (some timer) :=
    restartOrErase_self htimer
  have hother : ∀ id, id ≠ timer.sequence → (s.loop.queue.restartOrErase now timer).activeTimers id =
      s.loop.queue.activeTimers id := fun id hne => TimerQueue.restartOrErase_of_ne hne
  refine ⟨hlive,h.below,h.distinct,h.called,h.created,fun id timer' ht' => ?_,h.keeps,fun t' ht' timer' htimer' => ?_,
    trivial⟩
  · by_cases heq : id = timer.sequence
    · exact ⟨t,ht,hid.trans heq.symm⟩
    · exact h.known id timer' (hother id heq ▸ ht')
  · by_cases heq : t'.sequence = timer.sequence
    · have hsame := h.eq_of_sequence ht' ht (heq.trans hid.symm)
      subst hsame
      obtain ⟨hinterval,-,hlast⟩ := h.active t' ht timer (heq ▸ htimer)
      rw [heq,hself,afterReset,Option.bind_some] at htimer'
      split at htimer'
      · rename_i hrepeats
        cases htimer'
        have hlast' : (readings s.ran t'.sequence).getLast? = some now := by
          refine hlast now ?_
          rw [hphase,heq]
          exact if_pos (.head _)
        refine ⟨hinterval,fun _ => ⟨?_,.inr ?_⟩,fun time htime => ?_⟩
        · rw [Timer.nextTime,hlast',Timer.restart,if_pos hrepeats,hinterval]
        · rwa [Timer.repeats,← hinterval]
        · rw [heq] at htime
          have hnone : ranAt (.resetting now todo) timer.sequence = none := if_neg hfresh
          rw [hnone] at htime
          cases htime
      · cases htimer'
    · refine (h.active t' ht' timer' (hother _ heq ▸ htimer')).rephase ?_
      rw [hphase]
      exact ranAt_resetting_of_ne heq now todo

theorem called_of_ne (w : TimerLoop) {move : Move} (h : move ≠ .queue .advance) : called w move = [] := by
  unfold called
  split
  · exact absurd rfl h
  · rfl

theorem step_follows (h : s.Follows) {move : Move} (hrespects : Respects s.loop move)
    (hstep : step s move = some s') : s'.Follows := by
  obtain ⟨loop,hloop,rfl⟩ := Option.map_eq_some_iff.mp hstep
  have hlive := stepAt_live h.live hrespects hloop
  cases move with
  | clock clock =>
    cases hloop
    simpa [constructed,called_of_ne] using h.quiet hlive (Nat.le_refl _) rfl (fun _ _ ht => ⟨ht,rfl⟩) h.pending
  | queue label =>
    cases label with
    | tick d =>
      cases hloop
      simpa [constructed,called_of_ne] using h.quiet hlive (Nat.le_refl _) rfl (fun _ _ ht => ⟨ht,rfl⟩) h.pending
    | create when interval =>
      cases hloop
      simpa [constructed,called_of_ne] using h.create when interval hlive
    | createElsewhere =>
      cases hloop
      simpa [constructed,called_of_ne] using h.quiet hlive (Nat.le_succ _) rfl (fun _ _ ht => ⟨ht,rfl⟩) h.pending
    | addTimerInLoop timerId =>
      obtain ⟨-,timer,hmem,rfl⟩ := step_addTimerInLoop hloop
      simpa [constructed,called_of_ne] using h.addTimerInLoop hmem hlive
    | cancelInLoop timerId =>
      obtain ⟨-,rfl⟩ := step_cancelInLoop hloop
      have hkept : ∀ id timer, Function.update s.loop.queue.activeTimers timerId none id = some timer →
          s.loop.queue.activeTimers id = some timer := by
        intro id timer ht
        by_cases hid : id = timerId
        · rw [hid,Function.update_self] at ht
          cases ht
        · rwa [Function.update_of_ne hid] at ht
      have hpending : Pending { s.loop with
          queue := s.loop.queue.cancelInLoop timerId
          trace := s.loop.trace++[.cancelInLoop timerId] } := h.pending.mono rfl fun id _ => hkept id
      simpa [constructed,called_of_ne] using
        h.quiet hlive (Nat.le_refl _) rfl (fun id timer ht => ⟨hkept id timer ht,rfl⟩) hpending
    | handleRead => simpa [constructed,called_of_ne] using h.handleRead hloop hlive
    | advance =>
      rcases advance_cases hloop with ⟨now,expired,id,todo,hphase,⟨hactive,rfl⟩ | ⟨-,rfl⟩⟩ | ⟨now,expired,hphase,rfl⟩ |
        ⟨now,id,todo,hphase,⟨timer,htimer,rfl⟩ | ⟨-,rfl⟩⟩ | ⟨now,hphase,rfl⟩
      · obtain ⟨timer,htimer⟩ := Option.ne_none_iff_exists'.mp hactive
        simpa [constructed,called,hphase] using h.run hphase htimer _ hlive
      · exact absurd rfl hlive.phase
      · simpa [constructed,called,hphase] using h.quiet hlive (Nat.le_refl _) rfl
          (fun id timer ht => ⟨ht,by simp [ranAt,hphase]⟩) trivial
      · simpa [constructed,called,hphase] using h.reset hphase htimer _ hlive
      · exact absurd rfl hlive.phase
      · have hsame := TimerQueue.armNext_activeTimers s.loop.queue s.loop.clock.now
        simpa [constructed,called,hphase] using h.quiet hlive (Nat.le_refl _) rfl
          (fun id timer ht => ⟨hsame ▸ ht,by simp [ranAt,hphase]⟩) trivial

theorem step_callbacks (h : s.Follows) {move : Move} (hrespects : Respects s.loop move)
    (htrace : s.ran.map Prod.fst = s.loop.trace.filterMap Event.callback) (hstep : step s move = some s') :
    s'.ran.map Prod.fst = s'.loop.trace.filterMap Event.callback := by
  obtain ⟨loop,hloop,rfl⟩ := Option.map_eq_some_iff.mp hstep
  have hlive := stepAt_live h.live hrespects hloop
  simp only [List.map_append,htrace]
  cases move with
  | clock clock =>
    cases hloop
    simp [called_of_ne]
  | queue label =>
    cases label with
    | tick d | create when interval | createElsewhere =>
      cases hloop
      simp [called_of_ne]
    | addTimerInLoop timerId =>
      obtain ⟨-,timer,-,rfl⟩ := step_addTimerInLoop hloop
      simp [called_of_ne]
    | cancelInLoop timerId =>
      obtain ⟨-,rfl⟩ := step_cancelInLoop hloop
      simp [called_of_ne,Event.callback]
    | handleRead =>
      obtain ⟨-,rfl⟩ := step_handleRead hloop
      simp [called_of_ne,Event.callback]
    | advance =>
      rcases advance_cases hloop with ⟨now,expired,id,todo,hphase,⟨-,rfl⟩ | ⟨-,rfl⟩⟩ | ⟨now,expired,hphase,rfl⟩ |
        ⟨now,id,todo,hphase,⟨timer,-,rfl⟩ | ⟨-,rfl⟩⟩ | ⟨now,hphase,rfl⟩
      · rw [List.append_assoc,List.filterMap_append]
        simp only [called,hphase]
        rfl
      · exact absurd rfl hlive.phase
      · simp [called,hphase]
      · simp [called,hphase,Event.callback]
      · exact absurd rfl hlive.phase
      · simp [called,hphase]

/-- In every run in which no callback cancels a timer of its own batch, with any callbacks and a clock that may be set
back: a callback runs only at a reading of the clock that its timer waited for, a timer that repeats runs its
interval after the reading before, one that does not runs once, and what still waits is armed for the next one. -/
theorem timers_keep_schedule {clock : Clock} {moves : List Move} {s : TimerSchedule}
    (h : Run step (initial clock) moves s)
    (hrespects : Along step (fun s => Respects s.loop) (initial clock) moves) :
    s.ran.map Prod.fst = s.loop.trace.filterMap Event.callback ∧
      (∀ call ∈ s.ran, ∃ t ∈ s.made, t.sequence = call.1) ∧
      ∀ t ∈ s.made, t.Keeps (readings s.ran t.sequence) ∧
        (s.loop.phase = .idle → ∀ timer, s.loop.queue.activeTimers t.sequence = some timer →
          s.loop.queue.entriesOf t.sequence = [⟨t.nextTime (readings s.ran t.sequence),t.sequence⟩] ∧
            (readings s.ran t.sequence = [] ∨ t.repeats = true)) := by
  obtain ⟨hfollows,htrace⟩ := h.invariant_along
    (I:=fun s => s.Follows ∧ s.ran.map Prod.fst = s.loop.trace.filterMap Event.callback)
    (fun s move s' hs hrespects hstep => ⟨step_follows hs.1 hrespects hstep,
      step_callbacks hs.1 hrespects hs.2 hstep⟩) hrespects ⟨initial_follows clock,rfl⟩
  refine ⟨htrace,hfollows.called,fun t ht => ⟨hfollows.keeps t ht,fun hidle timer htimer => ?_⟩⟩
  have hran : ranAt s.loop.phase t.sequence = none := by rw [hidle,ranAt]
  obtain ⟨hexpiration,hmore⟩ := (hfollows.active t ht timer htimer).waits hran
  have hbatch : t.sequence ∉ s.loop.batch := by
    rw [batch,hidle]
    exact List.not_mem_nil
  refine ⟨?_,hmore⟩
  rw [hfollows.live.tracked.tracks.entries t.sequence timer htimer,if_neg hbatch,hexpiration]

/-- A timer that repeats and one that does not, over two batches between which the clock is set back. -/
def twoBatches : List Move :=
  [.queue (.create 1000 millisecond),.queue (.addTimerInLoop 0),.queue (.create 1500 once),.queue (.addTimerInLoop 1),
    .clock ⟨2100,by decide⟩,.queue .handleRead]++List.replicate 6 (.queue .advance)++
    [.clock ⟨500,by decide⟩,.queue .handleRead,.queue .advance,.queue .advance,.clock ⟨3500,by decide⟩,
      .queue .handleRead]++List.replicate 4 (.queue .advance)

theorem timers_keep_schedule_twoBatches :
    ∃ s, exec step (initial epoch) twoBatches = some s ∧ s.ran = [(0,2100),(1,2100),(0,3500)] ∧
      ∀ t ∈ s.made, t.Keeps (readings s.ran t.sequence) := by
  obtain ⟨s,hs⟩ : ∃ s, exec step (initial epoch) twoBatches = some s :=
    Option.isSome_iff_exists.mp (by decide +kernel)
  have hran : (exec step (initial epoch) twoBatches).map (·.ran) = some [(0,2100),(1,2100),(0,3500)] := by
    decide +kernel
  rw [hs] at hran
  have hkept := timers_keep_schedule ((run_iff_exec _ _ _ _).mpr hs) (by decide +kernel)
  exact ⟨s,hs,Option.some.inj hran,fun t ht => (hkept.2.2 t ht).1⟩

end TimerSchedule
end GgLib
