import GgLib.TimerQueue

/-! What ties `timers_` to `activeTimers_`: an active timer has one entry with its
expiration, or none while the batch that `handleRead` works on holds it, and every other
entry was left behind by a cancel. It holds in all runs, whatever the callbacks cancel. -/
namespace GgLib

open LabelledSystem

namespace TimerQueue

def entriesOf (q : TimerQueue) (timerId : ℕ) : List Entry :=
  q.timers.elements.filter fun entry => decide (entry.second = timerId)

theorem entriesOf_eq_nil {q : TimerQueue} {timerId : ℕ} :
    q.entriesOf timerId = [] ↔ ∀ entry ∈ q.timers, entry.second ≠ timerId := by
  rw [entriesOf,List.filter_eq_nil_iff]
  exact forall₂_congr fun entry _ => by rw [decide_eq_true_eq]

/-- `pending` are the timers that the batch holds. -/
structure Tracks (q : TimerQueue) (pending : List ℕ) (cancelled : ℕ → Prop) : Prop where
  keyed : ∀ timerId timer, q.activeTimers timerId = some timer → timer.sequence = timerId
  entries : ∀ timerId timer, q.activeTimers timerId = some timer →
    q.entriesOf timerId = if timerId ∈ pending then [] else [⟨timer.expiration,timerId⟩]
  stale : ∀ entry ∈ q.timers, q.activeTimers entry.second = none → cancelled entry.second

/-- No timer with this `sequence()` was ever added. -/
structure Unused (q : TimerQueue) (pending : List ℕ) (timerId : ℕ) : Prop where
  active : q.activeTimers timerId = none
  entries : q.entriesOf timerId = []
  pending : timerId ∉ pending

variable {q : TimerQueue} {pending : List ℕ} {cancelled : ℕ → Prop} {now : ℤ} {timer : Timer} {timerId : ℕ}

theorem insert_timers (q : TimerQueue) (timer : Timer) :
    (q.insert timer).1.timers = q.timers.emplace ⟨timer.expiration,timer.sequence⟩ := by
  simp only [insert]
  split <;> rfl

theorem insert_activeTimers (h : q.activeTimers timer.sequence = none) :
    (q.insert timer).1.activeTimers = Function.update q.activeTimers timer.sequence (some timer) := by
  simp only [insert,h,Option.isNone_none,if_true]
  rfl

@[simp] theorem addTimerInLoop_timers (q : TimerQueue) (now : ℤ) (timer : Timer) :
    (q.addTimerInLoop now timer).timers = q.timers.emplace ⟨timer.expiration,timer.sequence⟩ := by
  simp only [addTimerInLoop]
  split <;> exact insert_timers q timer

theorem addTimerInLoop_activeTimers (h : q.activeTimers timer.sequence = none) :
    (q.addTimerInLoop now timer).activeTimers =
      Function.update q.activeTimers timer.sequence (some timer) := by
  simp only [addTimerInLoop]
  split <;> exact insert_activeTimers h

theorem entriesOf_emplace_self (entry : Entry) (h : q.entriesOf entry.second = []) {q' : TimerQueue}
    (hq' : q'.timers = q.timers.emplace entry) : q'.entriesOf entry.second = [entry] := by
  rw [entriesOf,hq']
  exact PriorityQueue.filter_emplace_of_pos (by simp) h

theorem entriesOf_emplace_of_ne (entry : Entry) (h : entry.second ≠ timerId) {q' : TimerQueue}
    (hq' : q'.timers = q.timers.emplace entry) : q'.entriesOf timerId = q.entriesOf timerId := by
  rw [entriesOf,hq']
  exact PriorityQueue.filter_emplace_of_neg (by simpa using h)

theorem Tracks.mono {cancelled' : ℕ → Prop} (hq : q.Tracks pending cancelled)
    (h : ∀ timerId, cancelled timerId → cancelled' timerId) : q.Tracks pending cancelled' :=
  ⟨hq.keyed,hq.entries,fun entry he hnone => h _ (hq.stale entry he hnone)⟩

/-- A new entry for a timer that is active from now on and has no other entry. -/
theorem Tracks.emplace (hq : q.Tracks pending cancelled) (timer : Timer) {pending' : List ℕ}
    (hpending : ∀ id, id ≠ timer.sequence → (id ∈ pending' ↔ id ∈ pending)) (hnot : timer.sequence ∉ pending')
    (hentries : q.entriesOf timer.sequence = []) {q' : TimerQueue}
    (htimers : q'.timers = q.timers.emplace ⟨timer.expiration,timer.sequence⟩)
    (hactive : q'.activeTimers = Function.update q.activeTimers timer.sequence (some timer)) :
    q'.Tracks pending' cancelled := by
  refine ⟨fun id t ht => ?_,fun id t ht => ?_,fun entry he hnone => ?_⟩
  · rw [hactive] at ht
    by_cases hid : id = timer.sequence
    · subst hid
      rw [Function.update_self] at ht
      cases ht
      rfl
    · rw [Function.update_of_ne hid] at ht
      exact hq.keyed id t ht
  · rw [hactive] at ht
    by_cases hid : id = timer.sequence
    · subst hid
      rw [Function.update_self] at ht
      cases ht
      rw [if_neg hnot]
      exact entriesOf_emplace_self ⟨timer.expiration,timer.sequence⟩ hentries htimers
    · rw [Function.update_of_ne hid] at ht
      rw [entriesOf_emplace_of_ne _ (Ne.symm hid) htimers,hq.entries id t ht]
      simp only [hpending id hid]
  · rw [hactive] at hnone
    rw [htimers,PriorityQueue.mem_emplace] at he
    rcases he with rfl | he
    · simp at hnone
    · by_cases hid : entry.second = timer.sequence
      · rw [hid,Function.update_self] at hnone
        cases hnone
      · rw [Function.update_of_ne hid] at hnone
        exact hq.stale entry he hnone

theorem Tracks.addTimerInLoop (hq : q.Tracks pending cancelled) (hnew : q.Unused pending timer.sequence) :
    (q.addTimerInLoop now timer).Tracks pending cancelled :=
  hq.emplace timer (fun _ _ => Iff.rfl) hnew.pending hnew.entries (addTimerInLoop_timers q now timer)
    (addTimerInLoop_activeTimers hnew.active)

theorem Tracks.eraseActive (hq : q.Tracks pending cancelled) {pending' : List ℕ} {cancelled' : ℕ → Prop}
    (hpending : ∀ id, id ≠ timerId → (id ∈ pending' ↔ id ∈ pending))
    (hcancelled : ∀ id, cancelled id → cancelled' id)
    (hself : q.entriesOf timerId ≠ [] → cancelled' timerId) :
    (q.eraseActive timerId).Tracks pending' cancelled' := by
  have hne : ∀ id t, Function.update q.activeTimers timerId none id = some t →
      id ≠ timerId ∧ q.activeTimers id = some t := by
    intro id t ht
    by_cases hid : id = timerId
    · rw [hid,Function.update_self] at ht
      cases ht
    · rw [Function.update_of_ne hid] at ht
      exact ⟨hid,ht⟩
  refine ⟨fun id t ht => hq.keyed id t (hne id t ht).2,fun id t ht => ?_,fun entry he hnone => ?_⟩
  · obtain ⟨hid,ht⟩ := hne id t ht
    show q.entriesOf id = _
    rw [hq.entries id t ht]
    simp only [hpending id hid]
  · by_cases hid : entry.second = timerId
    · rw [hid]
      refine hself fun hnil => ?_
      exact entriesOf_eq_nil.mp hnil entry he hid
    · have hnone' : q.activeTimers entry.second = none := by
        simpa [TimerQueue.eraseActive,Function.update_of_ne hid] using hnone
      exact hcancelled _ (hq.stale entry he hnone')

theorem Tracks.cancelInLoop (hq : q.Tracks pending cancelled) {cancelled' : ℕ → Prop}
    (hcancelled : ∀ id, cancelled id → cancelled' id) (hself : cancelled' timerId) :
    (q.cancelInLoop timerId).Tracks pending cancelled' :=
  hq.eraseActive (fun _ _ => Iff.rfl) hcancelled fun _ => hself

theorem Tracks.restartOrErase (hq : q.Tracks (timerId::pending) cancelled)
    (htimer : q.activeTimers timerId = some timer) (hnot : timerId ∉ pending) :
    (q.restartOrErase now timer).Tracks pending cancelled := by
  have hkey : timer.sequence = timerId := hq.keyed timerId timer htimer
  have hentries : q.entriesOf timerId = [] := by
    rw [hq.entries timerId timer htimer,if_pos (.head _)]
  have hpending : ∀ id, id ≠ timerId → (id ∈ pending ↔ id ∈ timerId::pending) := by
    intro id hid
    simp [hid]
  subst hkey
  rw [TimerQueue.restartOrErase]
  split
  · exact hq.emplace (timer.restart now) hpending hnot hentries rfl rfl
  · exact hq.eraseActive hpending (fun _ h => h) fun hne => absurd hentries hne

theorem restartOrErase_of_ne (h : timerId ≠ timer.sequence) :
    (q.restartOrErase now timer).activeTimers timerId = q.activeTimers timerId := by
  rw [TimerQueue.restartOrErase]
  split
  · exact Function.update_of_ne h _ _
  · exact Function.update_of_ne h _ _

@[simp] theorem readTimerfd_activeTimers (q : TimerQueue) (now : ℤ) :
    (q.readTimerfd now).activeTimers = q.activeTimers := rfl

theorem mem_getExpired : timerId ∈ (q.getExpired now).2 ↔
    (∃ entry ∈ (q.timers.popWhile fun entry => decide (entry.first ≤ now)).1, entry.second = timerId) ∧
      (q.activeTimers timerId).isSome = true := by
  simp [getExpired]

theorem entriesOf_getExpired (q : TimerQueue) (now : ℤ) (timerId : ℕ) :
    ((q.timers.popWhile fun entry => decide (entry.first ≤ now)).1.filter
      fun entry => decide (entry.second = timerId))++(q.getExpired now).1.entriesOf timerId =
      q.entriesOf timerId := by
  rw [entriesOf,getExpired,← List.filter_append,PriorityQueue.popWhile_append]
  rfl

theorem Tracks.getExpired (hq : q.Tracks [] cancelled) :
    (q.getExpired now).1.Tracks (q.getExpired now).2 cancelled := by
  refine ⟨hq.keyed,fun id t ht => ?_,fun entry he => hq.stale entry (PriorityQueue.mem_of_mem_popWhile he)⟩
  have hactive : q.activeTimers id = some t := ht
  have hall := entriesOf_getExpired q now id
  rw [hq.entries id t hactive,if_neg List.not_mem_nil] at hall
  by_cases hid : id ∈ (q.getExpired now).2
  · rw [if_pos hid]
    obtain ⟨⟨entry,hentry,hsecond⟩,-⟩ := mem_getExpired.mp hid
    have hpopped : entry ∈ (q.timers.popWhile fun entry => decide (entry.first ≤ now)).1.filter
        fun entry => decide (entry.second = id) := List.mem_filter.mpr ⟨hentry,by simpa using hsecond⟩
    obtain ⟨before,behind,hsplit⟩ := List.append_of_mem hpopped
    rw [hsplit] at hall
    have hlen := congrArg List.length hall
    simp only [List.length_append,List.length_cons,List.length_nil] at hlen
    exact List.eq_nil_of_length_eq_zero (by omega)
  · rw [if_neg hid]
    have hnil : (q.timers.popWhile fun entry => decide (entry.first ≤ now)).1.filter
        (fun entry => decide (entry.second = id)) = [] := by
      rw [List.filter_eq_nil_iff]
      intro entry hentry hsecond
      exact hid (mem_getExpired.mpr ⟨⟨entry,hentry,by simpa using hsecond⟩,by simp [hactive]⟩)
    rwa [hnil,List.nil_append] at hall

theorem Tracks.getExpired_nodup (hq : q.Tracks [] cancelled) : (q.getExpired now).2.Nodup := by
  rw [List.nodup_iff_count_le_one]
  intro id
  cases ht : q.activeTimers id with
  | none =>
    have hnot : id ∉ (q.getExpired now).2 := fun h => by simpa [ht] using (mem_getExpired.mp h).2
    rw [List.count_eq_zero_of_not_mem hnot]
    exact Nat.zero_le 1
  | some t =>
    have hall := congrArg List.length (entriesOf_getExpired q now id)
    rw [hq.entries id t ht,if_neg List.not_mem_nil,List.length_append] at hall
    have hcount : (q.getExpired now).2.count id ≤ ((q.timers.popWhile
        fun entry => decide (entry.first ≤ now)).1.map (·.second)).count id :=
      List.Sublist.count_le id List.filter_sublist
    have hmap : ((q.timers.popWhile fun entry => decide (entry.first ≤ now)).1.map (·.second)).count id =
        ((q.timers.popWhile fun entry => decide (entry.first ≤ now)).1.filter
          fun entry => decide (entry.second = id)).length := by
      rw [List.count_eq_countP,List.countP_map,List.countP_eq_length_filter]
      exact congrArg List.length (List.filter_congr fun entry _ => beq_eq_decide _ _)
    rw [hmap] at hcount
    simp only [List.length_cons,List.length_nil] at hall
    omega

theorem armNext_timers (q : TimerQueue) (now : ℤ) : (q.armNext now).timers =
    (q.timers.popWhile fun entry => (q.activeTimers entry.second).isNone).2 := by
  rw [armNext]
  split <;> split <;> rfl

@[simp] theorem armNext_activeTimers (q : TimerQueue) (now : ℤ) :
    (q.armNext now).activeTimers = q.activeTimers := by
  rw [armNext]
  split <;> split <;> rfl

theorem Tracks.armNext (hq : q.Tracks [] cancelled) : (q.armNext now).Tracks [] cancelled := by
  refine ⟨by rw [armNext_activeTimers]; exact hq.keyed,fun id t ht => ?_,fun entry he hnone => ?_⟩
  · rw [armNext_activeTimers] at ht
    rw [← hq.entries id t ht,entriesOf,armNext_timers]
    refine PriorityQueue.filter_popWhile fun entry hentry => ?_
    rw [decide_eq_false_iff_not]
    rintro rfl
    simp [ht] at hentry
  · rw [armNext_timers] at he
    rw [armNext_activeTimers] at hnone
    exact hq.stale entry (PriorityQueue.mem_of_mem_popWhile he) hnone

theorem Unused.addTimerInLoop {id : ℕ} (h : q.Unused pending id) (hne : id ≠ timer.sequence)
    (hnew : q.activeTimers timer.sequence = none) : (q.addTimerInLoop now timer).Unused pending id where
  active := by rw [addTimerInLoop_activeTimers hnew,Function.update_of_ne hne,h.active]
  entries := (entriesOf_emplace_of_ne _ (Ne.symm hne) (addTimerInLoop_timers q now timer)).trans h.entries
  pending := h.pending

theorem Unused.eraseActive {id : ℕ} (h : q.Unused pending id) : (q.eraseActive timerId).Unused pending id where
  active := by
    show Function.update q.activeTimers timerId none id = none
    by_cases hid : id = timerId
    · rw [hid,Function.update_self]
    · rw [Function.update_of_ne hid,h.active]
  entries := h.entries
  pending := h.pending

theorem Unused.tail {id : ℕ} (h : q.Unused (timerId::pending) id) : q.Unused pending id :=
  ⟨h.active,h.entries,fun hid => h.pending (.tail _ hid)⟩

theorem Unused.restartOrErase {id : ℕ} (h : q.Unused pending id)
    (htimer : q.activeTimers timer.sequence = some timer) :
    (q.restartOrErase now timer).Unused pending id := by
  have hne : id ≠ timer.sequence := by
    rintro rfl
    rw [h.active] at htimer
    cases htimer
  rw [TimerQueue.restartOrErase]
  split
  · refine ⟨?_,?_,h.pending⟩
    · show Function.update q.activeTimers timer.sequence _ id = none
      rw [Function.update_of_ne hne,h.active]
    · rw [← h.entries]
      exact entriesOf_emplace_of_ne ⟨(timer.restart now).expiration,timer.sequence⟩ (Ne.symm hne) rfl
  · exact h.eraseActive

theorem Unused.getExpired {id : ℕ} (h : q.Unused [] id) :
    (q.getExpired now).1.Unused (q.getExpired now).2 id := by
  have hall := entriesOf_getExpired q now id
  rw [h.entries] at hall
  refine ⟨h.active,(List.append_eq_nil_iff.mp hall).2,fun hid => ?_⟩
  simpa [h.active] using (mem_getExpired.mp hid).2

theorem Unused.armNext {id : ℕ} (h : q.Unused [] id) : (q.armNext now).Unused [] id := by
  refine ⟨by rw [armNext_activeTimers,h.active],?_,h.pending⟩
  rw [entriesOf_eq_nil,armNext_timers]
  exact fun entry he => entriesOf_eq_nil.mp h.entries entry (PriorityQueue.mem_of_mem_popWhile he)

end TimerQueue
namespace TimerLoop

/-- What a step of `handleRead` does to its batch. -/
theorem advance_cases {w w' : TimerLoop} (h : w.advance = some w') :
    (∃ now expired timerId todo, w.phase = .running now expired (timerId::todo) ∧
        ((w.queue.activeTimers timerId ≠ none ∧
          w' = { w with
            phase := .running now expired todo
            trace := w.trace++[.touch timerId true]++[.run timerId] }) ∨
        (w.queue.activeTimers timerId = none ∧
          w' = { w with phase := .undefined, trace := w.trace++[.touch timerId false]++[.run timerId] }))) ∨
      (∃ now expired, w.phase = .running now expired [] ∧ w' = { w with phase := .resetting now expired }) ∨
      (∃ now timerId todo, w.phase = .resetting now (timerId::todo) ∧
        ((∃ timer, w.queue.activeTimers timerId = some timer ∧
          w' = { w with
            queue := w.queue.restartOrErase now timer
            phase := .resetting now todo
            trace := w.trace++[.touch timerId true] }) ∨
        (w.queue.activeTimers timerId = none ∧
          w' = { w with phase := .undefined, trace := w.trace++[.touch timerId false] }))) ∨
      (∃ now, w.phase = .resetting now [] ∧
        w' = { w with queue := w.queue.armNext w.clock.now, phase := .idle }) := by
  rw [TimerLoop.advance] at h
  cases hphase : w.phase with
  | idle => simp [hphase] at h
  | undefined => simp [hphase] at h
  | running now expired todo =>
    cases todo with
    | nil =>
      simp only [hphase,Option.some.injEq] at h
      exact .inr (.inl ⟨now,expired,rfl,h.symm⟩)
    | cons timerId todo =>
      refine .inl ⟨now,expired,timerId,todo,rfl,?_⟩
      cases htimer : w.queue.activeTimers timerId with
      | none =>
        simp only [hphase,htimer,Option.some.injEq] at h
        exact .inr ⟨rfl,by rw [← h,List.append_assoc]; rfl⟩
      | some timer =>
        simp only [hphase,htimer,Option.some.injEq] at h
        exact .inl ⟨by simp,by rw [← h,List.append_assoc]; rfl⟩
  | resetting now todo =>
    cases todo with
    | nil =>
      simp only [hphase,Option.some.injEq] at h
      exact .inr (.inr (.inr ⟨now,rfl,h.symm⟩))
    | cons timerId todo =>
      refine .inr (.inr (.inl ⟨now,timerId,todo,rfl,?_⟩))
      cases htimer : w.queue.activeTimers timerId with
      | none =>
        simp only [hphase,htimer,Option.some.injEq] at h
        exact .inr ⟨rfl,h.symm⟩
      | some timer =>
        simp only [hphase,htimer,Option.some.injEq] at h
        exact .inl ⟨timer,rfl,h.symm⟩

theorem step_addTimerInLoop {w w' : TimerLoop} {timerId : ℕ} (h : step w (.addTimerInLoop timerId) = some w') :
    w.phase.calling = true ∧ ∃ timer ∈ w.created, w' =
      { w with
        queue := w.queue.addTimerInLoop w.clock.now timer
        created := w.created.erase timer } := by
  simp only [step] at h
  split at h
  · obtain ⟨timer,hfind,rfl⟩ := Option.map_eq_some_iff.mp h
    exact ⟨‹_›,timer,List.mem_of_find?_eq_some hfind,rfl⟩
  · cases h

theorem step_cancelInLoop {w w' : TimerLoop} {timerId : ℕ} (h : step w (.cancelInLoop timerId) = some w') :
    w.phase.calling = true ∧
      w' = { w with queue := w.queue.cancelInLoop timerId, trace := w.trace++[.cancelInLoop timerId] } := by
  simp only [step] at h
  split at h
  · exact ⟨‹_›,(Option.some.inj h).symm⟩
  · cases h

theorem step_handleRead {w w' : TimerLoop} (h : step w .handleRead = some w') :
    w.phase = .idle ∧ w' =
      { w with
        queue := ((w.queue.readTimerfd w.clock.now).getExpired w.clock.now).1
        phase := .running w.clock.now ((w.queue.readTimerfd w.clock.now).getExpired w.clock.now).2
          ((w.queue.readTimerfd w.clock.now).getExpired w.clock.now).2
        trace := w.trace++[.handleRead] } := by
  simp only [step] at h
  split at h
  · exact ⟨‹_›,(Option.some.inj h).symm⟩
  · cases h

/-- `timers_` and `activeTimers_` agree, and the numbers of the timers still to be added
are new to them. -/
structure Tracked (w : TimerLoop) : Prop where
  tracks : w.queue.Tracks w.batch fun timerId => .cancelInLoop timerId ∈ w.trace
  unused : ∀ timerId, (w.numCreated ≤ timerId ∨ ∃ timer ∈ w.created, timer.sequence = timerId) →
    w.queue.Unused w.batch timerId
  below : ∀ timer ∈ w.created, timer.sequence < w.numCreated
  distinct : (w.created.map (·.sequence)).Nodup
  nodup : w.batch.Nodup

theorem initial_tracked (clock : Clock) : (initial clock).Tracked where
  tracks := ⟨fun _ _ h => by (cases h),fun _ _ h => by (cases h),fun _ h => by (cases h)⟩
  unused := fun _ _ => ⟨rfl,rfl,List.not_mem_nil⟩
  below := fun _ h => by cases h
  distinct := .nil
  nodup := .nil

theorem Tracked.advance {w w' : TimerLoop} (hw : w.Tracked) (h : w.advance = some w') :
    w'.phase = .undefined ∨ w'.Tracked := by
  have htracks := hw.tracks
  have hunused := hw.unused
  have hnodup := hw.nodup
  rcases advance_cases h with ⟨now,expired,id,todo,hphase,⟨-,rfl⟩ | ⟨-,rfl⟩⟩ | ⟨now,expired,hphase,rfl⟩ |
    ⟨now,id,todo,hphase,⟨timer,htimer,rfl⟩ | ⟨-,rfl⟩⟩ | ⟨now,hphase,rfl⟩
  · have hbatch : w.batch = expired := by rw [batch,hphase]
    rw [hbatch] at htracks hunused hnodup
    exact .inr ⟨htracks.mono fun id' hid' => by simp [hid'],hunused,hw.below,hw.distinct,hnodup⟩
  · exact .inl rfl
  · have hbatch : w.batch = expired := by rw [batch,hphase]
    rw [hbatch] at htracks hunused hnodup
    exact .inr ⟨htracks,hunused,hw.below,hw.distinct,hnodup⟩
  · have hbatch : w.batch = id::todo := by rw [batch,hphase]
    have hkey : timer.sequence = id := hw.tracks.keyed id timer htimer
    rw [hbatch] at htracks hunused hnodup
    obtain ⟨hnot,hnodup⟩ := List.nodup_cons.mp hnodup
    refine .inr ⟨?_,fun id' hid' => ?_,hw.below,hw.distinct,hnodup⟩
    · exact (htracks.restartOrErase htimer hnot).mono fun id' hid' => List.mem_append_left _ hid'
    · exact (hunused id' hid').tail.restartOrErase (by rw [hkey]; exact htimer)
  · exact .inl rfl
  · have hbatch : w.batch = [] := by rw [batch,hphase]
    rw [hbatch] at htracks hunused
    exact .inr ⟨htracks.armNext,fun id' hid' => (hunused id' hid').armNext,hw.below,hw.distinct,.nil⟩

theorem Tracked.create {w : TimerLoop} (hw : w.Tracked) (when : ℤ) (interval : Interval) :
    Tracked { w with
      numCreated := w.numCreated+1
      created := w.created++[⟨when,interval,w.numCreated⟩] } := by
  refine ⟨hw.tracks,fun id hid => ?_,fun timer ht => ?_,?_,hw.nodup⟩
  · rcases hid with hid | ⟨timer,ht,rfl⟩
    · exact hw.unused id (.inl (by simp only at hid; omega))
    · rcases List.mem_append.mp ht with ht | ht
      · exact hw.unused _ (.inr ⟨timer,ht,rfl⟩)
      · rw [List.mem_singleton.mp ht]
        exact hw.unused _ (.inl le_rfl)
  · rcases List.mem_append.mp ht with ht | ht
    · exact Nat.lt_succ_of_lt (hw.below timer ht)
    · rw [List.mem_singleton.mp ht]
      exact Nat.lt_succ_self _
  · rw [List.map_append,List.nodup_append]
    refine ⟨hw.distinct,by simp,fun id hid id' hid' => ?_⟩
    obtain ⟨timer,ht,rfl⟩ := List.mem_map.mp hid
    rw [List.mem_singleton.mp hid']
    exact Nat.ne_of_lt (hw.below timer ht)

theorem Tracked.addTimerInLoop {w : TimerLoop} (hw : w.Tracked) {timer : Timer} (ht : timer ∈ w.created) :
    Tracked { w with
      queue := w.queue.addTimerInLoop w.clock.now timer
      created := w.created.erase timer } := by
  have hnew := hw.unused timer.sequence (.inr ⟨timer,ht,rfl⟩)
  have hperm := (List.perm_cons_erase ht).map (·.sequence)
  have hnodup := hperm.nodup_iff.mp hw.distinct
  rw [List.map_cons,List.nodup_cons] at hnodup
  refine ⟨hw.tracks.addTimerInLoop hnew,fun id hid => ?_,fun t ht' => ?_,hnodup.2,hw.nodup⟩
  · have hne : id ≠ timer.sequence := by
      rcases hid with hid | ⟨t,ht',rfl⟩
      · exact Nat.ne_of_gt (Nat.lt_of_lt_of_le (hw.below timer ht) hid)
      · intro heq
        exact hnodup.1 (heq ▸ List.mem_map_of_mem ht')
    refine (hw.unused id ?_).addTimerInLoop hne hnew.active
    exact hid.imp_right fun ⟨t,ht',hid⟩ => ⟨t,List.mem_of_mem_erase ht',hid⟩
  · exact hw.below t (List.mem_of_mem_erase ht')

theorem step_tracked {w w' : TimerLoop} {l : Label} (hw : w.Tracked) (h : step w l = some w') :
    w'.phase = .undefined ∨ w'.Tracked := by
  cases l with
  | tick d =>
    cases h
    exact .inr ⟨hw.tracks,hw.unused,hw.below,hw.distinct,hw.nodup⟩
  | create when interval =>
    cases h
    exact .inr (hw.create when interval)
  | createElsewhere =>
    cases h
    refine .inr ⟨hw.tracks,fun id hid => hw.unused id ?_,fun timer ht => Nat.lt_succ_of_lt (hw.below timer ht),
      hw.distinct,hw.nodup⟩
    exact hid.imp_left Nat.le_of_succ_le
  | addTimerInLoop timerId =>
    obtain ⟨-,timer,hmem,rfl⟩ := step_addTimerInLoop h
    exact .inr (hw.addTimerInLoop hmem)
  | cancelInLoop timerId =>
    obtain ⟨-,rfl⟩ := step_cancelInLoop h
    exact .inr ⟨hw.tracks.cancelInLoop (fun id hid => List.mem_append_left _ hid) (by simp),
      fun id hid => (hw.unused id hid).eraseActive,hw.below,hw.distinct,hw.nodup⟩
  | handleRead =>
    obtain ⟨hidle,rfl⟩ := step_handleRead h
    have hbatch : w.batch = [] := by rw [batch,hidle]
    have htracks := hw.tracks
    have hunused := hw.unused
    rw [hbatch] at htracks hunused
    have hread : (w.queue.readTimerfd w.clock.now).Tracks [] fun id => .cancelInLoop id ∈ w.trace :=
      ⟨htracks.keyed,htracks.entries,htracks.stale⟩
    refine .inr ⟨hread.getExpired.mono fun id hid => List.mem_append_left _ hid,fun id hid => ?_,hw.below,
      hw.distinct,hread.getExpired_nodup⟩
    have hid' : (w.queue.readTimerfd w.clock.now).Unused [] id :=
      ⟨(hunused id hid).active,(hunused id hid).entries,(hunused id hid).pending⟩
    exact hid'.getExpired
  | advance => exact hw.advance h

/-- Behind the dereference of a destroyed timer the loop thread does nothing that is defined. -/
theorem step_undefined {w w' : TimerLoop} {l : Label} (hw : w.phase = .undefined) (h : step w l = some w') :
    w'.phase = .undefined ∧ w'.trace = w.trace := by
  cases l with
  | tick d => cases h; exact ⟨hw,rfl⟩
  | create when interval => cases h; exact ⟨hw,rfl⟩
  | createElsewhere => cases h; exact ⟨hw,rfl⟩
  | addTimerInLoop timerId => simp [step,hw,Phase.calling] at h
  | cancelInLoop timerId => simp [step,hw,Phase.calling] at h
  | handleRead => simp [step,hw] at h
  | advance => simp [step,TimerLoop.advance,hw] at h

end TimerLoop
end GgLib
