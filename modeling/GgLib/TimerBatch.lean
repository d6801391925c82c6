import GgLib.TimerOwnership

/-! What `handleRead` does from its reading of the clock to its return: it runs the timers that
are due, and of the others only what the callbacks add and cancel changes. -/
namespace GgLib

open LabelledSystem

namespace TimerQueue

variable {q : TimerQueue} {cancelled : ℕ → Prop} {now : ℤ}

/-- The active timers up to `now`, in the order of their entries. -/
structure Due (q : TimerQueue) (now : ℤ) (due : List ℕ) : Prop where
  mem : ∀ timerId, timerId ∈ due ↔ ∃ timer, q.activeTimers timerId = some timer ∧ timer.expiration ≤ now
  order : due.Pairwise fun id id' => ∀ timer timer', q.activeTimers id = some timer → q.activeTimers id' = some timer' →
    (⟨timer.expiration,id⟩ : Entry) < ⟨timer'.expiration,id'⟩

theorem Tracks.entry_eq (hq : q.Tracks [] cancelled) {entry : Entry} (he : entry ∈ q.timers) {timer : Timer}
    (ht : q.activeTimers entry.second = some timer) : entry = ⟨timer.expiration,entry.second⟩ := by
  have hentries := hq.entries _ timer ht
  rw [if_neg List.not_mem_nil] at hentries
  have hmem : entry ∈ q.entriesOf entry.second := List.mem_filter.mpr ⟨he,by simp⟩
  rw [hentries] at hmem
  exact List.mem_singleton.mp hmem

theorem Tracks.entry_mem (hq : q.Tracks [] cancelled) {timerId : ℕ} {timer : Timer}
    (ht : q.activeTimers timerId = some timer) : (⟨timer.expiration,timerId⟩ : Entry) ∈ q.timers := by
  have hentries := hq.entries _ timer ht
  rw [if_neg List.not_mem_nil] at hentries
  have hmem : (⟨timer.expiration,timerId⟩ : Entry) ∈ q.entriesOf timerId := by
    rw [hentries]
    exact .head _
  exact (List.mem_filter.mp hmem).1

theorem mem_popped {entry : Entry} (h : entry ∈ (q.timers.popWhile fun entry => decide (entry.first ≤ now)).1) :
    entry ∈ q.timers ∧ entry.first ≤ now := by
  have hpopped := PriorityQueue.of_mem_popped h
  refine ⟨?_,by simpa using hpopped⟩
  rw [← PriorityQueue.mem_elements,← PriorityQueue.popWhile_append q.timers]
  exact List.mem_append_left _ h

theorem Tracks.getExpired_due (hq : q.Tracks [] cancelled) : q.Due now (q.getExpired now).2 := by
  constructor
  · intro id
    rw [mem_getExpired]
    constructor
    · rintro ⟨⟨entry,hentry,rfl⟩,hactive⟩
      obtain ⟨timer,ht⟩ := Option.isSome_iff_exists.mp hactive
      obtain ⟨hmem,hle⟩ := mem_popped hentry
      have heq := hq.entry_eq hmem ht
      rw [heq] at hle
      exact ⟨timer,ht,hle⟩
    · rintro ⟨timer,ht,hle⟩
      refine ⟨⟨⟨timer.expiration,id⟩,?_,rfl⟩,by rw [ht]; rfl⟩
      have hmem := hq.entry_mem ht
      rw [← PriorityQueue.mem_elements,
        ← PriorityQueue.popWhile_append q.timers (fun entry => decide (entry.first ≤ now)),List.mem_append] at hmem
      refine hmem.resolve_right fun hleft => ?_
      have hnot := PriorityQueue.not_of_mem_popWhile (p:=fun entry : Entry => decide (entry.first ≤ now))
        (fun a b hab hb => decide_eq_true (le_trans (Entry.first_le hab) (of_decide_eq_true hb))) hleft
      exact absurd hle (of_decide_eq_false hnot)
  · have hsorted : (q.timers.popWhile fun entry => decide (entry.first ≤ now)).1.Pairwise (· ≤ ·) :=
      q.timers.sorted.sublist (List.takeWhile_sublist _)
    have hpopped : ((q.timers.popWhile fun entry => decide (entry.first ≤ now)).1.map (·.second)).Pairwise fun id id' =>
        ∀ timer timer', q.activeTimers id = some timer → q.activeTimers id' = some timer' →
          (⟨timer.expiration,id⟩ : Entry) ≤ ⟨timer'.expiration,id'⟩ := by
      rw [List.pairwise_map]
      refine hsorted.imp_of_mem fun {entry entry'} he he' hle timer timer' ht ht' => ?_
      rw [← hq.entry_eq (mem_popped he).1 ht,← hq.entry_eq (mem_popped he').1 ht']
      exact hle
    refine ((hpopped.filter _).and hq.getExpired_nodup).imp fun ⟨hle,hne⟩ timer timer' ht ht' => ?_
    refine lt_of_le_of_ne (hle timer timer' ht ht') fun heq => hne ?_
    exact congrArg Entry.second heq

end TimerQueue

namespace TimerLoop

/-- A step of the loop thread, or the clock is set, back too. -/
inductive Move
  | queue (label : Label)
  | clock (clock : Clock)

def stepAt (w : TimerLoop) : Move → Option TimerLoop
  | .queue label => step w label
  | .clock clock => some { w with clock }

def Respects (w : TimerLoop) (move : Move) : Prop :=
  match move with
  | .queue label => ¬ w.CancelsBatch label
  | .clock _ => True

theorem respects_handleRead (w : TimerLoop) : w.Respects (.queue .handleRead) := id

theorem respects_advance (w : TimerLoop) : w.Respects (.queue .advance) := id

instance (w : TimerLoop) (move : Move) : Decidable (w.Respects move) :=
  match move with
  | .queue label => inferInstanceAs (Decidable (¬ w.CancelsBatch label))
  | .clock _ => isTrue trivial

/-- The invariants of the runs that respect their batches. -/
structure Live (w : TimerLoop) : Prop where
  phase : w.phase ≠ .undefined
  tracked : w.Tracked
  ordered : w.Ordered
  owned : w.Owned

theorem initial_live (clock : Clock) : (initial clock).Live :=
  ⟨by simp [initial],initial_tracked clock,initial_ordered clock,sound_nil,fun _ hid => by cases hid⟩

theorem stepAt_live {w w' : TimerLoop} {move : Move} (h : w.Live) (hrespects : w.Respects move)
    (hstep : stepAt w move = some w') : w'.Live := by
  cases move with
  | queue label =>
    have howned := (step_owned h.tracked h.ordered hstep).mpr ⟨h.owned,hrespects⟩
    rcases step_known (.inr ⟨h.phase,h.tracked,h.ordered⟩) hstep with ⟨-,hnot⟩ | ⟨hphase,ht,ho⟩
    · exact absurd howned.1 hnot
    · exact ⟨hphase,ht,ho,howned⟩
  | clock clock =>
    cases hstep
    obtain ⟨hphase,ht,ho,howned⟩ := h
    exact ⟨hphase,⟨ht.tracks,ht.unused,ht.below,ht.distinct,ht.nodup⟩,⟨ho.todo,ho.cancelled⟩,howned⟩

theorem live_of_along {w u : TimerLoop} {moves : List Move} (h : Run stepAt w moves u) (hw : w.Live)
    (hrespects : Along stepAt Respects w moves) : u.Live :=
  h.invariant_along (fun _ _ _ hs hc hstep => stepAt_live hs hc hstep) hrespects hw

/-- The active timers and the timers still to be added, as adds and cancels alone change them. -/
structure Calls where
  active : ℕ → Option Timer
  created : List Timer
  numCreated : ℕ

def calls (w : TimerLoop) : Calls := ⟨w.queue.activeTimers,w.created,w.numCreated⟩

def Calls.step (c : Calls) (move : Move) : Calls :=
  match move with
  | .queue (.create when interval) =>
    { c with numCreated := c.numCreated+1, created := c.created++[⟨when,interval,c.numCreated⟩] }
  | .queue .createElsewhere => { c with numCreated := c.numCreated+1 }
  | .queue (.addTimerInLoop timerId) =>
    match c.created.find? (·.sequence = timerId) with
    | some timer =>
      { c with active := Function.update c.active timer.sequence (some timer), created := c.created.erase timer }
    | none => c
  | .queue (.cancelInLoop timerId) => { c with active := Function.update c.active timerId none }
  | .queue (.tick _) | .queue .handleRead | .queue .advance | .clock _ => c

def Calls.run (c : Calls) (moves : List Move) : Calls := moves.foldl Calls.step c

def Event.callback (e : Event) : Option ℕ :=
  match e with
  | .run timerId => some timerId
  | .handleRead | .cancelInLoop _ | .touch _ _ => none

def Ran (trace : List Event) (w : TimerLoop) (ran : List ℕ) : Prop :=
  ∃ events, w.trace = trace++events ∧ events.filterMap Event.callback = ran

def afterReset (now : ℤ) (active : Option Timer) : Option Timer :=
  active.bind fun timer => if timer.repeats then some (timer.restart now) else none

/-- Where `handleRead` stands: its loop has run the first timers of the batch, or `reset` is done
with the first. -/
inductive Progress (w : TimerLoop) (now : ℤ) (due : List ℕ) (u : TimerLoop) : Prop
  | running (ran todo : List ℕ) : due = ran++todo → u.phase = .running now due todo → Ran w.trace u ran →
      (∀ id ∈ due, u.queue.activeTimers id = w.queue.activeTimers id) → Progress w now due u
  | resetting (done todo : List ℕ) : due = done++todo → u.phase = .resetting now todo → Ran w.trace u due →
      (∀ id ∈ todo, u.queue.activeTimers id = w.queue.activeTimers id) →
      (∀ id ∈ done, u.queue.activeTimers id = afterReset now (w.queue.activeTimers id)) → Progress w now due u

/-- Within the batch, the timers that are not due are as the callbacks leave them. -/
structure Within (w : TimerLoop) (now : ℤ) (due : List ℕ) (c : Calls) (u : TimerLoop) : Prop where
  created : u.created = c.created
  numCreated : u.numCreated = c.numCreated
  others : ∀ id ∉ due, u.queue.activeTimers id = c.active id
  progress : Progress w now due u

variable {w u u' : TimerLoop} {now : ℤ} {due : List ℕ} {c : Calls}

theorem Progress.call (h : Progress w now due u) (hphase : u'.phase = u.phase)
    (htrace : ∃ events, u'.trace = u.trace++events ∧ events.filterMap Event.callback = [])
    (hbatch : ∀ id ∈ u.batch, u'.queue.activeTimers id = u.queue.activeTimers id)
    (hdone : u'.phase.calling = true ∨ u'.queue = u.queue) : Progress w now due u' := by
  obtain ⟨events,htrace,hnone⟩ := htrace
  have hran : ∀ ran, Ran w.trace u ran → Ran w.trace u' ran := by
    rintro ran ⟨before,hbefore,hran⟩
    exact ⟨before++events,by rw [htrace,hbefore,List.append_assoc],
      by rw [List.filterMap_append,hran,hnone,List.append_nil]⟩
  cases h with
  | running ran todo hdue hrunning hr hactive =>
    refine .running ran todo hdue (hphase.trans hrunning) (hran _ hr) fun id hid => ?_
    rw [hbatch id (by rw [batch,hrunning]; exact hid)]
    exact hactive id hid
  | resetting done todo hdue hresetting hr htodo hdone' =>
    rw [hphase,hresetting] at hdone
    have hqueue : u'.queue = u.queue := hdone.resolve_left (by simp [Phase.calling])
    refine .resetting done todo hdue (hphase.trans hresetting) (hran _ hr) ?_ ?_
    · rw [hqueue]
      exact htodo
    · rw [hqueue]
      exact hdone'

theorem restartOrErase_self {q : TimerQueue} {timer : Timer} (ht : q.activeTimers timer.sequence = some timer) :
    (q.restartOrErase now timer).activeTimers timer.sequence = afterReset now (some timer) := by
  rw [TimerQueue.restartOrErase,afterReset,Option.bind_some]
  cases hrepeats : timer.repeats with
  | true =>
    simp only [ht,Option.isSome_some,Bool.and_self,if_true]
    exact Function.update_self _ _ _
  | false =>
    simp only [Bool.false_and,Bool.false_eq_true,if_false]
    exact Function.update_self _ _ _

/-- `handleRead` goes on in its batch, until it returns. -/
theorem Within.advance (hlive : u.Live) (h : Within w now due c u) (hadvance : u.advance = some u') :
    u'.phase = .idle ∨ Within w now due c u' := by
  obtain ⟨hcreated,hnum,hothers,hprogress⟩ := h
  have hbatch := hlive.owned.2
  cases hprogress with
  | running ran todo hdue hphase hran hactive =>
    rw [batch,hphase] at hbatch
    rcases advance_cases hadvance with ⟨now',expired,id,todo',hphase',hcase⟩ | ⟨now',expired,hphase',rfl⟩ |
      ⟨now',id,todo',hphase',-⟩ | ⟨now',hphase',-⟩
    all_goals
      rw [hphase] at hphase'
      cases hphase'
    · rcases hcase with ⟨-,rfl⟩ | ⟨hnone,-⟩
      · refine .inr ⟨hcreated,hnum,hothers,.running (ran++[id]) todo' (by rw [hdue]; simp) rfl ?_ hactive⟩
        obtain ⟨events,htrace,hran⟩ := hran
        exact ⟨events++[.touch id true,.run id],by simp [htrace],by rw [List.filterMap_append,hran]; rfl⟩
      · exact absurd hnone (hbatch id (by rw [hdue]; simp))
    · rw [List.append_nil] at hdue
      subst hdue
      exact .inr ⟨hcreated,hnum,hothers,.resetting [] due rfl rfl hran hactive
        fun _ hid => absurd hid List.not_mem_nil⟩
  | resetting done todo hdue hphase hran htodo hdone =>
    rw [batch,hphase] at hbatch
    have hnodup := hlive.tracked.nodup
    rw [batch,hphase] at hnodup
    rcases advance_cases hadvance with ⟨now',expired,id,todo',hphase',-⟩ | ⟨now',expired,hphase',-⟩ |
      ⟨now',id,todo',hphase',hcase⟩ | ⟨now',hphase',rfl⟩
    all_goals
      rw [hphase] at hphase'
      cases hphase'
    · rcases hcase with ⟨timer,htimer,rfl⟩ | ⟨hnone,-⟩
      · have hkey : timer.sequence = id := hlive.tracked.tracks.keyed id timer htimer
        subst hkey
        obtain ⟨hnot,-⟩ := List.nodup_cons.mp hnodup
        have hmem : timer.sequence ∈ due := by rw [hdue]; simp
        have hsame : ∀ id ≠ timer.sequence,
            (u.queue.restartOrErase now timer).activeTimers id = u.queue.activeTimers id :=
          fun id hid => TimerQueue.restartOrErase_of_ne hid
        refine .inr ⟨hcreated,hnum,fun id hid => ?_,
          .resetting (done++[timer.sequence]) todo' (by rw [hdue]; simp) rfl ?_ ?_ ?_⟩
        · rw [← hothers id hid]
          exact hsame id fun heq => hid (heq ▸ hmem)
        · obtain ⟨events,htrace,hran⟩ := hran
          exact ⟨events++[.touch timer.sequence true],by simp [htrace],
            by rw [List.filterMap_append,hran,hdue]; simp [Event.callback]⟩
        · intro id hid
          rw [← htodo id (.tail _ hid)]
          exact hsame id fun heq => hnot (heq ▸ hid)
        · intro id hid
          show (u.queue.restartOrErase now timer).activeTimers id = _
          by_cases heq : id = timer.sequence
          · rw [heq,restartOrErase_self htimer,← htodo _ (.head _),htimer]
          · rw [hsame id heq]
            rcases List.mem_append.mp hid with hid | hid
            · exact hdone id hid
            · exact absurd (List.mem_singleton.mp hid) heq
      · exact absurd hnone (hbatch id (.head _))
    · exact .inl rfl

theorem stepAt_within (hlive : u.Live) (h : Within w now due c u) {move : Move} (hrespects : u.Respects move)
    (hone : move ≠ .queue .handleRead) (hstep : stepAt u move = some u') :
    u'.phase = .idle ∨ Within w now due (c.step move) u' := by
  cases move with
  | clock clock =>
    cases hstep
    exact .inr ⟨h.created,h.numCreated,h.others,h.progress.call rfl ⟨[],by simp,rfl⟩ (fun _ _ => rfl) (.inr rfl)⟩
  | queue label =>
    cases label with
    | tick d =>
      cases hstep
      exact .inr ⟨h.created,h.numCreated,h.others,h.progress.call rfl ⟨[],by simp,rfl⟩ (fun _ _ => rfl) (.inr rfl)⟩
    | create when interval =>
      cases hstep
      refine .inr ⟨?_,congrArg Nat.succ h.numCreated,h.others,
        h.progress.call rfl ⟨[],by simp,rfl⟩ (fun _ _ => rfl) (.inr rfl)⟩
      simp only [Calls.step,h.created,h.numCreated]
    | createElsewhere =>
      cases hstep
      exact .inr ⟨h.created,congrArg Nat.succ h.numCreated,h.others,
        h.progress.call rfl ⟨[],by simp,rfl⟩ (fun _ _ => rfl) (.inr rfl)⟩
    | addTimerInLoop timerId =>
      simp only [stepAt,step] at hstep
      split at hstep
      swap
      · cases hstep
      rename_i hcalling
      obtain ⟨timer,hfind,rfl⟩ := Option.map_eq_some_iff.mp hstep
      have hnew := hlive.tracked.unused timer.sequence (.inr ⟨timer,List.mem_of_find?_eq_some hfind,rfl⟩)
      have hactive : (u.queue.addTimerInLoop u.clock.now timer).activeTimers =
          Function.update u.queue.activeTimers timer.sequence (some timer) :=
        TimerQueue.addTimerInLoop_activeTimers hnew.active
      have hcstep : c.step (.queue (.addTimerInLoop timerId)) =
          { c with
            active := Function.update c.active timer.sequence (some timer)
            created := c.created.erase timer } := by
        rw [h.created] at hfind
        simp only [Calls.step,hfind]
      rw [hcstep]
      refine .inr ⟨by rw [← h.created],h.numCreated,fun id hid => ?_,
        h.progress.call rfl ⟨[],by simp,rfl⟩ (fun id hid => ?_) (.inl hcalling)⟩
      · show (u.queue.addTimerInLoop u.clock.now timer).activeTimers id =
          Function.update c.active timer.sequence (some timer) id
        rw [hactive]
        by_cases heq : id = timer.sequence
        · rw [heq,Function.update_self,Function.update_self]
        · rw [Function.update_of_ne heq,Function.update_of_ne heq,h.others id hid]
      · show (u.queue.addTimerInLoop u.clock.now timer).activeTimers id = _
        rw [hactive,Function.update_of_ne]
        rintro rfl
        exact hnew.pending hid
    | cancelInLoop timerId =>
      obtain ⟨hcalling,rfl⟩ := step_cancelInLoop hstep
      refine .inr ⟨h.created,h.numCreated,fun id hid => ?_,
        h.progress.call rfl ⟨[.cancelInLoop timerId],rfl,rfl⟩ (fun id hid => ?_) (.inl hcalling)⟩
      · show Function.update u.queue.activeTimers timerId none id = Function.update c.active timerId none id
        by_cases heq : id = timerId
        · rw [heq,Function.update_self,Function.update_self]
        · rw [Function.update_of_ne heq,Function.update_of_ne heq,h.others id hid]
      · refine Function.update_of_ne ?_ _ _
        rintro rfl
        exact hrespects hid
    | handleRead => exact absurd rfl hone
    | advance => exact h.advance hlive hstep

theorem stepAt_idle (h : u.phase = .idle) {move : Move} (hone : move ≠ .queue .handleRead)
    (hstep : stepAt u move = some u') :
    u'.phase = .idle := by
  cases move with
  | clock clock =>
    cases hstep
    exact h
  | queue label =>
    cases label with
    | tick d | create when interval | createElsewhere =>
      cases hstep
      exact h
    | addTimerInLoop timerId =>
      obtain ⟨-,timer,-,rfl⟩ := step_addTimerInLoop hstep
      exact h
    | cancelInLoop timerId =>
      obtain ⟨-,rfl⟩ := step_cancelInLoop hstep
      exact h
    | handleRead => exact absurd rfl hone
    | advance =>
      simp only [stepAt,step,TimerLoop.advance,h] at hstep
      cases hstep

theorem run_within {moves : List Move} (hrun : Run stepAt u moves u') (hlive : u.Live)
    (hrespects : Along stepAt Respects u moves) (hone : .queue .handleRead ∉ moves)
    (h : u.phase = .idle ∨ Within w now due c u) : u'.phase = .idle ∨ Within w now due (c.run moves) u' := by
  induction hrun generalizing c with
  | refl => exact h
  | @cons u v u' move moves hstep _ ih =>
    have hmove : move ≠ .queue .handleRead := by
      rintro rfl
      exact hone (.head _)
    refine ih (stepAt_live hlive hrespects.1 hstep) (hrespects.2 _ hstep) (fun hmem => hone (.tail _ hmem)) ?_
    rcases h with hidle | hwithin
    · exact .inl (stepAt_idle hidle hmove hstep)
    · exact stepAt_within hlive hwithin hrespects.1 hmove hstep

/-- The steps that `handleRead` has still to take. -/
def remaining (phase : Phase) : ℕ :=
  match phase with
  | .running _ expired todo => todo.length+expired.length+2
  | .resetting _ todo => todo.length+1
  | .idle | .undefined => 0

theorem Live.advance (h : u.Live) (hphase : u.phase ≠ .idle) :
    ∃ u', u.advance = some u' ∧ remaining u'.phase+1 = remaining u.phase := by
  have hbatch := h.owned.2
  cases hu : u.phase with
  | idle => exact absurd hu hphase
  | undefined => exact absurd hu h.phase
  | running now expired todo =>
    cases todo with
    | nil => exact ⟨_,by rw [TimerLoop.advance,hu],by simp [remaining]⟩
    | cons id todo =>
      rw [batch,hu] at hbatch
      obtain ⟨timer,ht⟩ := Option.ne_none_iff_exists'.mp (hbatch id (h.ordered.todo now expired _ hu id (.head _)))
      refine ⟨_,by simp only [TimerLoop.advance,hu,ht]; rfl,?_⟩
      simp only [remaining,List.length_cons]
      omega
  | resetting now todo =>
    cases todo with
    | nil => exact ⟨_,by simp only [TimerLoop.advance,hu]; rfl,rfl⟩
    | cons id todo =>
      rw [batch,hu] at hbatch
      obtain ⟨timer,ht⟩ := Option.ne_none_iff_exists'.mp (hbatch id (.head _))
      exact ⟨_,by simp only [TimerLoop.advance,hu,ht]; rfl,rfl⟩

/-- `handleRead` returns after these steps, when the callbacks add and cancel nothing more. -/
theorem Live.returns (h : u.Live) :
    ∃ u', Run stepAt u (List.replicate (remaining u.phase) (.queue .advance)) u' ∧ u'.phase = .idle := by
  obtain ⟨n,hn⟩ : ∃ n, remaining u.phase = n := ⟨_,rfl⟩
  rw [hn]
  induction n generalizing u with
  | zero =>
    by_contra hnot
    have hphase : u.phase ≠ .idle := fun hidle => hnot ⟨u,.refl u,hidle⟩
    obtain ⟨u',-,hless⟩ := h.advance hphase
    omega
  | succ n ih =>
    have hphase : u.phase ≠ .idle := by
      intro hidle
      rw [hidle] at hn
      cases hn
    obtain ⟨u₁,hstep,hless⟩ := h.advance hphase
    obtain ⟨u',hrun,hidle⟩ := ih (stepAt_live h (respects_advance u) hstep) (by omega)
    exact ⟨u',.cons hstep hrun,hidle⟩

/-- No timer that is still to be added has the number. -/
structure Numbered (w : TimerLoop) (id : ℕ) : Prop where
  below : id < w.numCreated
  created : ∀ timer ∈ w.created, timer.sequence ≠ id

theorem Live.numbered {id : ℕ} (h : w.Live) {timer : Timer} (ht : w.queue.activeTimers id = some timer) :
    w.Numbered id := by
  have hnot : ¬ (w.numCreated ≤ id ∨ ∃ timer ∈ w.created, timer.sequence = id) := by
    intro hnew
    rw [(h.tracked.unused id hnew).active] at ht
    cases ht
  exact ⟨Nat.lt_of_not_le fun hle => hnot (.inl hle),fun timer ht heq => hnot (.inr ⟨timer,ht,heq⟩)⟩

theorem stepAt_numbered {id : ℕ} (h : u.Numbered id) {move : Move} (hstep : stepAt u move = some u') :
    u'.Numbered id := by
  obtain ⟨hbelow,hcreated⟩ := h
  cases move with
  | clock clock =>
    cases hstep
    exact ⟨hbelow,hcreated⟩
  | queue label =>
    cases label with
    | tick d =>
      cases hstep
      exact ⟨hbelow,hcreated⟩
    | create when interval =>
      cases hstep
      refine ⟨Nat.lt_succ_of_lt hbelow,fun timer ht => ?_⟩
      rcases List.mem_append.mp ht with ht | ht
      · exact hcreated timer ht
      · rw [List.mem_singleton.mp ht]
        exact Nat.ne_of_gt hbelow
    | createElsewhere =>
      cases hstep
      exact ⟨Nat.lt_succ_of_lt hbelow,hcreated⟩
    | addTimerInLoop timerId =>
      obtain ⟨-,timer,-,rfl⟩ := step_addTimerInLoop hstep
      exact ⟨hbelow,fun timer' ht => hcreated timer' (List.mem_of_mem_erase ht)⟩
    | cancelInLoop timerId =>
      obtain ⟨-,rfl⟩ := step_cancelInLoop hstep
      exact ⟨hbelow,hcreated⟩
    | handleRead =>
      obtain ⟨-,rfl⟩ := step_handleRead hstep
      exact ⟨hbelow,hcreated⟩
    | advance =>
      rcases advance_cases hstep with ⟨now,expired,id',todo,-,⟨-,rfl⟩ | ⟨-,rfl⟩⟩ | ⟨now,expired,-,rfl⟩ |
        ⟨now,id',todo,-,⟨timer,-,rfl⟩ | ⟨-,rfl⟩⟩ | ⟨now,-,rfl⟩ <;> exact ⟨hbelow,hcreated⟩

/-- The timer was taken out for good. -/
structure Finished (w : TimerLoop) (id : ℕ) : Prop where
  active : w.queue.activeTimers id = none
  batch : id ∉ w.batch
  numbered : w.Numbered id

theorem stepAt_finished {id : ℕ} (hlive : u.Live) (h : u.Finished id) {move : Move} (hstep : stepAt u move = some u') :
    u'.phase = .undefined ∨ u'.Finished id ∧ ∃ events, u'.trace = u.trace++events ∧ .run id ∉ events := by
  have hnumbered := stepAt_numbered h.numbered hstep
  obtain ⟨hactive,hbatch,hold⟩ := h
  cases move with
  | clock clock =>
    cases hstep
    exact .inr ⟨⟨hactive,hbatch,hnumbered⟩,[],by simp,by simp⟩
  | queue label =>
    cases label with
    | tick d | create when interval | createElsewhere =>
      cases hstep
      exact .inr ⟨⟨hactive,hbatch,hnumbered⟩,[],by simp,by simp⟩
    | addTimerInLoop timerId =>
      obtain ⟨-,timer,hmem,rfl⟩ := step_addTimerInLoop hstep
      have hnew := hlive.tracked.unused timer.sequence (.inr ⟨timer,hmem,rfl⟩)
      have hne : id ≠ timer.sequence := Ne.symm (hold.created timer hmem)
      refine .inr ⟨⟨?_,hbatch,hnumbered⟩,[],by simp,by simp⟩
      show (u.queue.addTimerInLoop u.clock.now timer).activeTimers id = none
      rw [TimerQueue.addTimerInLoop_activeTimers hnew.active,Function.update_of_ne hne,hactive]
    | cancelInLoop timerId =>
      obtain ⟨-,rfl⟩ := step_cancelInLoop hstep
      refine .inr ⟨⟨?_,hbatch,hnumbered⟩,[.cancelInLoop timerId],rfl,by simp⟩
      show Function.update u.queue.activeTimers timerId none id = none
      by_cases heq : id = timerId
      · rw [heq,Function.update_self]
      · rw [Function.update_of_ne heq,hactive]
    | handleRead =>
      obtain ⟨-,rfl⟩ := step_handleRead hstep
      refine .inr ⟨⟨hactive,fun hmem => ?_,hnumbered⟩,[.handleRead],rfl,by simp⟩
      have hsome := (TimerQueue.mem_getExpired.mp hmem).2
      rw [TimerQueue.readTimerfd_activeTimers,hactive] at hsome
      cases hsome
    | advance =>
      rcases advance_cases hstep with ⟨now,expired,id',todo,hphase,⟨-,rfl⟩ | ⟨-,rfl⟩⟩ | ⟨now,expired,hphase,rfl⟩ |
        ⟨now,id',todo,hphase,⟨timer,htimer,rfl⟩ | ⟨-,rfl⟩⟩ | ⟨now,hphase,rfl⟩
      · have hne : id ≠ id' := by
          rintro rfl
          refine hbatch ?_
          rw [TimerLoop.batch,hphase]
          exact hlive.ordered.todo now expired _ hphase id (.head _)
        rw [TimerLoop.batch,hphase] at hbatch
        exact .inr ⟨⟨hactive,hbatch,hnumbered⟩,[.touch id' true,.run id'],by simp,by simp [hne]⟩
      · exact .inl rfl
      · rw [TimerLoop.batch,hphase] at hbatch
        exact .inr ⟨⟨hactive,hbatch,hnumbered⟩,[],by simp,by simp⟩
      · have hne : id ≠ timer.sequence := by
          rw [hlive.tracked.tracks.keyed id' timer htimer]
          rintro rfl
          rw [hactive] at htimer
          cases htimer
        rw [TimerLoop.batch,hphase] at hbatch
        refine .inr ⟨⟨?_,fun hmem => hbatch (.tail _ hmem),hnumbered⟩,[.touch id' true],rfl,by simp⟩
        exact (TimerQueue.restartOrErase_of_ne hne).trans hactive
      · exact .inl rfl
      · refine .inr ⟨⟨?_,by simp [TimerLoop.batch],hnumbered⟩,[],by simp,by simp⟩
        show (u.queue.armNext u.clock.now).activeTimers id = none
        rw [TimerQueue.armNext_activeTimers,hactive]

theorem finished_never_runs {id : ℕ} {moves : List Move} (hrun : Run stepAt u moves u') (hlive : u.Live)
    (h : u.Finished id)
    (hrespects : Along stepAt Respects u moves) : ∃ events, u'.trace = u.trace++events ∧ .run id ∉ events := by
  induction hrun with
  | refl => exact ⟨[],by simp,by simp⟩
  | cons hstep _ ih =>
    have hlive' := stepAt_live hlive hrespects.1 hstep
    obtain ⟨hfinished,events,htrace,hnot⟩ := (stepAt_finished hlive h hstep).resolve_left hlive'.phase
    obtain ⟨events',htrace',hnot'⟩ := ih hlive' hfinished (hrespects.2 _ hstep)
    exact ⟨events++events',by rw [htrace',htrace,List.append_assoc],by simp [hnot,hnot']⟩

/-- What holds when `handleRead` returns: the due timers ran, once each and in order, and no
other; the ones that do not repeat are gone and never run again, the others have their single
entry one interval later; and all other timers are as the callbacks leave them, with their
single entry. -/
structure Returned (w : TimerLoop) (now : ℤ) (due : List ℕ) (c : Calls) (w' : TimerLoop) : Prop where
  ran : Ran w.trace w' due
  oneShot : ∀ id ∈ due, ∀ timer, w.queue.activeTimers id = some timer → timer.repeats = false →
    w'.queue.activeTimers id = none ∧ ∀ moves u, Run stepAt w' moves u → Along stepAt Respects w' moves →
      ∃ events, u.trace = w'.trace++events ∧ .run id ∉ events
  periodic : ∀ id ∈ due, ∀ timer, w.queue.activeTimers id = some timer → timer.repeats = true →
    w'.queue.activeTimers id = some (timer.restart now) ∧
      w'.queue.entriesOf id = [⟨now+timer.interval.microSeconds,id⟩]
  others : ∀ id ∉ due, w'.queue.activeTimers id = c.active id ∧
    ∀ timer, c.active id = some timer → w'.queue.entriesOf id = [⟨timer.expiration,id⟩]

/-- The last step of the batch. -/
theorem Within.returned (h : Within w now due c u) (hlive' : u'.Live) (hnumbered : ∀ id, w.Numbered id → u'.Numbered id)
    (hw : w.Live) (hadvance : u.advance = some u') (hidle : u'.phase = .idle) : Returned w now due c u' := by
  have hentries : ∀ id timer, u'.queue.activeTimers id = some timer →
      u'.queue.entriesOf id = [⟨timer.expiration,id⟩] := by
    intro id timer ht
    have hbatch : id ∉ u'.batch := by
      rw [batch,hidle]
      exact List.not_mem_nil
    rw [hlive'.tracked.tracks.entries id timer ht,if_neg hbatch]
  obtain ⟨-,-,hothers,hprogress⟩ := h
  cases hprogress with
  | running ran todo hdue hphase hran hactive =>
    rcases advance_cases hadvance with ⟨now',expired,id,todo',hphase',⟨-,rfl⟩ | ⟨-,rfl⟩⟩ | ⟨now',expired,hphase',rfl⟩ |
      ⟨now',id,todo',hphase',-⟩ | ⟨now',hphase',-⟩
    · cases hidle
    · cases hidle
    · cases hidle
    · rw [hphase] at hphase'
      cases hphase'
    · rw [hphase] at hphase'
      cases hphase'
  | resetting done todo hdue hphase hran htodo hdone =>
    rcases advance_cases hadvance with ⟨now',expired,id,todo',hphase',-⟩ | ⟨now',expired,hphase',-⟩ |
      ⟨now',id,todo',hphase',⟨timer,htimer,rfl⟩ | ⟨-,rfl⟩⟩ | ⟨now',hphase',rfl⟩
    · rw [hphase] at hphase'
      cases hphase'
    · rw [hphase] at hphase'
      cases hphase'
    · cases hidle
    · cases hidle
    · rw [hphase] at hphase'
      cases hphase'
      rw [List.append_nil] at hdue
      subst hdue
      have hactive : ∀ id, (u.queue.armNext u.clock.now).activeTimers id = u.queue.activeTimers id :=
        fun id => by rw [TimerQueue.armNext_activeTimers]
      refine ⟨hran,fun id hid timer ht hrepeats => ?_,fun id hid timer ht hrepeats => ?_,fun id hid => ?_⟩
      · have hnone : (u.queue.armNext u.clock.now).activeTimers id = none := by
          rw [hactive,hdone id hid,ht,afterReset,Option.bind_some,hrepeats]
          rfl
        refine ⟨hnone,fun moves v hrun hrespects => ?_⟩
        exact finished_never_runs hrun hlive' ⟨hnone,List.not_mem_nil,hnumbered id (hw.numbered ht)⟩ hrespects
      · have hsome : (u.queue.armNext u.clock.now).activeTimers id = some (timer.restart now) := by
          rw [hactive,hdone id hid,ht,afterReset,Option.bind_some,hrepeats]
          rfl
        refine ⟨hsome,(hentries id _ hsome).trans ?_⟩
        rw [Timer.restart,hrepeats]
        rfl
      · refine ⟨(hactive id).trans (hothers id hid),fun timer ht => hentries id timer ?_⟩
        exact ((hactive id).trans (hothers id hid)).trans ht

theorem within_handleRead {s : TimerLoop} (hw : w.Live) (hstep : stepAt w (.queue .handleRead) = some s) :
    ∃ due, w.queue.Due w.clock.now due ∧ Within w w.clock.now due w.calls s := by
  obtain ⟨hidle,rfl⟩ := step_handleRead hstep
  have htracks := hw.tracked.tracks
  rw [batch,hidle] at htracks
  have hread : (w.queue.readTimerfd w.clock.now).Tracks [] fun id => .cancelInLoop id ∈ w.trace :=
    ⟨htracks.keyed,htracks.entries,htracks.stale⟩
  have hdue : (w.queue.readTimerfd w.clock.now).Due w.clock.now
      ((w.queue.readTimerfd w.clock.now).getExpired w.clock.now).2 := hread.getExpired_due
  exact ⟨_,⟨hdue.mem,hdue.order⟩,rfl,rfl,fun _ _ => rfl,.running [] _ rfl rfl ⟨[.handleRead],rfl,rfl⟩ fun _ _ => rfl⟩

/-- From every state that is reached with any callbacks, none of which cancels a timer of the
batch it runs in, and with any clock: `handleRead` has the due timers as its batch, and
wherever it stands it still returns, and then has done what `Returned` says. -/
theorem handleRead_runs_due {clock : Clock} {before moves : List Move} {w s u : TimerLoop}
    (h : Run stepAt (initial clock) before w) (hbefore : Along stepAt Respects (initial clock) before)
    (hread : stepAt w (.queue .handleRead) = some s) (hrun : Run stepAt s moves u)
    (hrespects : Along stepAt Respects s moves) (hone : .queue .handleRead ∉ moves) :
    ∃ due, w.queue.Due w.clock.now due ∧
      (∃ n v, Run stepAt u (List.replicate n (.queue .advance)) v ∧ v.phase = .idle) ∧
      (u.phase ≠ .idle → ∀ v, stepAt u (.queue .advance) = some v → v.phase = .idle →
        Returned w w.clock.now due (w.calls.run moves) v) := by
  have hw : w.Live := live_of_along h (initial_live clock) hbefore
  have hs : s.Live := stepAt_live hw (respects_handleRead w) hread
  have hu : u.Live := live_of_along hrun hs hrespects
  obtain ⟨due,hdue,hwithin⟩ := within_handleRead hw hread
  refine ⟨due,hdue,⟨_,hu.returns⟩,fun hphase v hadvance hidle => ?_⟩
  have hwithin' := (run_within hrun hs hrespects hone (.inr hwithin)).resolve_left hphase
  have hnumbered : ∀ id, w.Numbered id → v.Numbered id := fun id hid =>
    stepAt_numbered (hrun.invariant (I:=fun w => w.Numbered id) (fun _ _ _ hI hstep => stepAt_numbered hI hstep)
      (stepAt_numbered hid hread)) hadvance
  exact hwithin'.returned (stepAt_live hu (respects_advance u) hadvance) hnumbered hw hadvance hidle

/-- A timer that repeats, one that does not, and one that is not due. -/
def threeTimers : List Move :=
  [.queue (.create 1000 millisecond),.queue (.addTimerInLoop 0),.queue (.create 500 once),.queue (.addTimerInLoop 1),
    .queue (.create 90000 once),.queue (.addTimerInLoop 2),.clock ⟨2000,by decide⟩]

/-- The first callback adds a timer that is due already and cancels the one that is not. -/
def overlap : List Move :=
  [.queue .advance,.queue (.create 100 once),.queue (.addTimerInLoop 3),.queue (.cancelInLoop 2),.queue .advance,
    .queue .advance,.queue .advance,.queue .advance]

theorem handleRead_runs_due_overlap :
    ∃ w s u v due, exec stepAt (initial epoch) threeTimers = some w ∧ stepAt w (.queue .handleRead) = some s ∧
      exec stepAt s overlap = some u ∧ stepAt u (.queue .advance) = some v ∧ w.queue.Due 2000 due ∧
      Returned w 2000 due (w.calls.run overlap) v := by
  have hall : ((exec stepAt (initial epoch) threeTimers).bind fun w => (stepAt w (.queue .handleRead)).bind fun s =>
      (exec stepAt s overlap).bind fun u => (stepAt u (.queue .advance)).map fun v =>
        (w.clock.now,decide (Along stepAt Respects s overlap),u.phase,v.phase)) =
      some (2000,true,.resetting 2000 [],.idle) := by decide +kernel
  obtain ⟨w,hw,h⟩ := Option.bind_eq_some_iff.mp hall
  obtain ⟨s,hs,h⟩ := Option.bind_eq_some_iff.mp h
  obtain ⟨u,hu,h⟩ := Option.bind_eq_some_iff.mp h
  obtain ⟨v,hv,h⟩ := Option.map_eq_some_iff.mp h
  obtain ⟨hnow,hrespects,hphase,hidle⟩ : w.clock.now = 2000 ∧ Along stepAt Respects s overlap ∧
      u.phase = .resetting 2000 [] ∧ v.phase = .idle := by simpa using h
  obtain ⟨due,hdue,-,hreturned⟩ := handleRead_runs_due ((run_iff_exec _ _ _ _).mpr hw) (by decide +kernel) hs
    ((run_iff_exec _ _ _ _).mpr hu) hrespects (by simp [overlap])
  rw [hnow] at hdue hreturned
  exact ⟨w,s,u,v,due,hw,hs,hu,hv,hdue,hreturned (by rw [hphase]; simp) v hv hidle⟩

end TimerLoop
end GgLib
