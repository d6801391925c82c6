import GgLib.TimerThreads
import GgLib.TimerOwnership

/-! When a cancel takes effect. `cancelInLoop` erases what `activeTimers_` holds, so it has
to come behind `addTimerInLoop`, and before the batch takes the timer. -/
namespace GgLib

open LabelledSystem

namespace TimerLoop

def waiting (w : TimerLoop) : List ℕ :=
  match w.phase with
  | .running _ _ todo => todo
  | .idle | .resetting _ _ | .undefined => []

/-- The timer was added and erased before it ever ran, so it never runs. -/
structure Gone (w : TimerLoop) (timerId : ℕ) : Prop where
  created : ∀ timer ∈ w.created, timer.sequence ≠ timerId
  old : timerId < w.numCreated
  active : w.queue.activeTimers timerId = none
  waiting : timerId ∉ w.waiting
  notRun : .run timerId ∉ w.trace

/-- Either behind the dereference of a destroyed timer, or with `timers_` in order. -/
def Kept (w : TimerLoop) : Prop := w.phase = .undefined ∨ w.Tracked

theorem step_kept {w w' : TimerLoop} {l : Label} (hw : w.Kept) (h : step w l = some w') : w'.Kept := by
  rcases hw with hphase | ht
  · exact .inl (step_undefined hphase h).1
  · exact step_tracked ht h

theorem Gone.advance {w w' : TimerLoop} {timerId : ℕ} (hw : w.Gone timerId) (ht : w.Tracked)
    (h : w.advance = some w') : w'.Gone timerId := by
  have hnil : timerId ∉ ([] : List ℕ) := List.not_mem_nil
  rcases advance_cases h with ⟨now,expired,id,todo,hphase,⟨-,rfl⟩ | ⟨-,rfl⟩⟩ | ⟨now,expired,hphase,rfl⟩ |
    ⟨now,id,todo,hphase,⟨timer,htimer,rfl⟩ | ⟨-,rfl⟩⟩ | ⟨now,hphase,rfl⟩
  · have hwaiting : w.waiting = id::todo := by rw [TimerLoop.waiting,hphase]
    obtain ⟨hne,hrest⟩ := (List.mem_cons.not.trans not_or).mp (hwaiting ▸ hw.waiting)
    exact ⟨hw.created,hw.old,hw.active,hrest,by simp [hw.notRun,hne]⟩
  · have hwaiting : w.waiting = id::todo := by rw [TimerLoop.waiting,hphase]
    obtain ⟨hne,-⟩ := (List.mem_cons.not.trans not_or).mp (hwaiting ▸ hw.waiting)
    exact ⟨hw.created,hw.old,hw.active,hnil,by simp [hw.notRun,hne]⟩
  · exact ⟨hw.created,hw.old,hw.active,hnil,hw.notRun⟩
  · have hkey : timer.sequence = id := ht.tracks.keyed id timer htimer
    have hne : timerId ≠ timer.sequence := by
      rintro rfl
      cases htimer.symm.trans (hkey ▸ hw.active)
    refine ⟨hw.created,hw.old,?_,hnil,by simp [hw.notRun]⟩
    rw [TimerQueue.restartOrErase_of_ne hne]
    exact hw.active
  · exact ⟨hw.created,hw.old,hw.active,hnil,by simp [hw.notRun]⟩
  · refine ⟨hw.created,hw.old,?_,hnil,hw.notRun⟩
    rw [TimerQueue.armNext_activeTimers]
    exact hw.active

/-- No step brings the timer back. -/
theorem Gone.step {w w' : TimerLoop} {timerId : ℕ} {l : Label} (hw : w.Gone timerId) (hk : w.Kept)
    (h : step w l = some w') : w'.Gone timerId := by
  cases l with
  | tick d =>
    cases h
    exact ⟨hw.created,hw.old,hw.active,hw.waiting,hw.notRun⟩
  | create when interval =>
    cases h
    refine ⟨fun timer ht => ?_,Nat.lt_succ_of_lt hw.old,hw.active,hw.waiting,hw.notRun⟩
    rcases List.mem_append.mp ht with ht | ht
    · exact hw.created timer ht
    · rw [List.mem_singleton.mp ht]
      exact Nat.ne_of_gt hw.old
  | createElsewhere =>
    cases h
    exact ⟨hw.created,Nat.lt_succ_of_lt hw.old,hw.active,hw.waiting,hw.notRun⟩
  | addTimerInLoop id =>
    obtain ⟨hcalling,timer,hmem,rfl⟩ := step_addTimerInLoop h
    have ht : w.Tracked := hk.resolve_left fun hphase => by simp [hphase,Phase.calling] at hcalling
    have hnew := ht.unused timer.sequence (.inr ⟨timer,hmem,rfl⟩)
    refine ⟨fun t ht => hw.created t (List.mem_of_mem_erase ht),hw.old,?_,hw.waiting,hw.notRun⟩
    rw [TimerQueue.addTimerInLoop_activeTimers hnew.active,Function.update_of_ne (hw.created timer hmem).symm]
    exact hw.active
  | cancelInLoop id =>
    obtain ⟨-,rfl⟩ := step_cancelInLoop h
    refine ⟨hw.created,hw.old,?_,hw.waiting,by simp [hw.notRun]⟩
    show Function.update w.queue.activeTimers id none timerId = none
    by_cases hid : timerId = id
    · rw [hid,Function.update_self]
    · rw [Function.update_of_ne hid,hw.active]
  | handleRead =>
    obtain ⟨-,rfl⟩ := step_handleRead h
    refine ⟨hw.created,hw.old,hw.active,fun hid => ?_,by simp [hw.notRun]⟩
    have hactive := (TimerQueue.mem_getExpired.mp hid).2
    rw [TimerQueue.readTimerfd_activeTimers,hw.active] at hactive
    cases hactive
  | advance =>
    rcases hk with hphase | ht
    · simp [TimerLoop.step,TimerLoop.advance,hphase] at h
    · exact hw.advance ht h

theorem step_addTimerInLoop_created {w w' : TimerLoop} {timerId : ℕ}
    (h : TimerLoop.step w (.addTimerInLoop timerId) = some w') :
    w'.numCreated = w.numCreated ∧
      ∃ timer ∈ w.created, timer.sequence = timerId ∧ w'.created = w.created.erase timer := by
  simp only [TimerLoop.step] at h
  split at h
  · obtain ⟨timer,hfind,rfl⟩ := Option.map_eq_some_iff.mp h
    exact ⟨rfl,timer,List.mem_of_find?_eq_some hfind,by simpa using List.find?_some hfind,rfl⟩
  · cases h

end TimerLoop

namespace TimerThreads

/-- Every timer that is still to be added has its functor in the queue or is about to get it,
and a `cancel` with an id that was returned stands behind that functor. -/
structure Placed (w : TimerThreads) : Prop where
  tracked : w.loop.Tracked
  created : ∀ timer ∈ w.loop.created,
    .addTimerInLoop timer.sequence ∈ w.queue ∨ ∃ thread, w.threads thread = .adding timer.sequence
  returned : ∀ timerId ∈ w.returned, timerId < w.loop.numCreated
  adding : ∀ thread timerId, w.threads thread = .adding timerId → timerId < w.loop.numCreated ∧ timerId ∉ w.returned
  distinct : ∀ thread thread' timerId, w.threads thread = .adding timerId → w.threads thread' = .adding timerId →
    thread = thread'
  called : ∀ timerId, .cancelInLoop timerId true ∈ w.queue → timerId ∈ w.returned
  order : w.queue.Pairwise fun f g => ∀ timerId, f = .cancelInLoop timerId true → g ≠ .addTimerInLoop timerId

variable {w w' : TimerThreads}

theorem cancelInLoop_some {timerId : ℕ} {returned : Bool} (h : w.cancelInLoop timerId returned = some w') :
    ∃ loop, w.loop.step (.cancelInLoop timerId) = some loop ∧
      w' = { w with
        loop
        cancelled :=
          if returned = true ∧ .run timerId ∉ w.loop.trace then w.cancelled++[timerId] else w.cancelled } := by
  obtain ⟨loop,hloop,rfl⟩ := Option.map_eq_some_iff.mp h
  exact ⟨loop,hloop,rfl⟩

/-- A step of the loop alone that adds no timer and creates at most elsewhere. -/
theorem Placed.loop (hw : w.Placed) {loop : TimerLoop} (hcreated : loop.created = w.loop.created)
    (hnum : w.loop.numCreated ≤ loop.numCreated) (ht : loop.Tracked) (cancelled : List ℕ) :
    Placed { w with loop, cancelled } where
  tracked := ht
  created := hcreated ▸ hw.created
  returned := fun timerId h => (hw.returned timerId h).trans_le hnum
  adding := fun thread timerId h => ⟨(hw.adding thread timerId h).1.trans_le hnum,(hw.adding thread timerId h).2⟩
  distinct := hw.distinct
  called := hw.called
  order := hw.order

theorem mem_erase_created {created : List Timer} (h : (created.map (·.sequence)).Nodup) {timer t : Timer}
    (hmem : timer ∈ created) (ht : t ∈ created.erase timer) : t ∈ created ∧ t.sequence ≠ timer.sequence := by
  have hnodup := ((List.perm_cons_erase hmem).map (·.sequence)).nodup_iff.mp h
  rw [List.map_cons,List.nodup_cons] at hnodup
  exact ⟨List.mem_of_mem_erase ht,fun heq => hnodup.1 (heq ▸ List.mem_map_of_mem ht)⟩

theorem Placed.create (hw : w.Placed) {thread : ℕ} (hidle : w.threads thread = .idle) (when : ℤ)
    (interval : Interval) {loop : TimerLoop} (hloop : w.loop.step (.create when interval) = some loop)
    (ht : loop.Tracked) :
    Placed { w with loop, threads := Function.update w.threads thread (.adding w.loop.numCreated) } := by
  cases hloop
  have hthreads : ∀ t id, Function.update w.threads thread (.adding w.loop.numCreated) t = .adding id →
      (t = thread ∧ id = w.loop.numCreated) ∨ w.threads t = .adding id := by
    intro t id h
    by_cases heq : t = thread
    · rw [heq,Function.update_self] at h
      cases h
      exact .inl ⟨heq,rfl⟩
    · rw [Function.update_of_ne heq] at h
      exact .inr h
  refine ⟨ht,fun timer hmem => ?_,fun id hid => Nat.lt_succ_of_lt (hw.returned id hid),fun t id h => ?_,
    fun t t' id h h' => ?_,hw.called,hw.order⟩
  · rcases List.mem_append.mp hmem with hmem | hmem
    · refine (hw.created timer hmem).imp_right fun ⟨t,hadding⟩ => ⟨t,?_⟩
      have hne : t ≠ thread := by
        rintro rfl
        cases hidle.symm.trans hadding
      exact (Function.update_of_ne hne ..).trans hadding
    · rw [List.mem_singleton.mp hmem]
      exact .inr ⟨thread,Function.update_self ..⟩
  · rcases hthreads t id h with ⟨-,rfl⟩ | h
    · exact ⟨Nat.lt_succ_self _,fun hid => Nat.lt_irrefl _ (hw.returned _ hid)⟩
    · exact ⟨Nat.lt_succ_of_lt (hw.adding t id h).1,(hw.adding t id h).2⟩
  · rcases hthreads t id h with ⟨heq,hid⟩ | hold <;> rcases hthreads t' id h' with ⟨heq',hid'⟩ | hold'
    · exact heq.trans heq'.symm
    · exact absurd (hid ▸ (hw.adding t' id hold').1) (Nat.lt_irrefl _)
    · exact absurd (hid' ▸ (hw.adding t id hold).1) (Nat.lt_irrefl _)
    · exact hw.distinct t t' id hold hold'

theorem Placed.queueInLoop (hw : w.Placed) {thread : ℕ} (h : w.queueInLoop thread = some w') : w'.Placed := by
  rw [TimerThreads.queueInLoop] at h
  split at h
  · cases h
  · rename_i id hadding
    cases h
    obtain ⟨hlt,hnot⟩ := hw.adding thread id hadding
    have hthreads : ∀ t id', Function.update w.threads thread .idle t = .adding id' →
        t ≠ thread ∧ w.threads t = .adding id' := by
      intro t id' h
      by_cases heq : t = thread
      · rw [heq,Function.update_self] at h
        cases h
      · rw [Function.update_of_ne heq] at h
        exact ⟨heq,h⟩
    have hqueue : ∀ f, f ∈ queue { w with work := w.work.push (.addTimerInLoop id) } ↔
        f ∈ w.queue ∨ f = .addTimerInLoop id := by
      intro f
      simp [queue,WorkQueue.push,or_assoc]
    refine ⟨hw.tracked,fun timer hmem => ?_,fun id' hid => ?_,fun t id' h => ?_,fun t t' id' h h' => ?_,
      fun id' hcall => ?_,?_⟩
    · rcases hw.created timer hmem with hqueued | ⟨t,ht⟩
      · exact .inl ((hqueue _).mpr (.inl hqueued))
      · by_cases heq : t = thread
        · rw [heq,hadding] at ht
          cases ht
          exact .inl ((hqueue _).mpr (.inr rfl))
        · exact .inr ⟨t,(Function.update_of_ne heq ..).trans ht⟩
    · rcases List.mem_append.mp hid with hid | hid
      · exact hw.returned id' hid
      · rw [List.mem_singleton.mp hid]
        exact hlt
    · obtain ⟨hne,hold⟩ := hthreads t id' h
      refine ⟨(hw.adding t id' hold).1,fun hmem => ?_⟩
      rcases List.mem_append.mp hmem with hmem | hmem
      · exact (hw.adding t id' hold).2 hmem
      · rw [List.mem_singleton.mp hmem] at hold
        exact hne (hw.distinct t thread id hold hadding)
    · exact hw.distinct t t' id' (hthreads t id' h).2 (hthreads t' id' h').2
    · rcases (hqueue _).mp hcall with hcall | hcall
      · exact List.mem_append_left _ (hw.called id' hcall)
      · cases hcall
    · show (w.work.batch++(w.work.pending++[_])).Pairwise _
      rw [← List.append_assoc,List.pairwise_append]
      refine ⟨hw.order,List.pairwise_singleton .. ,fun f hf g hg id' hcancel hadd => ?_⟩
      rw [List.mem_singleton.mp hg] at hadd
      cases hadd
      exact hnot (hw.called id (hcancel ▸ hf))

theorem Placed.push (hw : w.Placed) {timerId : ℕ} {returned : Bool}
    (hreturned : returned = true → timerId ∈ w.returned) :
    Placed { w with work := w.work.push (.cancelInLoop timerId returned) } := by
  have hqueue : ∀ f, f ∈ queue { w with work := w.work.push (.cancelInLoop timerId returned) } ↔
      f ∈ w.queue ∨ f = .cancelInLoop timerId returned := by
    intro f
    simp [queue,WorkQueue.push,or_assoc]
  refine ⟨hw.tracked,fun timer hmem => ?_,hw.returned,hw.adding,hw.distinct,fun id hcall => ?_,?_⟩
  · exact (hw.created timer hmem).imp_left fun hqueued => (hqueue _).mpr (.inl hqueued)
  · rcases (hqueue _).mp hcall with hcall | hcall
    · exact hw.called id hcall
    · cases hcall
      exact hreturned rfl
  · show (w.work.batch++(w.work.pending++[_])).Pairwise _
    rw [← List.append_assoc,List.pairwise_append]
    refine ⟨hw.order,List.pairwise_singleton .. ,fun f hf g hg id hcancel hadd => ?_⟩
    rw [List.mem_singleton.mp hg] at hadd
    cases hadd

theorem Placed.swap (hw : w.Placed) (hbatch : w.work.batch = []) : Placed { w with work := w.work.swap } := by
  have hqueue : queue { w with work := w.work.swap } = w.queue := by simp [queue,WorkQueue.swap,hbatch]
  exact ⟨hw.tracked,hqueue ▸ hw.created,hw.returned,hw.adding,hw.distinct,hqueue ▸ hw.called,hqueue ▸ hw.order⟩

theorem queue_next {f : Functor} {work : WorkQueue Functor} (h : w.work.next = some (f,work)) :
    w.queue = f::queue { w with work } := by
  obtain ⟨hbatch,hpending,-⟩ := WorkQueue.next_some h
  simp [queue,hbatch,hpending]

/-- The loop adds a timer whose functor it has taken, or that its own `addTimer` created. -/
theorem Placed.addTimerInLoop (hw : w.Placed) {timerId : ℕ} {loop : TimerLoop}
    (hloop : w.loop.step (.addTimerInLoop timerId) = some loop) (ht : loop.Tracked) {work : WorkQueue Functor}
    (hsub : (queue { w with work }).Sublist w.queue)
    (hqueue : ∀ f ∈ w.queue, f = .addTimerInLoop timerId ∨ f ∈ queue { w with work }) :
    Placed { w with loop, work } := by
  obtain ⟨hnum,timer,hmem,rfl,hcreated⟩ := TimerLoop.step_addTimerInLoop_created hloop
  refine ⟨ht,fun t ht => ?_,fun id hid => hnum ▸ hw.returned id hid,fun t id h => hnum ▸ hw.adding t id h,
    hw.distinct,fun id hcall => hw.called id (hsub.subset hcall),hw.order.sublist hsub⟩
  rw [hcreated] at ht
  obtain ⟨ht,hne⟩ := mem_erase_created hw.tracked.distinct hmem ht
  rcases hw.created t ht with hqueued | hadding
  · rcases hqueue _ hqueued with heq | hrest
    · exact absurd (Functor.addTimerInLoop.inj heq) hne
    · exact .inl hrest
  · exact .inr hadding

theorem Placed.addAtOnce (hw : w.Placed) {when : ℤ} {interval : Interval} {loop loop' : TimerLoop}
    (hloop : w.loop.step (.create when interval) = some loop)
    (hloop' : loop.step (.addTimerInLoop w.loop.numCreated) = some loop') (ht : loop.Tracked) (ht' : loop'.Tracked) :
    Placed { w with loop := loop', returned := w.returned++[w.loop.numCreated] } := by
  obtain ⟨hnum,timer,hmem,hseq,hcreated⟩ := TimerLoop.step_addTimerInLoop_created hloop'
  cases hloop
  have hnum' : loop'.numCreated = w.loop.numCreated+1 := hnum
  refine ⟨ht',fun t ht'' => ?_,fun id hid => ?_,fun t id h => ?_,hw.distinct,
    fun id hcall => List.mem_append_left _ (hw.called id hcall),hw.order⟩
  · rw [hcreated] at ht''
    obtain ⟨hold,hne⟩ := mem_erase_created ht.distinct hmem ht''
    rcases List.mem_append.mp hold with hold | hnew
    · exact hw.created t hold
    · rw [List.mem_singleton.mp hnew] at hne
      exact absurd hseq.symm hne
  · rw [hnum']
    rcases List.mem_append.mp hid with hid | hid
    · exact Nat.lt_succ_of_lt (hw.returned id hid)
    · rw [List.mem_singleton.mp hid]
      exact Nat.lt_succ_self _
  · obtain ⟨hlt,hnot⟩ := hw.adding t id h
    refine ⟨by rw [hnum']; exact Nat.lt_succ_of_lt hlt,fun hmem => ?_⟩
    rcases List.mem_append.mp hmem with hmem | hmem
    · exact hnot hmem
    · exact Nat.ne_of_lt hlt (List.mem_singleton.mp hmem)

def Heeded (w : TimerThreads) : Prop := ∀ timerId ∈ w.cancelled, w.loop.Gone timerId

/-- A `cancel` on the loop thread comes too early: its timer is still to be added, or the
batch has still to run it. -/
def Misses (w : TimerThreads) : Label → Prop
  | .cancel thread timerId =>
    thread = 0 ∧ timerId ∈ w.returned ∧ .run timerId ∉ w.loop.trace ∧
      (.addTimerInLoop timerId ∈ w.queue ∨ timerId ∈ w.loop.waiting)
  | _ => False

/-- Behind the dereference of a destroyed timer nothing is known of the queue of functors, but
the cancelled timers stay gone. -/
structure Obeyed (w : TimerThreads) : Prop where
  placed : w.loop.phase = .undefined ∨ w.Placed
  heeded : w.Heeded

theorem Obeyed.kept (hw : w.Obeyed) : w.loop.Kept := hw.placed.imp_right (·.tracked)

/-- The next state is all right if its loop is a step further, and it is placed if that is tracked. -/
theorem Obeyed.of_step (hw : w.Obeyed) {l : TimerLoop.Label} (hloop : w.loop.step l = some w'.loop)
    (hcancelled : w'.cancelled = w.cancelled) (hplaced : w.Placed → w'.loop.Tracked → w'.Placed) : w'.Obeyed := by
  refine ⟨?_,fun id hid => (hw.heeded id (hcancelled ▸ hid)).step hw.kept hloop⟩
  rcases hw.placed with hphase | hp
  · exact .inl (TimerLoop.step_undefined hphase hloop).1
  · exact (TimerLoop.step_tracked hp.tracked hloop).imp_right (hplaced hp)

theorem Obeyed.loop (hw : w.Obeyed) {l : TimerLoop.Label} {loop : TimerLoop} (hloop : w.loop.step l = some loop)
    (hcreated : loop.created = w.loop.created) (hnum : w.loop.numCreated ≤ loop.numCreated) :
    Obeyed { w with loop } :=
  hw.of_step hloop rfl fun hp ht => hp.loop hcreated hnum ht _

theorem Obeyed.addTimer (hw : w.Obeyed) {thread : ℕ} {when : ℤ} {interval : Interval}
    (h : w.addTimer thread when interval = some w') : w'.Obeyed := by
  rw [TimerThreads.addTimer] at h
  split at h
  · obtain ⟨loop,hloop,h⟩ := Option.bind_eq_some_iff.mp h
    obtain ⟨loop',hloop',rfl⟩ := Option.map_eq_some_iff.mp h
    have hk := TimerLoop.step_kept hw.kept hloop
    refine ⟨?_,fun id hid => ((hw.heeded id hid).step hw.kept hloop).step hk hloop'⟩
    rcases hw.placed with hphase | hp
    · exact .inl (TimerLoop.step_undefined (TimerLoop.step_undefined hphase hloop).1 hloop').1
    · rcases hk with hphase | ht
      · exact .inl (TimerLoop.step_undefined hphase hloop').1
      · exact (TimerLoop.step_tracked ht hloop').imp_right (hp.addAtOnce hloop hloop' ht)
  · split at h
    · obtain ⟨loop,hloop,rfl⟩ := Option.map_eq_some_iff.mp h
      exact hw.of_step hloop rfl fun hp ht => hp.create ‹_› when interval hloop ht
    · cases h

theorem Obeyed.cancelInLoop (hw : w.Heeded) (hp : w.Placed) {timerId : ℕ} {returned : Bool}
    (h : w.cancelInLoop timerId returned = some w') (hreturned : returned = true → timerId ∈ w.returned)
    (hqueue : returned = true → .run timerId ∉ w.loop.trace → .addTimerInLoop timerId ∉ w.queue)
    (hwaiting : returned = true → .run timerId ∉ w.loop.trace → timerId ∉ w.loop.waiting) : w'.Obeyed := by
  obtain ⟨loop,hloop,rfl⟩ := cancelInLoop_some h
  have hold : ∀ id ∈ w.cancelled, loop.Gone id := fun id hid => (hw id hid).step (.inr hp.tracked) hloop
  have hfields : loop.created = w.loop.created ∧ w.loop.numCreated ≤ loop.numCreated := by
    obtain ⟨-,rfl⟩ := TimerLoop.step_cancelInLoop hloop
    exact ⟨rfl,le_rfl⟩
  refine ⟨(TimerLoop.step_tracked hp.tracked hloop).imp_right fun ht => hp.loop hfields.1 hfields.2 ht _,
    fun id hid => ?_⟩
  obtain ⟨-,rfl⟩ := TimerLoop.step_cancelInLoop hloop
  by_cases hnew : returned = true ∧ .run timerId ∉ w.loop.trace
  · simp only [if_pos hnew] at hid
    rcases List.mem_append.mp hid with hid | hid
    · exact hold id hid
    · rw [List.mem_singleton.mp hid]
      have hmem := hreturned hnew.1
      refine ⟨fun timer ht heq => ?_,hp.returned timerId hmem,Function.update_self ..,hwaiting hnew.1 hnew.2,
        by simp [hnew.2]⟩
      rcases hp.created timer ht with hqueued | ⟨thread,hadding⟩
      · exact hqueue hnew.1 hnew.2 (heq ▸ hqueued)
      · exact (hp.adding thread _ hadding).2 (heq ▸ hmem)
  · simp only [if_neg hnew] at hid
    exact hold id hid

/-- A functor is run between two handlers: a cancel finds no batch, and its timer added. -/
theorem Obeyed.functor (hw : w.Obeyed) {f : Functor} {work : WorkQueue Functor} (hidle : w.loop.phase = .idle)
    (hnext : w.work.next = some (f,work)) (h : runFunctor { w with work } f = some w') : w'.Obeyed := by
  have hqueue := queue_next hnext
  have hp : w.Placed := hw.placed.resolve_left (by simp [hidle])
  have hsub : (queue { w with work }).Sublist w.queue := hqueue ▸ List.sublist_cons_self ..
  cases f with
  | addTimerInLoop id =>
    obtain ⟨loop,hloop,rfl⟩ := Option.map_eq_some_iff.mp h
    refine hw.of_step hloop rfl fun hp ht => hp.addTimerInLoop hloop ht hsub fun g hg => ?_
    rw [hqueue] at hg
    exact (List.mem_cons.mp hg)
  | cancelInLoop id returned =>
    have hpairs := hp.order
    rw [hqueue,List.pairwise_cons] at hpairs
    have hcalled : returned = true → id ∈ w.returned := by
      rintro rfl
      exact hp.called id (by rw [hqueue]; exact .head _)
    have hrest : Placed { w with work } := by
      refine ⟨hp.tracked,fun timer ht => ?_,hp.returned,hp.adding,hp.distinct,
        fun id hcall => hp.called id (hsub.subset hcall),hp.order.sublist hsub⟩
      refine (hp.created timer ht).imp_left fun hqueued => ?_
      rw [hqueue] at hqueued
      exact (List.mem_cons.mp hqueued).resolve_left nofun
    refine Obeyed.cancelInLoop (w:={ w with work }) hw.heeded hrest h hcalled ?_ ?_
    · rintro rfl - hmem
      exact hpairs.1 _ hmem id rfl rfl
    · rintro - - hmem
      rw [TimerLoop.waiting,hidle] at hmem
      cases hmem

theorem step_obeyed {l : Label} (hw : w.Obeyed) (hl : ¬ w.Misses l) (h : step w l = some w') : w'.Obeyed := by
  cases l with
  | tick d =>
    rw [step] at h
    obtain ⟨loop,hloop,rfl⟩ := Option.map_eq_some_iff.mp h
    refine hw.loop hloop ?_ ?_ <;> cases hloop
    · rfl
    · exact le_rfl
  | createElsewhere =>
    rw [step] at h
    obtain ⟨loop,hloop,rfl⟩ := Option.map_eq_some_iff.mp h
    refine hw.loop hloop ?_ ?_ <;> cases hloop
    · rfl
    · exact Nat.le_succ _
  | addTimer thread when interval => exact hw.addTimer h
  | queueInLoop thread =>
    have hsame : w'.loop = w.loop ∧ w'.cancelled = w.cancelled := by
      rw [step,TimerThreads.queueInLoop] at h
      split at h <;> cases h
      exact ⟨rfl,rfl⟩
    refine ⟨hw.placed.imp (fun hphase => by rw [hsame.1,hphase]) fun hp => hp.queueInLoop h,fun id hid => ?_⟩
    rw [hsame.1]
    exact hw.heeded id (hsame.2 ▸ hid)
  | cancel thread timerId =>
    rw [step,TimerThreads.cancel] at h
    split at h
    · have hp : w.Placed := by
        refine hw.placed.resolve_left fun hphase => ?_
        obtain ⟨loop,hloop,-⟩ := cancelInLoop_some h
        simp [TimerLoop.step,hphase,TimerLoop.Phase.calling] at hloop
      have hreturned : decide (timerId ∈ w.returned) = true → timerId ∈ w.returned := of_decide_eq_true
      refine Obeyed.cancelInLoop hw.heeded hp h hreturned (fun hret hrun hmem => ?_) fun hret hrun hmem => ?_
      · exact hl ⟨‹_›,hreturned hret,hrun,.inl hmem⟩
      · exact hl ⟨‹_›,hreturned hret,hrun,.inr hmem⟩
    · split at h <;> cases h
      exact ⟨hw.placed.imp_right fun hp => hp.push of_decide_eq_true,hw.heeded⟩
  | swap =>
    rw [step] at h
    split at h <;> cases h
    rename_i hswap
    exact ⟨hw.placed.imp_right fun hp => hp.swap hswap.2,hw.heeded⟩
  | functor =>
    rw [step] at h
    split at h
    · obtain ⟨⟨f,work⟩,hnext,h⟩ := Option.bind_eq_some_iff.mp h
      exact hw.functor ‹_› hnext h
    · cases h
  | handleRead =>
    rw [step] at h
    split at h
    · obtain ⟨loop,hloop,rfl⟩ := Option.map_eq_some_iff.mp h
      refine hw.loop hloop ?_ ?_ <;> obtain ⟨-,rfl⟩ := TimerLoop.step_handleRead hloop
      · rfl
      · exact le_rfl
    · cases h
  | advance =>
    rw [step] at h
    obtain ⟨loop,hloop,rfl⟩ := Option.map_eq_some_iff.mp h
    have hfields : loop.created = w.loop.created ∧ loop.numCreated = w.loop.numCreated := by
      rcases TimerLoop.advance_cases hloop with ⟨now,expired,id,todo,-,⟨-,rfl⟩ | ⟨-,rfl⟩⟩ | ⟨now,expired,-,rfl⟩ |
        ⟨now,id,todo,-,⟨timer,-,rfl⟩ | ⟨-,rfl⟩⟩ | ⟨now,-,rfl⟩ <;> exact ⟨rfl,rfl⟩
    exact hw.loop hloop hfields.1 hfields.2.ge

theorem initial_obeyed (clock : Clock) : (initial clock).Obeyed :=
  ⟨.inr ⟨TimerLoop.initial_tracked clock,nofun,nofun,nofun,nofun,nofun,.nil⟩,nofun⟩

/-- With any calls of `addTimer` and `cancel` from any threads: a timer whose `cancel` was
called with the returned id and processed before the timer first ran never runs, as long as the
loop thread itself does not cancel a timer that is still to be added or that its batch has
still to run. -/
theorem cancel_takes_effect (clock : Clock) (labels : List Label) (w : TimerThreads)
    (hrun : Run step (initial clock) labels w)
    (hmisses : Along step (fun w l => ¬ w.Misses l) (initial clock) labels) :
    ∀ timerId ∈ w.cancelled, .run timerId ∉ w.loop.trace := by
  have hobeyed : w.Obeyed :=
    hrun.invariant_along (fun _ _ _ hw hl hs => step_obeyed hw hl hs) hmisses (initial_obeyed clock)
  exact fun timerId hid => (hobeyed.heeded timerId hid).notRun

instance (w : TimerThreads) (l : Label) : Decidable (w.Misses l) :=
  match l with
  | .cancel _ _ => inferInstanceAs (Decidable (_ ∧ _ ∧ _ ∧ _))
  | .tick _ | .createElsewhere | .addTimer _ _ _ | .queueInLoop _ | .swap | .functor | .handleRead | .advance =>
    isFalse id

/-- Thread 1 adds a timer and thread 2 cancels it, both through the queue. -/
def cancelQueued : List Label :=
  [.addTimer 1 1000 TimerLoop.once,.queueInLoop 1,.cancel 2 0,.swap,.functor,.functor,.tick 2000,.handleRead,.advance]

theorem cancel_takes_effect_queued :
    ∃ w, exec step (initial TimerLoop.epoch) cancelQueued = some w ∧ 0 ∈ w.cancelled ∧ .run 0 ∉ w.loop.trace := by
  obtain ⟨w,hw⟩ : ∃ w, exec step (initial TimerLoop.epoch) cancelQueued = some w :=
    Option.isSome_iff_exists.mp (by decide +kernel)
  have hcancelled : (exec step (initial TimerLoop.epoch) cancelQueued).map (fun w => decide (0 ∈ w.cancelled)) =
      some true := by decide +kernel
  rw [hw] at hcancelled
  have hmem : 0 ∈ w.cancelled := of_decide_eq_true (Option.some.inj hcancelled)
  exact ⟨w,hw,hmem,cancel_takes_effect TimerLoop.epoch cancelQueued w ((run_iff_exec _ _ _ _).mpr hw)
    (by decide +kernel) 0 hmem⟩

/-- Thread 1 adds a timer and hands its id to the loop thread, which cancels it at once; the
functor of `addTimer` is still in the queue. -/
def cancelAtOnce : List Label :=
  [.addTimer 1 1000 TimerLoop.once,.queueInLoop 1,.cancel 0 0,.swap,.functor,.tick 2000,.handleRead,.advance]

theorem cancel_has_no_effect :
    ¬ ∀ (clock : Clock) (labels : List Label) (w : TimerThreads), Run step (initial clock) labels w →
      ∀ timerId ∈ w.cancelled, .run timerId ∉ w.loop.trace := by
  intro h
  obtain ⟨w,hw⟩ : ∃ w, exec step (initial TimerLoop.epoch) cancelAtOnce = some w :=
    Option.isSome_iff_exists.mp (by decide +kernel)
  have hlast : (exec step (initial TimerLoop.epoch) cancelAtOnce).map
      (fun w => (decide (0 ∈ w.cancelled),decide (.run 0 ∈ w.loop.trace))) = some (true,true) := by decide +kernel
  rw [hw] at hlast
  obtain ⟨hmem,hran⟩ : 0 ∈ w.cancelled ∧ .run 0 ∈ w.loop.trace := by simpa using hlast
  exact h TimerLoop.epoch cancelAtOnce w ((run_iff_exec _ _ _ _).mpr hw) 0 hmem hran

end TimerThreads
end GgLib
