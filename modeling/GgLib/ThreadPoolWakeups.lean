import GgLib.ThreadPool

/-! `ThreadPool` is a bounded queue that loses no wakeup. The invariant ties the waiters of
both condition variables to where the threads stand; a step takes the lock, with the thread
out of both, and goes on from the test of its loop. -/
namespace GgLib

open LabelledSystem

namespace ThreadPool

variable {Task : Type} {w w' : ThreadPool Task} {thread woken : ℕ}

theorem runLoop_cases {task : Task} (h : w.runLoop thread task woken = some w') :
    (w.isFull = true ∧ w.running = true ∧
        w' = { w with notFull := w.notFull.wait thread }.setThread thread (.pushing task)) ∨
      (w.running = false ∧ w' = w.setThread thread .idle) ∨
      (w.isFull = false ∧ w.running = true ∧ ∃ notEmpty, w.notEmpty.notifyOne woken = some notEmpty ∧
        w' = { w with notEmpty, queue := w.queue++[task], accepted := w.accepted++[task] }.setThread thread .idle) := by
  rw [runLoop] at h
  split at h
  · rename_i hboth
    rw [Bool.and_eq_true] at hboth
    exact .inl ⟨hboth.1,hboth.2,(Option.some.inj h).symm⟩
  · rename_i hboth
    split at h
    · rename_i hrunning
      exact .inr (.inl ⟨by simpa using hrunning,(Option.some.inj h).symm⟩)
    · rename_i hrunning
      have hr : w.running = true := by simpa using hrunning
      have hfull : w.isFull = false := by simpa [hr] using hboth
      rw [if_neg (by simp [hfull])] at h
      obtain ⟨notEmpty,hnotify,rfl⟩ := Option.map_eq_some_iff.mp h
      exact .inr (.inr ⟨hfull,hr,notEmpty,hnotify,rfl⟩)

theorem takeLoop_cases (h : w.takeLoop thread woken = some w') :
    (w.queue = [] ∧ w.running = true ∧
        w' = { w with notEmpty := w.notEmpty.wait thread }.setThread thread .taking) ∨
      (w.queue = [] ∧ w.running = false ∧ w' = w.setThread thread .idle) ∨
      (∃ task queue notFull, w.queue = task::queue ∧
        (w.maxQueueSize = 0 ∧ notFull = w.notFull ∨ 0 < w.maxQueueSize ∧ w.notFull.notifyOne woken = some notFull) ∧
        w' = { w with queue, taken := w.taken++[task], notFull }.setThread thread .idle) := by
  rw [takeLoop] at h
  split at h
  · rename_i hqueue
    split at h
    · rename_i hrunning
      exact .inl ⟨hqueue,hrunning,(Option.some.inj h).symm⟩
    · rename_i hrunning
      exact .inr (.inl ⟨hqueue,by simpa using hrunning,(Option.some.inj h).symm⟩)
  · rename_i task queue hqueue
    simp only at h
    split at h
    · rename_i hmax
      obtain ⟨notFull,hnotify,rfl⟩ := Option.map_eq_some_iff.mp h
      exact .inr (.inr ⟨task,queue,notFull,hqueue,.inr ⟨hmax,hnotify⟩,rfl⟩)
    · rename_i hmax
      cases h
      exact .inr (.inr ⟨task,queue,w.notFull,hqueue,.inl ⟨Nat.eq_zero_of_not_pos hmax,rfl⟩,rfl⟩)

@[simp] theorem setThread_setThread (w : ThreadPool Task) (thread : ℕ) (pc pc' : Pc Task) :
    (w.setThread thread pc).setThread thread pc' = w.setThread thread pc' := by
  simp [setThread]

/-- Where the thread stood before does not matter behind the test of its loop. -/
theorem runLoop_setThread (pc : Pc Task) {task : Task} (h : w.runLoop thread task woken = some w') :
    (w.setThread thread pc).runLoop thread task woken = some w' := by
  have hfull : (w.setThread thread pc).isFull = w.isFull := rfl
  rcases runLoop_cases h with ⟨hf,hr,rfl⟩ | ⟨hr,rfl⟩ | ⟨hf,hr,notEmpty,hnotify,rfl⟩
  · rw [runLoop,hfull,hf,if_pos (by simp [setThread,hr])]
    simp [setThread]
  · rw [runLoop,hfull,if_neg (by simp [setThread,hr]),if_pos (by simp [setThread,hr])]
    simp
  · rw [runLoop,hfull,hf,if_neg (by simp),if_neg (by simp [setThread,hr]),if_neg (by simp)]
    simp [setThread,hnotify]

theorem takeLoop_setThread (pc : Pc Task) (h : w.takeLoop thread woken = some w') :
    (w.setThread thread pc).takeLoop thread woken = some w' := by
  have hqueue : (w.setThread thread pc).queue = w.queue := rfl
  rcases takeLoop_cases h with ⟨hq,hr,rfl⟩ | ⟨hq,hr,rfl⟩ | ⟨task,queue,notFull,hq,hnotify,rfl⟩
  · rw [takeLoop,hqueue,hq]
    simp [setThread,hr]
  · rw [takeLoop,hqueue,hq]
    simp [setThread,hr]
  · rw [takeLoop,hqueue,hq]
    rcases hnotify with ⟨hmax,rfl⟩ | ⟨hmax,hnotify⟩
    · simp [setThread,hmax]
    · simp [setThread,hmax,hnotify]

/-- The waiters of both condition variables are the threads inside of `take` and `run`. -/
structure Standing (w : ThreadPool Task) : Prop where
  taking : w.notEmpty.Waits fun t => (w.threads t).isTaking = true
  pushing : w.notFull.Waits fun t => (w.threads t).isPushing = true
  workers : ∀ t, (w.threads t).isTaking = true → t < w.numThreads
  pool : ∀ t, (w.threads t).isPushing = true → w.numThreads ≠ 0

theorem update_of_true {A : Type} {Q : A → Bool} {f : ℕ → A} {a : A} (ha : Q a = true) (t u : ℕ) :
    u = t ∨ Q (f u) = true ↔ Q (Function.update f t a u) = true := by
  by_cases hut : u = t
  · simp [hut,ha]
  · simp [hut]

theorem update_of_false {A : Type} {Q : A → Bool} {f : ℕ → A} {a : A} (ha : Q a = false) (t u : ℕ) :
    u ≠ t ∧ Q (f u) = true ↔ Q (Function.update f t a u) = true := by
  by_cases hut : u = t
  · simp [hut,ha]
  · simp [hut]

theorem update_of_both_false {A : Type} {Q : A → Bool} {f : ℕ → A} {a : A} {t : ℕ} (hf : Q (f t) = false)
    (ha : Q a = false) (u : ℕ) : Q (f u) = true ↔ Q (Function.update f t a u) = true := by
  by_cases hut : u = t
  · simp [hut,hf,ha]
  · simp [hut]

theorem Pc.isTaking_of_idle {pc : Pc Task} (h : pc.isIdle = true) : pc.isTaking = false := by
  cases pc <;> first | rfl | cases h

theorem Pc.isPushing_of_idle {pc : Pc Task} (h : pc.isIdle = true) : pc.isPushing = false := by
  cases pc <;> first | rfl | cases h

theorem Standing.move (h : w.Standing) (hidle : (w.threads thread).isIdle = true) {pc : Pc Task}
    (ht : pc.isTaking = false) (hp : pc.isPushing = false) : (w.setThread thread pc).Standing := by
  have htaking := update_of_both_false (f:=w.threads) (Pc.isTaking_of_idle hidle) ht
  have hpushing := update_of_both_false (f:=w.threads) (Pc.isPushing_of_idle hidle) hp
  exact ⟨h.taking.congr htaking,h.pushing.congr hpushing,fun t hmem => h.workers t ((htaking t).mpr hmem),
    fun t hmem => h.pool t ((hpushing t).mpr hmem)⟩

theorem Standing.sleepTaking (h : w.Standing) (hidle : (w.threads thread).isIdle = true)
    (hworker : thread < w.numThreads) :
    ({ w with notEmpty := w.notEmpty.wait thread }.setThread thread .taking).Standing := by
  have htaking := update_of_true (Q:=Pc.isTaking) (f:=w.threads) (a:=.taking) rfl thread
  have hpushing := update_of_both_false (f:=w.threads) (Pc.isPushing_of_idle hidle) (a:=.taking) rfl
  have hnot : ¬ (w.threads thread).isTaking = true := by simp [Pc.isTaking_of_idle hidle]
  refine ⟨(h.taking.wait hnot).congr htaking,h.pushing.congr hpushing,fun t hmem => ?_,
    fun t hmem => h.pool t ((hpushing t).mpr hmem)⟩
  rcases (htaking t).mpr hmem with rfl | hmem
  · exact hworker
  · exact h.workers t hmem

theorem Standing.sleepPushing (h : w.Standing) (hidle : (w.threads thread).isIdle = true) (hpool : w.numThreads ≠ 0)
    (task : Task) :
    ({ w with notFull := w.notFull.wait thread }.setThread thread (.pushing task)).Standing := by
  have hpushing := update_of_true (Q:=Pc.isPushing) (f:=w.threads) (a:=.pushing task) rfl thread
  have htaking := update_of_both_false (f:=w.threads) (Pc.isTaking_of_idle hidle) (a:=.pushing task) rfl
  have hnot : ¬ (w.threads thread).isPushing = true := by simp [Pc.isPushing_of_idle hidle]
  exact ⟨h.taking.congr htaking,(h.pushing.wait hnot).congr hpushing,
    fun t hmem => h.workers t ((htaking t).mpr hmem),fun _ _ => hpool⟩

theorem Standing.acquireTaking (h : w.Standing) (hthread : w.threads thread = .taking)
    {notEmpty : ConditionVariable ℕ} (hacquire : w.notEmpty.acquire thread = some notEmpty) :
    ({ w with notEmpty }.setThread thread .idle).Standing := by
  have htaking := update_of_false (Q:=Pc.isTaking) (f:=w.threads) (a:=.idle) rfl thread
  have hpushing := update_of_both_false (Q:=Pc.isPushing) (f:=w.threads) (a:=.idle) (by rw [hthread]; rfl) rfl
  exact ⟨(h.taking.acquire hacquire).congr htaking,h.pushing.congr hpushing,
    fun t hmem => h.workers t ((htaking t).mpr hmem).2,fun t hmem => h.pool t ((hpushing t).mpr hmem)⟩

theorem Standing.acquirePushing (h : w.Standing) {task : Task} (hthread : w.threads thread = .pushing task)
    {notFull : ConditionVariable ℕ} (hacquire : w.notFull.acquire thread = some notFull) :
    ({ w with notFull }.setThread thread .idle).Standing := by
  have hpushing := update_of_false (Q:=Pc.isPushing) (f:=w.threads) (a:=.idle) rfl thread
  have htaking := update_of_both_false (Q:=Pc.isTaking) (f:=w.threads) (a:=.idle) (by rw [hthread]; rfl) rfl
  exact ⟨h.taking.congr htaking,(h.pushing.acquire hacquire).congr hpushing,
    fun t hmem => h.workers t ((htaking t).mpr hmem),fun t hmem => h.pool t ((hpushing t).mpr hmem).2⟩

theorem Standing.notify (h : w.Standing) {notEmpty notFull : ConditionVariable ℕ}
    (hempty : notEmpty.waiters.Perm w.notEmpty.waiters) (hfull : notFull.waiters.Perm w.notFull.waiters) :
    Standing { w with notEmpty, notFull } :=
  ⟨h.taking.perm hempty,h.pushing.perm hfull,h.workers,h.pool⟩

theorem Standing.runLoop (h : w.Standing) (hidle : (w.threads thread).isIdle = true) (hpool : w.numThreads ≠ 0)
    {task : Task} (hrun : w.runLoop thread task woken = some w') : w'.Standing := by
  rcases runLoop_cases hrun with ⟨-,-,rfl⟩ | ⟨-,rfl⟩ | ⟨-,-,notEmpty,hnotify,rfl⟩
  · exact h.sleepPushing hidle hpool task
  · exact h.move hidle rfl rfl
  · have htaking : (Pc.idle : Pc Task).isTaking = false := rfl
    have h' := (h.notify (ConditionVariable.waiters_notifyOne hnotify) (.refl _)).move hidle htaking rfl
    exact ⟨h'.taking,h'.pushing,h'.workers,h'.pool⟩

theorem Standing.takeLoop (h : w.Standing) (hidle : (w.threads thread).isIdle = true) (hworker : thread < w.numThreads)
    (htake : w.takeLoop thread woken = some w') : w'.Standing := by
  rcases takeLoop_cases htake with ⟨-,-,rfl⟩ | ⟨-,-,rfl⟩ | ⟨task,queue,notFull,-,hnotify,rfl⟩
  · exact h.sleepTaking hidle hworker
  · exact h.move hidle rfl rfl
  · have hperm : notFull.waiters.Perm w.notFull.waiters := by
      rcases hnotify with ⟨-,rfl⟩ | ⟨-,hnotify⟩
      · exact .refl _
      · exact ConditionVariable.waiters_notifyOne hnotify
    have h' := (h.notify (.refl _) hperm).move hidle (show (Pc.idle : Pc Task).isTaking = false from rfl) rfl
    exact ⟨h'.taking,h'.pushing,h'.workers,h'.pool⟩

/-- The tasks, and the wakeups on their way: with `slack` there is a woken `run` that has the
lock and has not taken its place in the queue yet. -/
structure Lossless (w : ThreadPool Task) (slack : ℕ) : Prop where
  fifo : w.taken++w.queue = w.accepted
  bound : 0 < w.maxQueueSize → w.queue.length ≤ w.maxQueueSize
  asserted : w.aborted = false
  consumer : w.running = true → w.queue ≠ [] → ∃ worker < w.numThreads, worker ∉ w.notEmpty.asleep
  producer : w.running = true → w.notFull.asleep ≠ [] →
    w.maxQueueSize ≤ w.queue.length+w.notFull.woken.length+slack

theorem Lossless.weaken (h : w.Lossless 0) (slack : ℕ) : w.Lossless slack :=
  ⟨h.fifo,h.bound,h.asserted,h.consumer,fun hr ha => Nat.le_add_right_of_le (h.producer hr ha)⟩

theorem Lossless.runLoop (hs : w.Standing) (h : w.Lossless 1) (hpool : w.numThreads ≠ 0) {task : Task}
    (hrun : w.runLoop thread task woken = some w') : w'.Lossless 0 := by
  rcases runLoop_cases hrun with ⟨hfull,-,rfl⟩ | ⟨hr,rfl⟩ | ⟨hfull,-,notEmpty,hnotify,rfl⟩
  · refine ⟨h.fifo,h.bound,h.asserted,h.consumer,fun _ _ => ?_⟩
    simp only [isFull,Bool.and_eq_true,decide_eq_true_eq] at hfull
    exact Nat.le_add_right_of_le (Nat.le_add_right_of_le hfull.2)
  · refine ⟨h.fifo,h.bound,h.asserted,h.consumer,fun hr' => ?_⟩
    exact absurd (hr.symm.trans hr') (by simp)
  · refine ⟨?_,fun hmax => ?_,h.asserted,fun _ _ => ?_,fun hr ha => ?_⟩
    · show w.taken++(w.queue++[task]) = w.accepted++[task]
      rw [← List.append_assoc,h.fifo]
    · have hroom : w.queue.length < w.maxQueueSize := by
        have hmax' : 0 < w.maxQueueSize := hmax
        simpa [isFull,hmax'] using hfull
      show (w.queue++[task]).length ≤ w.maxQueueSize
      rw [List.length_append]
      exact hroom
    · show ∃ worker < w.numThreads, worker ∉ notEmpty.asleep
      rcases ConditionVariable.notifyOne_some hnotify with ⟨hnone,rfl⟩ | ⟨-,hwake⟩
      · exact ⟨0,Nat.pos_of_ne_zero hpool,by simp [hnone]⟩
      · have hasleep := (ConditionVariable.wake_some hwake).1
        have htaking := (hs.taking.mem woken).mp (ConditionVariable.mem_waiters_of_asleep hasleep)
        exact ⟨woken,hs.workers woken htaking,ConditionVariable.notMem_asleep_of_wake hs.taking.nodup hwake⟩
    · have hproducer := h.producer hr ha
      show w.maxQueueSize ≤ (w.queue++[task]).length+w.notFull.woken.length+0
      rw [List.length_append,List.length_singleton]
      omega

theorem Lossless.takeLoop (hs : w.Standing) (h : w.Lossless 0) (hidle : (w.threads thread).isIdle = true)
    (hworker : thread < w.numThreads) (htake : w.takeLoop thread woken = some w') : w'.Lossless 0 := by
  rcases takeLoop_cases htake with ⟨hq,-,rfl⟩ | ⟨-,hr,rfl⟩ | ⟨task,queue,notFull,hq,hnotify,rfl⟩
  · exact ⟨h.fifo,h.bound,h.asserted,fun _ hne => absurd hq hne,h.producer⟩
  · exact ⟨h.fifo,h.bound,h.asserted,h.consumer,h.producer⟩
  · refine ⟨?_,fun hmax => ?_,h.asserted,fun _ _ => ⟨thread,hworker,fun hasleep => ?_⟩,fun hr ha => ?_⟩
    · have hfifo := h.fifo
      rw [hq] at hfifo
      show w.taken++[task]++queue = w.accepted
      rw [← hfifo,List.append_assoc]
      rfl
    · have hbound := h.bound hmax
      rw [hq,List.length_cons] at hbound
      show queue.length ≤ w.maxQueueSize
      omega
    · have htaking := (hs.taking.mem thread).mp (ConditionVariable.mem_waiters_of_asleep hasleep)
      rw [Pc.isTaking_of_idle hidle] at htaking
      cases htaking
    · show w.maxQueueSize ≤ queue.length+notFull.woken.length+0
      have ha' : notFull.asleep ≠ [] := ha
      rcases hnotify with ⟨hmax,-⟩ | ⟨-,hnotify⟩
      · omega
      · rcases ConditionVariable.notifyOne_some hnotify with ⟨hnone,rfl⟩ | ⟨hsome,hwake⟩
        · exact absurd hnone ha'
        · have hproducer := h.producer hr hsome
          have hwoken := (ConditionVariable.wake_some hwake).2.2.1
          rw [hq,List.length_cons] at hproducer
          omega

/-- What every step keeps. -/
structure Sound (w : ThreadPool Task) : Prop where
  standing : w.Standing
  lossless : w.Lossless 0

theorem start_sound (numThreads maxQueueSize : ℕ) : (start numThreads maxQueueSize : ThreadPool Task).Sound where
  standing :=
    ⟨ConditionVariable.waits_empty.congr fun _ => by simp [start,Pc.isTaking],
      ConditionVariable.waits_empty.congr fun _ => by simp [start,Pc.isPushing],
      fun _ h => (by cases h),fun _ h => (by cases h)⟩
  lossless := ⟨rfl,fun _ => Nat.zero_le _,rfl,fun _ h => absurd rfl h,fun _ h => absurd rfl h⟩

/-- A woken thread goes on from the test of its loop. -/
theorem Sound.resume (h : w.Sound) (hresume : w.resume thread woken = some w') : w'.Sound := by
  rw [ThreadPool.resume] at hresume
  cases hthread : w.threads thread with
  | idle => simp [hthread] at hresume
  | finished => simp [hthread] at hresume
  | taking =>
    rw [hthread] at hresume
    obtain ⟨notEmpty,hacquire,htake⟩ := Option.bind_eq_some_iff.mp hresume
    have hs := h.standing.acquireTaking hthread hacquire
    have htake := takeLoop_setThread .idle htake
    have hidle : (({ w with notEmpty }.setThread thread .idle).threads thread).isIdle = true := by
      simp [setThread,Pc.isIdle]
    have hworker : thread < w.numThreads := h.standing.workers thread (by rw [hthread]; rfl)
    have hasleep := (ConditionVariable.acquire_some hacquire).1
    have hl : ({ w with notEmpty }.setThread thread .idle).Lossless 0 := by
      refine ⟨h.lossless.fifo,h.lossless.bound,h.lossless.asserted,fun hr hq => ?_,h.lossless.producer⟩
      show ∃ worker < w.numThreads, worker ∉ notEmpty.asleep
      rw [hasleep]
      exact h.lossless.consumer hr hq
    exact ⟨hs.takeLoop hidle hworker htake,hl.takeLoop hs hidle hworker htake⟩
  | pushing task =>
    rw [hthread] at hresume
    obtain ⟨notFull,hacquire,hrun⟩ := Option.bind_eq_some_iff.mp hresume
    have hs := h.standing.acquirePushing hthread hacquire
    have hrun := runLoop_setThread .idle hrun
    have hidle : (({ w with notFull }.setThread thread .idle).threads thread).isIdle = true := by
      simp [setThread,Pc.isIdle]
    have hpool : w.numThreads ≠ 0 := h.standing.pool thread (by rw [hthread]; rfl)
    obtain ⟨hasleep,hwoken,-⟩ := ConditionVariable.acquire_some hacquire
    have hl : ({ w with notFull }.setThread thread .idle).Lossless 1 := by
      refine ⟨h.lossless.fifo,h.lossless.bound,h.lossless.asserted,h.lossless.consumer,fun hr ha => ?_⟩
      have hsome : notFull.asleep ≠ [] := ha
      rw [hasleep] at hsome
      have hproducer := h.lossless.producer hr hsome
      show w.maxQueueSize ≤ w.queue.length+notFull.woken.length+1
      omega
    exact ⟨hs.runLoop hidle hpool hrun,hl.runLoop hs hpool hrun⟩

theorem Sound.wake (h : w.Sound) (hwake : w.wake thread = some w') : w'.Sound := by
  rw [ThreadPool.wake] at hwake
  split at hwake
  · obtain ⟨notEmpty,hcv,rfl⟩ := Option.map_eq_some_iff.mp hwake
    obtain ⟨-,hasleep,-,hperm⟩ := ConditionVariable.wake_some hcv
    refine ⟨h.standing.notify hperm (.refl _),h.lossless.fifo,h.lossless.bound,h.lossless.asserted,fun hr hq => ?_,
      h.lossless.producer⟩
    obtain ⟨worker,hworker,hnot⟩ := h.lossless.consumer hr hq
    refine ⟨worker,hworker,fun hmem => hnot ?_⟩
    have hmem' : worker ∈ notEmpty.asleep := hmem
    rw [hasleep] at hmem'
    exact List.mem_of_mem_erase hmem'
  · obtain ⟨notFull,hcv,rfl⟩ := Option.map_eq_some_iff.mp hwake
    obtain ⟨hmem,-,hwoken,hperm⟩ := ConditionVariable.wake_some hcv
    refine ⟨h.standing.notify (.refl _) hperm,h.lossless.fifo,h.lossless.bound,h.lossless.asserted,h.lossless.consumer,
      fun hr _ => ?_⟩
    have hproducer := h.lossless.producer hr (List.ne_nil_of_mem hmem)
    show w.maxQueueSize ≤ w.queue.length+notFull.woken.length+0
    omega
  · cases hwake
  · cases hwake

theorem step_sound {label : Label Task} (h : w.Sound) (hstep : step w label = some w') : w'.Sound := by
  cases label with
  | run thread task woken =>
    simp only [step] at hstep
    split at hstep
    · rename_i hidle
      split at hstep
      · cases hstep
        exact h
      · rename_i hpool
        exact ⟨h.standing.runLoop hidle hpool hstep,(h.lossless.weaken 1).runLoop h.standing hpool hstep⟩
    · cases hstep
  | take thread woken =>
    simp only [step] at hstep
    split at hstep
    · rename_i hidle
      exact ⟨h.standing.takeLoop hidle.2 hidle.1 hstep,h.lossless.takeLoop h.standing hidle.2 hidle.1 hstep⟩
    · cases hstep
  | resume thread woken => exact h.resume hstep
  | wake thread => exact h.wake hstep
  | leave thread =>
    simp only [step] at hstep
    split at hstep
    · rename_i hleave
      cases hstep
      have hl := h.lossless
      exact ⟨h.standing.move hleave.2.1 rfl rfl,hl.fifo,hl.bound,hl.asserted,hl.consumer,hl.producer⟩
    · cases hstep
  | stop =>
    cases hstep
    have hs := h.standing.notify w.notEmpty.waiters_notifyAll w.notFull.waiters_notifyAll
    exact ⟨⟨hs.taking,hs.pushing,hs.workers,hs.pool⟩,h.lossless.fifo,h.lossless.bound,h.lossless.asserted,
      fun hr => (by cases hr),fun hr => (by cases hr)⟩

/-- No step changes how the pool was set up. -/
def SetUp (numThreads maxQueueSize : ℕ) (w : ThreadPool Task) : Prop :=
  w.numThreads = numThreads ∧ w.maxQueueSize = maxQueueSize

theorem runLoop_setUp {task : Task} (h : w.runLoop thread task woken = some w') :
    w'.SetUp w.numThreads w.maxQueueSize := by
  rcases runLoop_cases h with ⟨-,-,rfl⟩ | ⟨-,rfl⟩ | ⟨-,-,notEmpty,-,rfl⟩ <;> exact ⟨rfl,rfl⟩

theorem takeLoop_setUp (h : w.takeLoop thread woken = some w') : w'.SetUp w.numThreads w.maxQueueSize := by
  rcases takeLoop_cases h with ⟨-,-,rfl⟩ | ⟨-,-,rfl⟩ | ⟨task,queue,notFull,-,-,rfl⟩ <;> exact ⟨rfl,rfl⟩

theorem step_setUp {label : Label Task} (h : step w label = some w') : w'.SetUp w.numThreads w.maxQueueSize := by
  cases label with
  | run thread task woken =>
    simp only [step] at h
    split at h
    · split at h
      · cases h
        exact ⟨rfl,rfl⟩
      · exact runLoop_setUp h
    · cases h
  | take thread woken =>
    simp only [step] at h
    split at h
    · exact takeLoop_setUp h
    · cases h
  | resume thread woken =>
    simp only [step,ThreadPool.resume] at h
    split at h
    · obtain ⟨notEmpty,-,h⟩ := Option.bind_eq_some_iff.mp h
      have hset := takeLoop_setUp h
      exact hset
    · obtain ⟨notFull,-,h⟩ := Option.bind_eq_some_iff.mp h
      have hset := runLoop_setUp h
      exact hset
    · cases h
    · cases h
  | wake thread =>
    simp only [step,ThreadPool.wake] at h
    split at h
    · obtain ⟨notEmpty,-,rfl⟩ := Option.map_eq_some_iff.mp h
      exact ⟨rfl,rfl⟩
    · obtain ⟨notFull,-,rfl⟩ := Option.map_eq_some_iff.mp h
      exact ⟨rfl,rfl⟩
    · cases h
    · cases h
  | leave thread =>
    simp only [step] at h
    split at h
    · cases h
      exact ⟨rfl,rfl⟩
    · cases h
  | stop =>
    cases h
    exact ⟨rfl,rfl⟩

/-- In every run of any number of workers and of threads that call `run`, with spontaneous
wakeups and `stop`: the queue never holds more than `maxQueueSize_` tasks and the assertion in
`run` holds; what was taken and what is queued are the accepted tasks in their order; and
while `running_`, some worker is not asleep when there is a task, and when a `run` is asleep
the free places do not exceed the woken ones. -/
theorem bounded_queue {numThreads maxQueueSize : ℕ} {labels : List (Label Task)} {w : ThreadPool Task}
    (h : Run step (start numThreads maxQueueSize) labels w) :
    (0 < maxQueueSize → w.queue.length ≤ maxQueueSize) ∧ w.aborted = false ∧ w.taken++w.queue = w.accepted ∧
      (w.running = true →
        (w.queue ≠ [] → ∃ worker < numThreads, worker ∉ w.notEmpty.asleep) ∧
        (w.notFull.asleep ≠ [] → maxQueueSize-w.queue.length ≤ w.notFull.woken.length)) := by
  have hsound : w.Sound := h.invariant (fun _ _ _ hs hstep => step_sound hs hstep) (start_sound _ _)
  have hsetUp : w.SetUp numThreads maxQueueSize := by
    refine h.invariant (I:=SetUp numThreads maxQueueSize) (fun s label t hs hstep => ?_) ⟨rfl,rfl⟩
    obtain ⟨hthreads,hmax⟩ := step_setUp hstep
    exact ⟨hthreads.trans hs.1,hmax.trans hs.2⟩
  obtain ⟨rfl,rfl⟩ := hsetUp
  have hl := hsound.lossless
  refine ⟨hl.bound,hl.asserted,hl.fifo,fun hr => ⟨hl.consumer hr,fun ha => ?_⟩⟩
  have hproducer := hl.producer hr ha
  omega

/-- Two workers and a queue of one place: a second `run` sleeps until the first task is taken. -/
def crowded : List (Label ℕ) :=
  [.take 0 0,.take 1 0,.run 2 7 0,.run 2 8 0,.resume 0 2,.resume 2 1,.resume 1 0,.stop]

theorem bounded_queue_crowded :
    ∃ w : ThreadPool ℕ, exec step (start 2 1) crowded = some w ∧ w.taken++w.queue = w.accepted := by
  obtain ⟨w,hw⟩ : ∃ w, exec step (start 2 1) crowded = some w := Option.isSome_iff_exists.mp (by decide +kernel)
  exact ⟨w,hw,(bounded_queue ((run_iff_exec _ _ _ _).mpr hw)).2.2.1⟩

end ThreadPool
end GgLib
