import GgLib.PollEntries
import Mathlib.Data.List.Nodup
import Mathlib.Data.List.Perm.Subperm
import Mathlib.Algebra.Group.Nat.Defs

/-! Rounds of `poll` with both pollers over the same channels: what each hands to the event loop, and the array
`events_` that `EPollPoller` doubles when `epoll_wait` has filled it. -/
namespace GgLib

open LabelledSystem

namespace Channel

/-- Of the events of a descriptor the kernel reports those that are asked for, and errors and hang-ups. -/
def reportable (ready events : BitVec 32) : BitVec 32 := ready &&& (events ||| (POLLERR ||| POLLHUP))

theorem Settable.reportable_short {events : BitVec 32} (h : Settable events) (ready : BitVec 32) :
    ((reportable ready events).setWidth 16).signExtend 32 = reportable ready events ∧
      0 ≤ ((reportable ready events).setWidth 16).toInt := by
  have hmask : (events ||| (POLLERR ||| POLLHUP)).toNat < 32 := by
    rcases h with rfl | rfl | rfl | rfl <;> decide
  have hlt : (reportable ready events).toNat < 32 := by
    rw [reportable,BitVec.toNat_and]
    exact lt_of_le_of_lt Nat.and_le_right hmask
  have hall : ∀ n : Fin 32, ((BitVec.ofNat 32 n).setWidth 16).signExtend 32 = BitVec.ofNat 32 n ∧
      0 ≤ ((BitVec.ofNat 32 n).setWidth 16).toInt := by
    decide
  have hone := hall ⟨_,hlt⟩
  rwa [BitVec.ofNat_toNat,BitVec.setWidth_eq] at hone

end Channel

namespace EPollPoller

def kInitEventListSize : ℕ := 64

/-- The channels of the first `numEvents` entries of `events_`, with their `revents_`. -/
def fillActiveChannels (p : EPollPoller) (entries : List (ℕ × BitVec 32)) : Option (List (ℕ × BitVec 32)) :=
  if ∀ x ∈ entries, p.channels x.1 = true then some entries else none

/-- `poll`, with the size of `events_` and what `epoll_wait` has stored there. -/
def poll (p : EPollPoller) (size : ℕ) (entries : List (ℕ × BitVec 32)) : Option (List (ℕ × BitVec 32) × ℕ) :=
  if 0 < entries.length then
    (p.fillActiveChannels entries).map fun active => (active,if entries.length = size then size*2 else size)
  else some ([],size)

/-- What `epoll_wait` may store: descriptors of the set, each once and with its events, and all of them unless there is
no room. -/
structure Stores (p : EPollPoller) (maxevents : ℕ) (ready : ℕ → BitVec 32) (entries : List (ℕ × BitVec 32)) : Prop where
  nodup : (entries.map Prod.fst).Nodup
  entry : ∀ fd r, (fd,r) ∈ entries →
    r ≠ 0#32 ∧ ∃ events, p.kernel fd = some events ∧ r = Channel.reportable (ready fd) events
  bounded : entries.length ≤ maxevents
  complete : entries.length < maxevents → ∀ fd events, p.kernel fd = some events →
    Channel.reportable (ready fd) events ≠ 0#32 → (fd,Channel.reportable (ready fd) events) ∈ entries

end EPollPoller

namespace PollPoller

/-- What `poll` fills in for the entries. -/
def answer (p : PollPoller) (ready : ℕ → BitVec 32) (i : ℕ) : BitVec 16 :=
  match p.pollfds[i]? with
  | some pfd =>
    if pfd.fd < 0 then 0#16 else (Channel.reportable (ready pfd.fd.toNat) (pfd.events.signExtend 32)).setWidth 16
  | none => 0#16

def poll (p : PollPoller) (ready : ℕ → BitVec 32) : Option (List (ℕ × BitVec 32) × PollPoller) :=
  let p := p.fill (p.answer ready)
  (p.fillActiveChannels p.reported.length).map fun active => (active,p)

end PollPoller

/-- `size` is that of `events_`, and the lists are the `activeChannels_` of the last round with either poller. The last
two fields record the rounds in which `EPollPoller` handed over less, and the most that was ever ready. -/
structure PollRounds where
  pollers : Pollers
  size : ℕ
  epollActive : List (ℕ × BitVec 32)
  pollActive : List (ℕ × BitVec 32)
  missed : ℕ
  peak : ℕ

namespace PollRounds

/-- A call on a channel, a round with what is ready and what `epoll_wait` stores, or one that a signal ends. -/
inductive Label
  | call (call : Pollers.Call)
  | poll (ready : ℕ → BitVec 32) (entries : List (ℕ × BitVec 32))
  | interrupted

def create : PollRounds := ⟨.create,EPollPoller.kInitEventListSize,[],[],0,0⟩

variable (s : PollRounds)

def step : Label → Option PollRounds
  | .call call => (s.pollers.step call).map fun pollers => { s with pollers }
  | .poll ready entries =>
    match s.pollers.epoll.poll s.size entries, s.pollers.poll.poll ready with
    | some (epollActive,size), some (pollActive,poll) =>
      some
        { pollers := { s.pollers with poll }
          size
          epollActive
          pollActive
          missed := if epollActive.length < pollActive.length then s.missed+1 else s.missed
          peak := max s.peak pollActive.length }
    | _, _ => none
  | .interrupted => some { s with epollActive := [], pollActive := [] }

/-- The calls are those under which the pollers agree, and the kernel does what it should. -/
def Fair : Label → Prop
  | .call call => s.pollers.Good call
  | .poll ready entries => s.pollers.epoll.Stores s.size ready entries
  | .interrupted => True

end PollRounds

namespace PollPoller

variable {events : ℕ → BitVec 32} {p : PollPoller}

theorem Indexed.answer_index (h : Indexed (slotOf events) events p) (hshort : ∀ fd, Channel.Settable (events fd))
    (ready : ℕ → BitVec 32) {fd : ℕ} (hreg : p.channels fd = true) : p.answer ready (p.index fd).toNat =
      if events fd = Channel.kNoneEvent then 0#16 else (Channel.reportable (ready fd) (events fd)).setWidth 16 := by
  obtain ⟨i,pfd,hi,hpfd,hslot,hevents⟩ := h.entry fd hreg
  rw [hi,Int.toNat_natCast,answer,hpfd]
  simp only
  rw [hslot,hevents,(hshort fd).short,slotOf]
  by_cases hnone : events fd = Channel.kNoneEvent
  · rw [if_pos hnone,if_pos hnone,if_pos (by omega)]
  · rw [if_neg hnone,if_neg hnone,if_neg (by omega),Int.toNat_natCast]

theorem Indexed.answer_fillable (h : Indexed (slotOf events) events p) (hshort : ∀ fd, Channel.Settable (events fd))
    (ready : ℕ → BitVec 32) : p.Fillable (p.answer ready) := by
  intro i pfd hpfd
  refine ⟨fun hneg => by simp [answer,hpfd,hneg],?_⟩
  obtain ⟨fd,hreg,hi⟩ := h.owner i pfd hpfd
  have hanswer := h.answer_index hshort ready hreg
  rw [hi,Int.toNat_natCast] at hanswer
  rw [hanswer]
  split
  · decide
  · exact ((hshort fd).reportable_short (ready fd)).2

/-- `poll` hands over each registered channel with an interest that is ready for something. -/
theorem Indexed.poll (h : Indexed (slotOf events) events p) (hshort : ∀ fd, Channel.Settable (events fd))
    (ready : ℕ → BitVec 32) :
    ∃ active, p.poll ready = some (active,p.fill (p.answer ready)) ∧ (active.map Prod.fst).Nodup ∧
      ∀ fd r, (fd,r) ∈ active ↔ p.channels fd = true ∧ events fd ≠ Channel.kNoneEvent ∧ r ≠ 0#32 ∧
        r = Channel.reportable (ready fd) (events fd) := by
  obtain ⟨active,hactive,hnodup,hmem⟩ := h.fillActiveChannels (h.answer_fillable hshort ready)
  refine ⟨active,by rw [PollPoller.poll,hactive,Option.map_some],hnodup,fun fd r => ?_⟩
  rw [hmem]
  refine and_congr_right fun hreg => ?_
  have hshort' := ((hshort fd).reportable_short (ready fd)).1
  rw [h.answer_index hshort ready hreg]
  by_cases hnone : events fd = Channel.kNoneEvent
  · simp [hnone]
  · have hzero : (Channel.reportable (ready fd) (events fd)).setWidth 16 = 0#16 ↔
        Channel.reportable (ready fd) (events fd) = 0#32 := by
      constructor
      · intro hz
        rw [← hshort',hz]
        decide
      · intro hz
        rw [hz]
        decide
    rw [if_neg hnone,hshort',ne_eq,hzero]
    constructor
    · rintro ⟨hne,rfl⟩
      exact ⟨hnone,hne,rfl⟩
    · rintro ⟨-,hne,rfl⟩
      exact ⟨hne,rfl⟩

end PollPoller

namespace EPollPoller

variable {events : ℕ → BitVec 32} {p : EPollPoller}

theorem Consistent.poll (h : p.Consistent events) {size : ℕ} {ready : ℕ → BitVec 32} {entries : List (ℕ × BitVec 32)}
    (hstores : p.Stores size ready entries) :
    p.poll size entries = some (entries,if 0 < entries.length ∧ entries.length = size then size*2 else size) := by
  have hall : ∀ x ∈ entries, p.channels x.1 = true := by
    intro x hx
    obtain ⟨-,events',hkernel,-⟩ := hstores.entry x.1 x.2 hx
    have hwatched : (x.1,events') ∈ p.watched := hkernel
    exact (h.mem_watched.mp hwatched).1
  rw [EPollPoller.poll]
  by_cases hpos : 0 < entries.length
  · simp only [hpos,if_true,true_and,fillActiveChannels,if_pos hall,Option.map_some]
  · have hempty : entries = [] := List.eq_nil_of_length_eq_zero (by omega)
    simp [hempty]

end EPollPoller

namespace Pollers

/-- A round: `EPollPoller` hands over channels that `PollPoller` hands over too, with the same events, and all of them
unless `events_` is full. -/
theorem Consistent.round {s : Pollers} (h : s.Consistent) {size : ℕ} {ready : ℕ → BitVec 32}
    {entries : List (ℕ × BitVec 32)} (hstores : s.epoll.Stores size ready entries) :
    ∃ active poll, s.poll.poll ready = some (active,poll) ∧ Consistent { s with poll } ∧
      (active.map Prod.fst).Nodup ∧ entries ⊆ active ∧ (entries.length < size → active ⊆ entries) := by
  obtain ⟨active,hpoll,hnodup,hmem⟩ := h.poll.poll h.settable ready
  refine ⟨active,_,hpoll,?_,hnodup,?_,?_⟩
  · exact ⟨h.epoll,h.poll.fill _,h.epollChannels,h.pollChannels,h.idle,h.fresh,h.stale,h.settable⟩
  · rintro ⟨fd,r⟩ hx
    obtain ⟨hne,events',hkernel,rfl⟩ := hstores.entry fd r hx
    obtain ⟨hreg,hsome,rfl⟩ := h.epoll.mem_watched.mp hkernel
    refine (hmem fd _).mpr ⟨?_,hsome,hne,rfl⟩
    rw [h.pollChannels,← h.epollChannels,hreg]
  · rintro hroom ⟨fd,r⟩ hx
    obtain ⟨hreg,hsome,hne,rfl⟩ := (hmem fd r).mp hx
    refine hstores.complete hroom fd (s.events fd) (h.epoll.mem_watched.mpr ⟨?_,hsome,rfl⟩) hne
    rw [h.epollChannels,← h.pollChannels,hreg]

end Pollers

namespace PollRounds

variable {s s' : PollRounds}

/-- The invariant: `events_` has been doubled at each round in which something was missing, and only when it was
full. -/
structure Sound (s : PollRounds) : Prop where
  consistent : s.pollers.Consistent
  active : s.epollActive.Subperm s.pollActive
  nodup : (s.pollActive.map Prod.fst).Nodup
  room : EPollPoller.kInitEventListSize*2^s.missed ≤ s.size
  missed : 0 < s.missed → EPollPoller.kInitEventListSize*2^(s.missed-1) < s.peak
  size : s.size ≤ max EPollPoller.kInitEventListSize (s.peak*2)

theorem create_sound : create.Sound where
  consistent := Pollers.create_consistent
  active := List.Subperm.refl _
  nodup := List.nodup_nil
  room := by decide
  missed h := absurd h (Nat.lt_irrefl 0)
  size := by decide

theorem Sound.sizes (h : s.Sound) {handed active : ℕ} (hle : handed ≤ active) (hbounded : handed ≤ s.size)
    (hcomplete : handed < s.size → handed = active) {size missed : ℕ}
    (hsize : size = if 0 < handed ∧ handed = s.size then s.size*2 else s.size)
    (hmissed : missed = if handed < active then s.missed+1 else s.missed) :
    EPollPoller.kInitEventListSize*2^missed ≤ size ∧
      (0 < missed → EPollPoller.kInitEventListSize*2^(missed-1) < max s.peak active) ∧
      size ≤ max EPollPoller.kInitEventListSize (max s.peak active*2) := by
  obtain ⟨-,-,-,hroom,hpeak,hsmall⟩ := h
  have hinit : 0 < s.size := lt_of_lt_of_le (Nat.mul_pos (by decide) (Nat.two_pow_pos _)) hroom
  by_cases hless : handed < active
  · have hfull : handed = s.size := by
      by_contra hne
      have := hcomplete (by omega)
      omega
    rw [if_pos ⟨by omega,hfull⟩] at hsize
    rw [if_pos hless] at hmissed
    subst hsize hmissed
    have hlt : EPollPoller.kInitEventListSize*2^s.missed < active := lt_of_le_of_lt hroom (by omega)
    refine ⟨?_,fun _ => ?_,?_⟩
    · rw [Nat.pow_succ,← Nat.mul_assoc]
      exact Nat.mul_le_mul_right 2 hroom
    · rw [Nat.add_sub_cancel]
      exact lt_of_lt_of_le hlt (le_max_right _ _)
    · omega
  · rw [if_neg hless] at hmissed
    subst hmissed
    have hpeak' : 0 < s.missed → EPollPoller.kInitEventListSize*2^(s.missed-1) < max s.peak active :=
      fun hpos => lt_of_lt_of_le (hpeak hpos) (le_max_left _ _)
    by_cases hfull : 0 < handed ∧ handed = s.size
    · rw [if_pos hfull] at hsize
      subst hsize
      exact ⟨by omega,hpeak',by omega⟩
    · rw [if_neg hfull] at hsize
      subst hsize
      exact ⟨hroom,hpeak',by omega⟩

theorem Sound.step (h : s.Sound) {a : Label} (hfair : s.Fair a) : ∃ s', step s a = some s' ∧ s'.Sound := by
  cases a with
  | call call =>
    obtain ⟨pollers,hstep,hconsistent⟩ := Pollers.step_good h.consistent hfair
    exact ⟨{ s with pollers },by rw [PollRounds.step,hstep,Option.map_some],hconsistent,h.active,h.nodup,h.room,
      h.missed,h.size⟩
  | poll ready entries =>
    obtain ⟨active,poll,hpoll,hconsistent,hnodup,hsub,hall⟩ := h.consistent.round hfair
    have hepoll := h.consistent.epoll.poll hfair
    have hentries : entries.Nodup := hfair.nodup.of_map _
    have hsubperm : entries.Subperm active := List.subperm_of_subset hentries hsub
    have hcomplete : entries.length < s.size → entries.length = active.length := fun hroom =>
      Nat.le_antisymm hsubperm.length_le (List.subperm_of_subset (hnodup.of_map _) (hall hroom)).length_le
    obtain ⟨hroom,hmissed,hsize⟩ := h.sizes hsubperm.length_le hfair.bounded hcomplete rfl rfl
    have hstep : PollRounds.step s (.poll ready entries) = some
        { pollers := { s.pollers with poll }
          size := if 0 < entries.length ∧ entries.length = s.size then s.size*2 else s.size
          epollActive := entries
          pollActive := active
          missed := if entries.length < active.length then s.missed+1 else s.missed
          peak := max s.peak active.length } := by
      simp only [PollRounds.step,hepoll,hpoll]
    exact ⟨_,hstep,hconsistent,hsubperm,hnodup,hroom,hmissed,hsize⟩
  | interrupted => exact ⟨_,rfl,h.consistent,List.Subperm.refl _,List.nodup_nil,h.room,h.missed,h.size⟩

theorem run_sound {labels : List Label} (h : Run step create labels s) (hfair : Along step Fair create labels) :
    s.Sound := by
  refine h.invariant_along (fun s a s' hs ha hstep => ?_) hfair create_sound
  obtain ⟨t,ht,hsound⟩ := hs.step ha
  rw [Option.some.inj (hstep.symm.trans ht)]
  exact hsound

/-- For every sequence of calls on channels, of rounds with anything ready and of signals: no step of either poller
fails, and what `EPollPoller` hands over is, with the same events, among what `PollPoller` hands over, each channel
once. Whatever the kernel chooses to leave out, it is less in at most `1+log₂ (peak/64)` of all rounds, and `events_`
never grows beyond twice the most that was ready. -/
theorem epoll_misses_few {labels : List Label} (h : Run step create labels s)
    (hfair : Along step Fair create labels) :
    (∀ a, s.Fair a → (step s a).isSome) ∧ s.epollActive.Subperm s.pollActive ∧ (s.pollActive.map Prod.fst).Nodup ∧
      (0 < s.missed → EPollPoller.kInitEventListSize*2^(s.missed-1) < s.peak) ∧
      s.size ≤ max EPollPoller.kInitEventListSize (s.peak*2) := by
  have hsound := run_sound h hfair
  refine ⟨fun a ha => ?_,hsound.active,hsound.nodup,hsound.missed,hsound.size⟩
  obtain ⟨s',hs',-⟩ := hsound.step ha
  rw [hs']
  rfl

def writable : List Label :=
  [.call (.update 5 .enableReading),.call (.update 7 .enableWriting),
    .poll (fun fd => if fd = 7 then Channel.POLLOUT else 0#32) [(7,Channel.POLLOUT)]]

theorem epoll_misses_few_writable :
    ∃ s, exec step create writable = some s ∧ s.epollActive = [(7,Channel.POLLOUT)] ∧
      s.epollActive.Subperm s.pollActive ∧ (s.pollActive.map Prod.fst).Nodup ∧
      s.size ≤ max EPollPoller.kInitEventListSize (s.peak*2) := by
  have hfair : Along step Fair create writable := by
    refine ⟨⟨rfl,by decide⟩,fun s hs => ?_⟩
    cases hs
    refine ⟨⟨rfl,by decide⟩,fun s hs => ?_⟩
    cases hs
    refine ⟨⟨by decide,?_,by decide,?_⟩,fun s hs => trivial⟩
    · intro fd r hmem
      cases List.mem_singleton.mp hmem
      exact ⟨by decide,_,rfl,by decide⟩
    · intro _ fd events hkernel hne
      by_cases hseven : fd = 7
      · subst hseven
        cases hkernel
        exact List.mem_singleton_self _
      · -- Nothing else is ready.
        rw [Channel.reportable,if_neg hseven,BitVec.zero_and] at hne
        exact absurd rfl hne
  obtain ⟨s,hs⟩ : ∃ s, exec step create writable = some s := Option.isSome_iff_exists.mp (by decide +kernel)
  have hactive : (exec step create writable).map epollActive = some [(7,Channel.POLLOUT)] := by decide +kernel
  rw [hs,Option.map_some,Option.some.injEq] at hactive
  obtain ⟨-,hsubperm,hnodup,-,hsize⟩ := epoll_misses_few ((run_iff_exec _ _ _ _).mpr hs) hfair
  exact ⟨s,hs,hactive,hsubperm,hnodup,hsize⟩

end PollRounds
end GgLib
