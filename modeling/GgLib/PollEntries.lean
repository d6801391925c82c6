import GgLib.PollerWatch
import Mathlib.Data.Set.Function

/-! The array, the map and the indices of `PollPoller` over any calls on channels with distinct
descriptors, and what `fillActiveChannels` makes of the events that `poll` fills in. -/
namespace GgLib

open LabelledSystem

namespace PollPoller

/-- The loop of `fillActiveChannels` from an entry on: the active channels and their `revents_`. -/
def fillFrom (p : PollPoller) : List PollFd → ℤ → Option (List (ℕ × BitVec 32))
  | [], _ => some []
  | pfd::rest, numEvents =>
    if 0 < numEvents then
      if 0 < pfd.revents.toInt then
        if 0 ≤ pfd.fd ∧ p.channels pfd.fd.toNat then
          (p.fillFrom rest (numEvents-1)).map ((pfd.fd.toNat,pfd.revents.signExtend 32)::·)
        else none
      else p.fillFrom rest numEvents
    else some []

def fillActiveChannels (p : PollPoller) (numEvents : ℤ) : Option (List (ℕ × BitVec 32)) :=
  p.fillFrom p.pollfds numEvents

/-- `poll` writes the `revents` of each entry. -/
def fill (p : PollPoller) (revents : ℕ → BitVec 16) : PollPoller :=
  { p with pollfds := p.pollfds.mapIdx fun i pfd => { pfd with revents := revents i } }

/-- What the kernel may fill in: nothing in a negative entry, and no negative mask. -/
def Fillable (p : PollPoller) (revents : ℕ → BitVec 16) : Prop :=
  ∀ i pfd, p.pollfds[i]? = some pfd → (pfd.fd < 0 → revents i = 0#16) ∧ 0 ≤ (revents i).toInt

def reported (p : PollPoller) : List PollFd := p.pollfds.filter fun pfd => decide (pfd.revents ≠ 0#16)

theorem toInt_pos_iff {r : BitVec 16} (h : 0 ≤ r.toInt) : 0 < r.toInt ↔ r ≠ 0#16 := by
  have hzero : r.toInt = 0 ↔ r = 0#16 := by
    rw [← BitVec.toInt_inj,BitVec.toInt_zero]
  rw [ne_eq,← hzero]
  omega

theorem fillFrom_eq (p : PollPoller) {l : List PollFd} (hsign : ∀ pfd ∈ l, 0 ≤ pfd.revents.toInt)
    (hfound : ∀ pfd ∈ l, pfd.revents ≠ 0#16 → 0 ≤ pfd.fd ∧ p.channels pfd.fd.toNat = true) :
    p.fillFrom l (l.filter fun pfd => decide (pfd.revents ≠ 0#16)).length =
      some ((l.filter fun pfd => decide (pfd.revents ≠ 0#16)).map fun pfd =>
        (pfd.fd.toNat,pfd.revents.signExtend 32)) := by
  induction l with
  | nil => rfl
  | cons pfd rest ih =>
    have ih := ih (fun q hq => hsign q (.tail _ hq)) (fun q hq => hfound q (.tail _ hq))
    have hpos := toInt_pos_iff (hsign pfd (.head _))
    by_cases hr : pfd.revents = 0#16
    · rw [List.filter_cons_of_neg (by simp [hr])]
      rw [fillFrom,if_neg (fun h => hpos.mp h hr),ih]
      split
      · rfl
      · -- no entry is left to report
        rename_i hnone
        have hempty : (rest.filter fun pfd => decide (pfd.revents ≠ 0#16)) = [] :=
          List.eq_nil_of_length_eq_zero (by omega)
        rw [hempty]
        rfl
    · rw [List.filter_cons_of_pos (by simp [hr]),List.length_cons,List.map_cons]
      rw [fillFrom,if_pos (by omega),if_pos (hpos.mpr hr),if_pos (hfound pfd (.head _) hr)]
      rw [Int.natCast_add,Int.cast_ofNat_Int,Int.add_sub_cancel,ih]
      rfl

variable {slot : ℕ → ℤ} {events : ℕ → BitVec 32} {p : PollPoller}

theorem Indexed.fill (h : Indexed slot events p) (revents : ℕ → BitVec 16) :
    Indexed slot events (p.fill revents) := by
  refine ⟨h.sign,?_,?_⟩
  · intro fd hreg
    obtain ⟨i,pfd,hi,hpfd,hslot,hevents⟩ := h.entry fd hreg
    refine ⟨i,{ pfd with revents := revents i },hi,?_,hslot,hevents⟩
    simp [PollPoller.fill,List.getElem?_mapIdx,hpfd]
  · intro i pfd hpfd
    obtain ⟨pfd',hpfd',-⟩ : ∃ pfd', p.pollfds[i]? = some pfd' ∧ { pfd' with revents := revents i } = pfd := by
      simpa [PollPoller.fill,List.getElem?_mapIdx,Option.map_eq_some_iff] using hpfd
    exact h.owner i pfd' hpfd'

theorem Indexed.entry_owner (h : Indexed slot events p) {i : ℕ} {pfd : PollFd} (hpfd : p.pollfds[i]? = some pfd) :
    p.channels (channelOf pfd.fd) = true ∧ p.index (channelOf pfd.fd) = i := by
  obtain ⟨fd,hreg,hindex⟩ := h.owner i pfd hpfd
  obtain ⟨i',pfd',hi',hpfd',hslot,-⟩ := h.entry fd hreg
  have hii : i' = i := by omega
  rw [hii,hpfd] at hpfd'
  cases hpfd'
  rw [hslot,h.channelOf_slot]
  exact ⟨hreg,hindex⟩

theorem channelOf_of_nonneg {fd : ℤ} (h : 0 ≤ fd) : channelOf fd = fd.toNat := by
  rw [channelOf,if_neg (by omega)]

theorem Indexed.indices (h : Indexed slot events p) :
    Set.BijOn p.index {fd | p.channels fd = true} {i | 0 ≤ i ∧ i < (p.pollfds.length : ℤ)} := by
  refine ⟨?_,?_,?_⟩
  · intro fd hreg
    obtain ⟨i,pfd,hi,hpfd,-⟩ := h.entry fd hreg
    have hlt := (List.getElem?_eq_some_iff.mp hpfd).1
    rw [hi]
    exact ⟨by omega,by omega⟩
  · intro fd hreg fd' hreg' hindex
    exact h.injective hreg hreg' hindex
  · rintro i ⟨hpos,hlt⟩
    have hlt' : i.toNat < p.pollfds.length := by omega
    obtain ⟨fd,hreg,hindex⟩ := h.owner i.toNat _ (List.getElem?_eq_getElem hlt')
    exact ⟨fd,hreg,by omega⟩

theorem Indexed.pairwise (h : Indexed slot events p) :
    p.pollfds.Pairwise fun a b => channelOf a.fd ≠ channelOf b.fd := by
  rw [List.pairwise_iff_getElem]
  intro i j hi hj hij hsame
  have hindex := (h.entry_owner (List.getElem?_eq_getElem hi)).2
  rw [hsame,(h.entry_owner (List.getElem?_eq_getElem hj)).2] at hindex
  omega

/-- Every channel with an event is listed, and no other. -/
theorem Indexed.fillActiveChannels (h : Indexed slot events p) {revents : ℕ → BitVec 16}
    (hfill : p.Fillable revents) :
    ∃ active, (p.fill revents).fillActiveChannels (p.fill revents).reported.length = some active ∧
      (active.map Prod.fst).Nodup ∧ ∀ fd r, (fd,r) ∈ active ↔
        p.channels fd = true ∧ revents (p.index fd).toNat ≠ 0#16 ∧
          r = (revents (p.index fd).toNat).signExtend 32 := by
  have hindexed := h.fill revents
  have hfilled : ∀ {i : ℕ} {pfd : PollFd}, (p.fill revents).pollfds[i]? = some pfd →
      pfd.revents = revents i ∧ (pfd.fd < 0 → revents i = 0#16) ∧ 0 ≤ (revents i).toInt := by
    intro i pfd hpfd
    obtain ⟨pfd',hpfd',rfl⟩ : ∃ pfd', p.pollfds[i]? = some pfd' ∧ { pfd' with revents := revents i } = pfd := by
      simpa [PollPoller.fill,List.getElem?_mapIdx,Option.map_eq_some_iff] using hpfd
    exact ⟨rfl,hfill i pfd' hpfd'⟩
  have hsign : ∀ pfd ∈ (p.fill revents).pollfds, 0 ≤ pfd.revents.toInt := by
    intro pfd hmem
    obtain ⟨i,hi⟩ := List.mem_iff_getElem?.mp hmem
    obtain ⟨hrevents,-,hpos⟩ := hfilled hi
    rwa [hrevents]
  have hplain : ∀ pfd ∈ (p.fill revents).pollfds, pfd.revents ≠ 0#16 → 0 ≤ pfd.fd := by
    intro pfd hmem hne
    obtain ⟨i,hi⟩ := List.mem_iff_getElem?.mp hmem
    obtain ⟨hrevents,hneg,-⟩ := hfilled hi
    by_contra hlt
    exact hne (hrevents.trans (hneg (by omega)))
  have hfound : ∀ pfd ∈ (p.fill revents).pollfds, pfd.revents ≠ 0#16 →
      0 ≤ pfd.fd ∧ (p.fill revents).channels pfd.fd.toNat = true := by
    intro pfd hmem hne
    obtain ⟨i,hi⟩ := List.mem_iff_getElem?.mp hmem
    have hpos := hplain pfd hmem hne
    refine ⟨hpos,?_⟩
    rw [← channelOf_of_nonneg hpos]
    exact (hindexed.entry_owner hi).1
  refine ⟨_,fillFrom_eq _ hsign hfound,?_,?_⟩
  · rw [List.map_map]
    refine List.pairwise_map.mpr ((hindexed.pairwise.filter _).imp_of_mem ?_)
    intro a b ha hb hne
    obtain ⟨ha,hane⟩ := List.mem_filter.mp ha
    obtain ⟨hb,hbne⟩ := List.mem_filter.mp hb
    rwa [channelOf_of_nonneg (hplain a ha (of_decide_eq_true hane)),
      channelOf_of_nonneg (hplain b hb (of_decide_eq_true hbne))] at hne
  · intro fd r
    rw [List.mem_map]
    constructor
    · rintro ⟨pfd,hmem,heq⟩
      obtain ⟨hmem,hne⟩ := List.mem_filter.mp hmem
      obtain ⟨i,hi⟩ := List.mem_iff_getElem?.mp hmem
      obtain ⟨hreg,hindex⟩ := hindexed.entry_owner hi
      rw [channelOf_of_nonneg (hplain pfd hmem (of_decide_eq_true hne))] at hreg hindex
      cases heq
      have hrevents := (hfilled hi).1
      have hi' : (p.index pfd.fd.toNat).toNat = i := by
        show ((p.fill revents).index pfd.fd.toNat).toNat = i
        rw [hindex]
        exact Int.toNat_natCast i
      rw [hi',← hrevents]
      exact ⟨hreg,of_decide_eq_true hne,rfl⟩
    · rintro ⟨hreg,hne,rfl⟩
      obtain ⟨i,pfd,hi,hpfd,hslot,-⟩ := hindexed.entry fd hreg
      have hi' : (p.index fd).toNat = i := by
        show ((p.fill revents).index fd).toNat = i
        rw [hi]
        exact Int.toNat_natCast i
      rw [hi'] at hne ⊢
      have hrevents := (hfilled hpfd).1
      have hmem := List.mem_of_getElem? hpfd
      have hne' : pfd.revents ≠ 0#16 := by rwa [hrevents]
      refine ⟨pfd,List.mem_filter.mpr ⟨hmem,decide_eq_true hne'⟩,?_⟩
      rw [← channelOf_of_nonneg (hplain pfd hmem hne'),hslot,h.channelOf_slot,hrevents]

end PollPoller

/-- Channels with distinct descriptors and their poller; `removed` are those on which `remove`
was called. -/
structure PollEntries where
  channels : ℕ → Channel
  removed : ℕ → Bool
  poll : PollPoller

namespace PollEntries

open Pollers (Call)

def create : PollEntries := ⟨fun _ => .create,fun _ => false,.create⟩

/-- A call on a channel, in a build that checks the assertions of `removeChannel` or in one that
does not. -/
def step (asserts : Bool) (s : PollEntries) : Call → Option PollEntries
  | .update fd interest =>
    let ch := interest.apply (s.channels fd)
    (s.poll.updateChannel fd ch.events).map fun poll =>
      { s with channels := Function.update s.channels fd ch, poll }
  | .remove fd =>
    let ch := s.channels fd
    (if asserts then s.poll.removeChannel fd ch.events else s.poll.eraseEntry fd).map fun poll =>
      ⟨Function.update s.channels fd ch.remove,Function.update s.removed fd true,poll⟩

/-- No removed channel is updated, and only a registered one is removed. -/
def Allowed (s : PollEntries) : Call → Prop
  | .update fd _ => s.removed fd = false
  | .remove fd => (s.channels fd).addedToLoop = true

instance decidableAllowed (s : PollEntries) : (call : Call) → Decidable (s.Allowed call)
  | .update fd _ => inferInstanceAs (Decidable (s.removed fd = false))
  | .remove fd => inferInstanceAs (Decidable ((s.channels fd).addedToLoop = true))

def events (s : PollEntries) (fd : ℕ) : BitVec 32 := (s.channels fd).events

/-- What `poll` fills in is handed to exactly the channels it is for. -/
def Reports (s : PollEntries) (revents : ℕ → BitVec 16) : Prop :=
  ∃ active, (s.poll.fill revents).fillActiveChannels (s.poll.fill revents).reported.length = some active ∧
    (active.map Prod.fst).Nodup ∧ ∀ fd r, (fd,r) ∈ active ↔
      s.poll.channels fd = true ∧ revents (s.poll.index fd).toNat ≠ 0#16 ∧
        r = (revents (s.poll.index fd).toNat).signExtend 32

/-- The array, the map and the indices describe the registered channels. -/
structure Tables (s : PollEntries) : Prop where
  channels : ∀ fd, s.poll.channels fd = (s.channels fd).addedToLoop
  indices : Set.BijOn s.poll.index {fd | s.poll.channels fd = true} {i | 0 ≤ i ∧ i < (s.poll.pollfds.length : ℤ)}
  entry : ∀ fd, s.poll.channels fd = true → ∃ pfd, s.poll.pollfds[(s.poll.index fd).toNat]? = some pfd ∧
    (pfd.fd = fd ∨ pfd.fd = -fd-1) ∧ pfd.events.signExtend 32 = s.events fd
  reports : ∀ revents, s.poll.Fillable revents → s.Reports revents

/-- A channel that is updated without interest the first time keeps its plain descriptor, so
what stands in `pollfds_` does not follow from the interest. -/
structure Consistent (s : PollEntries) : Prop where
  indexed : ∃ slot, s.poll.Indexed slot s.events
  channels : ∀ fd, s.poll.channels fd = (s.channels fd).addedToLoop
  fresh : ∀ fd, (s.channels fd).addedToLoop = false → s.removed fd = false → s.poll.index fd < 0
  settable : ∀ fd, Channel.Settable (s.events fd)

theorem Consistent.tables {s : PollEntries} (h : s.Consistent) : s.Tables := by
  obtain ⟨slot,hindexed⟩ := h.indexed
  refine ⟨h.channels,hindexed.indices,?_,fun revents hfill => hindexed.fillActiveChannels hfill⟩
  intro fd hreg
  obtain ⟨i,pfd,hi,hpfd,hslot,hevents⟩ := hindexed.entry fd hreg
  refine ⟨pfd,?_,?_,?_⟩
  · rw [hi,Int.toNat_natCast,hpfd]
  · rw [hslot]
    exact hindexed.sign fd
  · rw [hevents,(h.settable fd).short]

theorem create_consistent : create.Consistent where
  indexed := ⟨fun fd => fd,fun _ => .inl rfl,nofun,nofun⟩
  channels _ := rfl
  fresh _ _ _ := show (-1 : ℤ) < 0 by decide
  settable _ := .inl rfl

theorem Consistent.poll_update {s : PollEntries} (h : s.Consistent) {fd : ℕ} (events' : BitVec 32)
    (hremoved : s.removed fd = false) :
    ∃ poll, s.poll.updateChannel fd events' = some poll ∧
      poll.channels = Function.update s.poll.channels fd true ∧
      (∀ fd', fd' ≠ fd → poll.index fd' = s.poll.index fd') ∧
      ∃ slot, poll.Indexed slot (Function.update s.events fd events') := by
  obtain ⟨slot,hindexed⟩ := h.indexed
  cases hreg : s.poll.channels fd with
  | false =>
    have hloop : (s.channels fd).addedToLoop = false := by rw [← h.channels,hreg]
    obtain ⟨poll,hpoll,hchannels,hindex,hadd⟩ := hindexed.add events' hreg (h.fresh fd hloop hremoved)
    exact ⟨poll,hpoll,hchannels,fun fd' hfd => by rw [hindex,Function.update_of_ne hfd],_,hadd⟩
  | true =>
    obtain ⟨poll,hpoll,hchannels,hindex,hmodify⟩ := hindexed.modify events' hreg
    refine ⟨poll,hpoll,?_,fun fd' _ => by rw [hindex],_,hmodify⟩
    rw [hchannels,← hreg,Function.update_eq_self]

theorem Consistent.update {s : PollEntries} (h : s.Consistent) (asserts : Bool) {fd : ℕ}
    (interest : Pollers.Interest) (hremoved : s.removed fd = false) :
    ∃ s', step asserts s (.update fd interest) = some s' ∧ s'.Consistent := by
  let ch := interest.apply (s.channels fd)
  obtain ⟨poll,hpoll,hchannels,hindex,slot,hindexed⟩ := h.poll_update ch.events hremoved
  have hloop : ch.addedToLoop = true := Pollers.Interest.apply_addedToLoop ..
  have hevents : events { s with channels := Function.update s.channels fd ch, poll } =
      Function.update s.events fd ch.events := Function.comp_update Channel.events s.channels fd ch
  refine ⟨{ s with channels := Function.update s.channels fd ch, poll },?_,?_,?_,?_,?_⟩
  · simp only [step,ch] at hpoll ⊢
    rw [hpoll]
    rfl
  · exact ⟨slot,by rw [hevents]; exact hindexed⟩
  · intro fd'
    dsimp only
    rw [hchannels]
    by_cases hfd : fd' = fd
    · subst hfd
      simp [hloop]
    · simp [hfd,h.channels]
  · intro fd' hout hrem
    have hfd : fd' ≠ fd := by
      rintro rfl
      simp [hloop] at hout
    show poll.index fd' < 0
    rw [hindex fd' hfd]
    exact h.fresh fd' (by simpa [hfd] using hout) hrem
  · intro fd'
    rw [hevents]
    by_cases hfd : fd' = fd
    · subst hfd
      rw [Function.update_self]
      exact Pollers.Interest.apply_settable (h.settable fd') interest
    · rw [Function.update_of_ne hfd]
      exact h.settable fd'

theorem Consistent.erase {s : PollEntries} (h : s.Consistent) {fd : ℕ} {poll : PollPoller}
    (hloop : (s.channels fd).addedToLoop = true) (herase : s.poll.eraseEntry fd = some poll) :
    Consistent ⟨Function.update s.channels fd (s.channels fd).remove,Function.update s.removed fd true,poll⟩ := by
  obtain ⟨slot,hindexed⟩ := h.indexed
  obtain ⟨poll',hpoll,hchannels,hindex,hindexed'⟩ := hindexed.erase (by rw [h.channels,hloop])
  cases herase.symm.trans hpoll
  have hsame :
      events ⟨Function.update s.channels fd (s.channels fd).remove,Function.update s.removed fd true,poll⟩ =
      s.events := (Function.comp_update Channel.events s.channels fd _).trans (Function.update_eq_self fd s.events)
  refine ⟨⟨slot,by rw [hsame]; exact hindexed'⟩,?_,?_,by rw [hsame]; exact h.settable⟩
  · intro fd'
    dsimp only
    rw [hchannels]
    by_cases hfd : fd' = fd
    · subst hfd
      simp [Channel.remove]
    · simp [hfd,h.channels]
  · intro fd' hout hrem
    have hfd : fd' ≠ fd := by
      rintro rfl
      simp at hrem
    have hout' : (s.channels fd').addedToLoop = false := by simpa [hfd] using hout
    show poll.index fd' < 0
    rw [hindex fd' (.inr (by rw [h.channels,hout']))]
    exact h.fresh fd' hout' (by simpa [hfd] using hrem)

theorem step_consistent {asserts : Bool} (s : PollEntries) (call : Call) (t : PollEntries) (h : s.Consistent)
    (hallowed : s.Allowed call) (hstep : step asserts s call = some t) : t.Consistent := by
  cases call with
  | update fd interest =>
    obtain ⟨s',hs',hconsistent⟩ := h.update asserts interest hallowed
    cases hs'.symm.trans hstep
    exact hconsistent
  | remove fd =>
    obtain ⟨poll,hpoll,rfl⟩ := Option.map_eq_some_iff.mp hstep
    cases asserts with
    | false => exact h.erase hallowed hpoll
    | true => exact h.erase hallowed (PollPoller.removeChannel_some_iff.mp hpoll).2.2.2

theorem step_unchecked {s : PollEntries} (h : s.Consistent) {call : Call} (hallowed : s.Allowed call) :
    ∃ t, step false s call = some t := by
  cases call with
  | update fd interest =>
    obtain ⟨s',hs',-⟩ := h.update false interest hallowed
    exact ⟨s',hs'⟩
  | remove fd =>
    obtain ⟨slot,hindexed⟩ := h.indexed
    obtain ⟨poll,hpoll,-⟩ := hindexed.erase ((h.channels fd).trans hallowed)
    exact ⟨_,Option.map_eq_some_iff.mpr ⟨poll,hpoll,rfl⟩⟩

theorem run_unchecked {s : PollEntries} (h : s.Consistent) {calls : List Call}
    (hallowed : Along (step false) Allowed s calls) : ∃ t, Run (step false) s calls t := by
  induction calls generalizing s with
  | nil => exact ⟨s,Run.refl s⟩
  | cons call calls ih =>
    obtain ⟨t,ht⟩ := step_unchecked h hallowed.1
    obtain ⟨u,hu⟩ := ih (step_consistent s call t h hallowed.1 ht) (hallowed.2 t ht)
    exact ⟨u,Run.cons ht hu⟩

/-- For every sequence of updates and removals on any channels with distinct descriptors, with
no update of a removed channel and no removal of one that is not registered: the map has exactly
the registered channels, their indices are those of the array, each entry is that of its channel,
and whatever events `poll` fills in are handed to exactly the channels they are for. In a build
that does not check the assertions of `removeChannel` the calls all return. -/
theorem tables_consistent (asserts : Bool) {calls : List Call} (h : Along (step asserts) Allowed create calls) :
    (∀ s, Run (step asserts) create calls s → s.Tables) ∧
      (asserts = false → ∃ s, Run (step asserts) create calls s) := by
  refine ⟨fun s hrun => ?_,?_⟩
  · exact (hrun.invariant_along step_consistent h create_consistent).tables
  · rintro rfl
    exact run_unchecked create_consistent h

/-- The descriptor 0 is swapped into the place of the removed 5. -/
def swapped : List Call :=
  [.update 5 .enableReading,.update 0 .enableWriting,.update 0 .disableAll,.update 5 .disableAll,.remove 5]

theorem tables_consistent_swapped : ∃ s, Run (step false) create swapped s ∧ s.Tables := by
  have hallowed : Along (step false) Allowed create swapped := by decide +kernel
  obtain ⟨htables,hruns⟩ := tables_consistent false hallowed
  obtain ⟨s,hs⟩ := hruns rfl
  exact ⟨s,hs,htables s hs⟩

end PollEntries
end GgLib
