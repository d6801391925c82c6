import GgLib.Poller
import Mathlib.Data.Set.Basic

/-! The two pollers watch the same file descriptors, as long as no channel is updated behind
its removal and none is updated from no interest to no interest. -/
namespace GgLib

open LabelledSystem

namespace Channel

/-- The interests that the methods of `Channel` can set. -/
def Settable (events : BitVec 32) : Prop :=
  events = kNoneEvent ∨ events = kReadEvent ∨ events = kWriteEvent ∨ events = kReadEvent ||| kWriteEvent

theorem Settable.short {events : BitVec 32} (h : Settable events) :
    (events.setWidth 16).signExtend 32 = events := by
  rcases h with rfl | rfl | rfl | rfl <;> decide

end Channel

namespace Pollers

theorem Interest.apply_settable {ch : Channel} (h : Channel.Settable ch.events) (interest : Interest) :
    Channel.Settable (interest.apply ch).events := by
  obtain ⟨events,addedToLoop⟩ := ch
  rcases h with h | h | h | h <;> dsimp only at h <;> subst h <;> cases interest <;>
    simp only [Channel.Settable,Interest.apply,Channel.enableReading,Channel.disableReading,Channel.enableWriting,
      Channel.disableWriting,Channel.disableAll,Channel.update] <;> decide

@[simp] theorem Interest.apply_addedToLoop (ch : Channel) (interest : Interest) :
    (interest.apply ch).addedToLoop = true := by
  cases interest <;> rfl

end Pollers

namespace EPollPoller

/-- `index_` and the set of the kernel as they follow from the channel. -/
structure Consistent (p : EPollPoller) (events : ℕ → BitVec 32) : Prop where
  unknown : ∀ fd, p.channels fd = false → p.index fd = kNew ∧ p.kernel fd = none
  idle : ∀ fd, p.channels fd = true → events fd = Channel.kNoneEvent → p.index fd = kDeleted ∧ p.kernel fd = none
  added : ∀ fd, p.channels fd = true → events fd ≠ Channel.kNoneEvent →
    p.index fd = kAdded ∧ p.kernel fd = some (events fd)

theorem Consistent.set {p : EPollPoller} {events : ℕ → BitVec 32} (h : Consistent p events) (fd : ℕ)
    (events' : BitVec 32) (index : ℤ) (registered : Bool) (entry : Option (BitVec 32))
    (hunknown : registered = false → index = kNew ∧ entry = none)
    (hidle : registered = true → events' = Channel.kNoneEvent → index = kDeleted ∧ entry = none)
    (hadded : registered = true → events' ≠ Channel.kNoneEvent → index = kAdded ∧ entry = some events') :
    Consistent ⟨Function.update p.index fd index,Function.update p.channels fd registered,
      Function.update p.kernel fd entry⟩ (Function.update events fd events') := by
  refine ⟨fun fd' => ?_,fun fd' => ?_,fun fd' => ?_⟩ <;> by_cases hfd : fd' = fd
  · subst hfd
    simpa using hunknown
  · simpa [hfd] using h.unknown fd'
  · subst hfd
    simpa using hidle
  · simpa [hfd] using h.idle fd'
  · subst hfd
    simpa using hadded
  · simpa [hfd] using h.added fd'

/-- An update that is not from no interest to no interest. -/
theorem Consistent.updateChannel {p : EPollPoller} {events : ℕ → BitVec 32} (h : Consistent p events) {fd : ℕ}
    {events' : BitVec 32} (hnew : p.channels fd = false → events fd = Channel.kNoneEvent)
    (hset : events fd = Channel.kNoneEvent → events' ≠ Channel.kNoneEvent) :
    ∃ p', p.updateChannel fd events' = some p' ∧ p'.channels = Function.update p.channels fd true ∧
      Consistent p' (Function.update events fd events') := by
  have hsame : p.channels fd = true → p.channels = Function.update p.channels fd true := by
    intro hreg
    rw [← hreg,Function.update_eq_self]
  cases hreg : p.channels fd with
  | false =>
    obtain ⟨hindex,hkernel⟩ := h.unknown fd hreg
    refine ⟨⟨Function.update p.index fd kAdded,Function.update p.channels fd true,
      Function.update p.kernel fd (some events')⟩,?_,rfl,?_⟩
    · simp [EPollPoller.updateChannel,hindex,hreg,update,setIndex,hkernel]
    exact h.set fd events' kAdded true (some events') nofun (fun _ hnone => absurd hnone (hset (hnew hreg)))
      fun _ _ => ⟨rfl,rfl⟩
  | true =>
    by_cases hnone : events fd = Channel.kNoneEvent
    · obtain ⟨hindex,hkernel⟩ := h.idle fd hreg hnone
      refine ⟨⟨Function.update p.index fd kAdded,p.channels,Function.update p.kernel fd (some events')⟩,?_,
        hsame hreg,?_⟩
      · simp [EPollPoller.updateChannel,hindex,hreg,update,setIndex,hkernel,kNew,kDeleted]
      · rw [hsame hreg]
        exact h.set fd events' kAdded true (some events') nofun (fun _ hnone' => absurd hnone' (hset hnone))
          fun _ _ => ⟨rfl,rfl⟩
    · obtain ⟨hindex,hkernel⟩ := h.added fd hreg hnone
      by_cases hnone' : events' = Channel.kNoneEvent
      · refine ⟨⟨Function.update p.index fd kDeleted,p.channels,Function.update p.kernel fd none⟩,?_,hsame hreg,?_⟩
        · simp [EPollPoller.updateChannel,hindex,hreg,update,setIndex,hnone',kNew,kAdded,kDeleted]
        · rw [hsame hreg]
          exact h.set fd events' kDeleted true none nofun (fun _ _ => ⟨rfl,rfl⟩) fun _ hne => absurd hnone' hne
      · refine ⟨⟨p.index,p.channels,Function.update p.kernel fd (some events')⟩,?_,hsame hreg,?_⟩
        · simp [EPollPoller.updateChannel,hindex,hreg,update,hnone',hkernel,kNew,kAdded,kDeleted]
        · have hindex' : p.index = Function.update p.index fd kAdded := by rw [← hindex,Function.update_eq_self]
          rw [hsame hreg,hindex']
          exact h.set fd events' kAdded true (some events') nofun (fun _ hnone => absurd hnone hnone')
            fun _ _ => ⟨rfl,rfl⟩

theorem Consistent.removeChannel {p : EPollPoller} {events : ℕ → BitVec 32} (h : Consistent p events) {fd : ℕ}
    (hreg : p.channels fd = true) (hnone : events fd = Channel.kNoneEvent) :
    ∃ p', p.removeChannel fd (events fd) = some p' ∧ p'.channels = Function.update p.channels fd false ∧
      Consistent p' events := by
  obtain ⟨hindex,hkernel⟩ := h.idle fd hreg hnone
  refine ⟨⟨Function.update p.index fd kNew,Function.update p.channels fd false,p.kernel⟩,?_,rfl,?_⟩
  · simp [EPollPoller.removeChannel,hreg,hnone,hindex,setIndex,kAdded,kDeleted]
  · have hkernel' : p.kernel = Function.update p.kernel fd none := by rw [← hkernel,Function.update_eq_self]
    have hset := h.set fd (events fd) kNew false none (fun _ => ⟨rfl,rfl⟩) nofun nofun
    rwa [Function.update_eq_self,← hkernel'] at hset

/-- An update of a channel that is not in the set of the kernel puts it there. -/
theorem updateChannel_watches {p p' : EPollPoller} {fd : ℕ} {events : BitVec 32} (hindex : p.index fd ≠ kAdded)
    (h : p.updateChannel fd events = some p') : p'.kernel fd = some events := by
  rw [updateChannel] at h
  split at h
  · split at h
    · split at h
      · cases h
      · simp only [update] at h
        split at h <;> cases h
        exact Function.update_self ..
    · split at h
      · simp only [update] at h
        split at h <;> cases h
        exact Function.update_self ..
      · cases h
  · split at h
    · rename_i hadded
      exact absurd hadded.2 hindex
    · cases h

theorem Consistent.mem_watched {p : EPollPoller} {events : ℕ → BitVec 32} (h : Consistent p events) {fd : ℕ}
    {events' : BitVec 32} : (fd,events') ∈ p.watched ↔
      p.channels fd = true ∧ events fd ≠ Channel.kNoneEvent ∧ events' = events fd := by
  show p.kernel fd = some events' ↔ _
  cases hreg : p.channels fd with
  | false => simp [(h.unknown fd hreg).2]
  | true =>
    by_cases hnone : events fd = Channel.kNoneEvent
    · simp [(h.idle fd hreg hnone).2,hnone]
    · simp [(h.added fd hreg hnone).2,hnone,eq_comm]

end EPollPoller

namespace PollPoller

/-- The channel whose descriptor, plain or negated, stands in an entry. -/
def channelOf (fd : ℤ) : ℕ := (if fd < 0 then -fd-1 else fd).toNat

/-- The entries of `pollfds_` are those of the registered channels, each at its index; `slot`
is what stands in the place of the descriptor. -/
structure Indexed (slot : ℕ → ℤ) (events : ℕ → BitVec 32) (p : PollPoller) : Prop where
  sign : ∀ fd : ℕ, slot fd = fd ∨ slot fd = -fd-1
  entry : ∀ fd, p.channels fd = true → ∃ (i : ℕ) (pfd : PollFd), p.index fd = i ∧ p.pollfds[i]? = some pfd ∧
    pfd.fd = slot fd ∧ pfd.events = (events fd).setWidth 16
  owner : ∀ (i : ℕ) (pfd : PollFd), p.pollfds[i]? = some pfd → ∃ fd, p.channels fd = true ∧ p.index fd = i

variable {slot : ℕ → ℤ} {events : ℕ → BitVec 32} {p : PollPoller}

theorem Indexed.channelOf_slot (h : Indexed slot events p) (fd : ℕ) : channelOf (slot fd) = fd := by
  rcases h.sign fd with hs | hs <;> rw [hs,channelOf] <;> split <;> omega

theorem Indexed.injective (h : Indexed slot events p) {fd fd' : ℕ} (hreg : p.channels fd = true)
    (hreg' : p.channels fd' = true) (hindex : p.index fd = p.index fd') : fd = fd' := by
  obtain ⟨i,pfd,hi,hpfd,hslot,-⟩ := h.entry fd hreg
  obtain ⟨i',pfd',hi',hpfd',hslot',-⟩ := h.entry fd' hreg'
  have hii : i = i' := by omega
  subst hii
  have hsame : pfd = pfd' := Option.some.inj (hpfd.symm.trans hpfd')
  rw [← h.channelOf_slot fd,← h.channelOf_slot fd',← hslot,← hslot',hsame]

theorem Indexed.add (h : Indexed slot events p) {fd : ℕ} (events' : BitVec 32) (hreg : p.channels fd = false)
    (hindex : p.index fd < 0) :
    ∃ p', p.updateChannel fd events' = some p' ∧ p'.channels = Function.update p.channels fd true ∧
      p'.index = Function.update p.index fd p.pollfds.length ∧
      Indexed (Function.update slot fd fd) (Function.update events fd events') p' := by
  refine ⟨⟨Function.update p.index fd p.pollfds.length,Function.update p.channels fd true,
    p.pollfds++[⟨fd,events'.setWidth 16,0⟩]⟩,?_,rfl,rfl,?_,?_,?_⟩
  · simp only [updateChannel,hindex,hreg,if_true,Bool.false_eq_true,if_false]
  · intro fd'
    by_cases hfd : fd' = fd
    · subst hfd
      simp
    · simpa [hfd] using h.sign fd'
  · intro fd' hreg'
    by_cases hfd : fd' = fd
    · subst hfd
      exact ⟨p.pollfds.length,⟨fd',events'.setWidth 16,0⟩,by simp,by simp,by simp,by simp⟩
    · obtain ⟨i,pfd,hi,hpfd,hslot,hevents⟩ := h.entry fd' (by simpa [hfd] using hreg')
      have hlt := (List.getElem?_eq_some_iff.mp hpfd).1
      refine ⟨i,pfd,by simpa [hfd] using hi,?_,by simpa [hfd] using hslot,by simpa [hfd] using hevents⟩
      simpa [List.getElem?_append_left hlt] using hpfd
  · intro i pfd hpfd
    have hlen := (List.getElem?_eq_some_iff.mp hpfd).1
    simp only [List.length_append,List.length_singleton] at hlen
    by_cases hi : i < p.pollfds.length
    · obtain ⟨fd',hreg',hindex'⟩ := h.owner i pfd (by simpa [List.getElem?_append_left hi] using hpfd)
      have hfd : fd' ≠ fd := by
        rintro rfl
        simp [hreg] at hreg'
      exact ⟨fd',by simp [hfd,hreg'],by simp [hfd,hindex']⟩
    · exact ⟨fd,by simp,by simp; omega⟩

theorem Indexed.modify (h : Indexed slot events p) {fd : ℕ} (events' : BitVec 32) (hreg : p.channels fd = true) :
    ∃ p', p.updateChannel fd events' = some p' ∧ p'.channels = p.channels ∧ p'.index = p.index ∧
      Indexed (Function.update slot fd (if events' = Channel.kNoneEvent then -fd-1 else fd))
        (Function.update events fd events') p' := by
  obtain ⟨i,pfd,hi,hpfd,hslot,hevents⟩ := h.entry fd hreg
  have hsign : pfd.fd = fd ∨ pfd.fd = -fd-1 := by
    rw [hslot]
    exact h.sign fd
  have hlt := (List.getElem?_eq_some_iff.mp hpfd).1
  let pfd' : PollFd := ⟨if events' = Channel.kNoneEvent then -fd-1 else fd,events'.setWidth 16,0⟩
  refine ⟨{ p with pollfds := p.pollfds.set i pfd' },?_,rfl,rfl,?_,?_,?_⟩
  · have hpos : ¬ (i : ℤ) < 0 := by omega
    simp only [updateChannel,hi,hpos,if_false,hreg,if_true,Int.toNat_natCast,hpfd,hsign,pfd']
    split <;> rfl
  · intro fd'
    by_cases hfd : fd' = fd
    · subst hfd
      rw [Function.update_self]
      split
      · exact .inr rfl
      · exact .inl rfl
    · simpa [hfd] using h.sign fd'
  · intro fd' hreg'
    by_cases hfd : fd' = fd
    · subst hfd
      exact ⟨i,pfd',hi,by simp [hlt],by simp [pfd'],by simp [pfd']⟩
    · obtain ⟨i',pfd'',hi',hpfd',hslot',hevents'⟩ := h.entry fd' hreg'
      have hne : i ≠ i' := by
        rintro rfl
        exact hfd (h.injective hreg' hreg (hi'.trans hi.symm))
      exact ⟨i',pfd'',hi',by simpa [hne] using hpfd',by simpa [hfd] using hslot',by simpa [hfd] using hevents'⟩
  · intro i' pfd'' hpfd''
    have hlt' := (List.getElem?_eq_some_iff.mp hpfd'').1
    simp only [List.length_set] at hlt'
    exact h.owner i' _ (List.getElem?_eq_getElem hlt')

theorem getElem?_swap_pop {α : Type*} {l : List α} {i : ℕ} (hi : i < l.length-1) (a b : α) (j : ℕ) :
    ((l.set i b).set (l.length-1) a).dropLast[j]? =
      if j < l.length-1 then if j = i then some b else l[j]? else none := by
  rw [List.getElem?_dropLast,List.length_set,List.length_set]
  split
  · rename_i hj
    rw [List.getElem?_set_ne (by omega)]
    by_cases hji : j = i
    · subst hji
      simp [show j < l.length by omega]
    · rw [List.getElem?_set_ne (Ne.symm hji)]
      simp [hji]
  · rfl

theorem of_update_false {channels : ℕ → Bool} {fd fd' : ℕ} (h : Function.update channels fd false fd' = true) :
    fd' ≠ fd ∧ channels fd' = true := by
  by_cases hfd : fd' = fd
  · rw [hfd,Function.update_self] at h
    cases h
  · rw [Function.update_of_ne hfd] at h
    exact ⟨hfd,h⟩

theorem Indexed.pop (h : Indexed slot events p) {fd i : ℕ} (hreg : p.channels fd = true) (hi : p.index fd = i)
    (hend : i = p.pollfds.length-1) :
    Indexed slot events ⟨p.index,Function.update p.channels fd false,p.pollfds.dropLast⟩ := by
  refine ⟨h.sign,?_,?_⟩
  · intro fd' hreg'
    obtain ⟨hne,hreg''⟩ := of_update_false hreg'
    obtain ⟨i',pfd',hi',hpfd',hslot',hevents'⟩ := h.entry fd' hreg''
    have hlt' := (List.getElem?_eq_some_iff.mp hpfd').1
    have hii : i' ≠ i := fun he => hne (h.injective hreg'' hreg (by omega))
    refine ⟨i',pfd',hi',?_,hslot',hevents'⟩
    rw [List.getElem?_dropLast,if_pos (by omega),hpfd']
  · intro j pfd' hj
    rw [List.getElem?_dropLast] at hj
    split at hj
    · obtain ⟨fd',hreg',hindex'⟩ := h.owner j pfd' hj
      have hne : fd' ≠ fd := by
        rintro rfl
        omega
      exact ⟨fd',by simp [hne,hreg'],hindex'⟩
    · cases hj

/-- The last channel `fdEnd` takes the place of the removed one. -/
theorem Indexed.swapPop (h : Indexed slot events p) {fd fdEnd i : ℕ} (pfd : PollFd) {back : PollFd}
    (hreg : p.channels fd = true) (hi : p.index fd = i) (hii : i < p.pollfds.length-1)
    (hback : p.pollfds[p.pollfds.length-1]? = some back) (hregEnd : p.channels fdEnd = true)
    (hindexEnd : p.index fdEnd = (p.pollfds.length-1 : ℕ)) :
    Indexed slot events ⟨Function.update p.index fdEnd i,Function.update p.channels fd false,
      ((p.pollfds.set i back).set (p.pollfds.length-1) pfd).dropLast⟩ := by
  have hneEnd : fdEnd ≠ fd := by
    rintro rfl
    omega
  refine ⟨h.sign,?_,?_⟩
  · intro fd' hreg'
    obtain ⟨hne,hreg''⟩ := of_update_false hreg'
    obtain ⟨i',pfd',hi',hpfd',hslot',hevents'⟩ := h.entry fd' hreg''
    by_cases hfdEnd : fd' = fdEnd
    · subst hfdEnd
      have hindices : i' = p.pollfds.length-1 := by omega
      rw [hindices,hback] at hpfd'
      cases hpfd'
      refine ⟨i,back,by simp,?_,hslot',hevents'⟩
      rw [getElem?_swap_pop hii,if_pos hii,if_pos rfl]
    · have hlt' := (List.getElem?_eq_some_iff.mp hpfd').1
      have hii' : i' ≠ i := fun he => hne (h.injective hreg'' hreg (by omega))
      have hlast' : i' ≠ p.pollfds.length-1 := fun he => hfdEnd (h.injective hreg'' hregEnd (by omega))
      refine ⟨i',pfd',by simp [hfdEnd,hi'],?_,hslot',hevents'⟩
      rw [getElem?_swap_pop hii,if_pos (by omega),if_neg (by omega),hpfd']
  · intro j pfd' hj
    rw [getElem?_swap_pop hii] at hj
    split at hj
    · split at hj
      · rename_i hji
        exact ⟨fdEnd,by simp [hneEnd,hregEnd],by simp [hji]⟩
      · rename_i hlt' hji
        obtain ⟨fd',hreg',hindex'⟩ := h.owner j pfd' hj
        have hne : fd' ≠ fd := by
          rintro rfl
          omega
        have hneEnd' : fd' ≠ fdEnd := by
          rintro rfl
          omega
        exact ⟨fd',by simp [hne,hreg'],by simp [hneEnd',hindex']⟩
    · cases hj

theorem removeChannel_some_iff {p p' : PollPoller} {fd : ℕ} {events : BitVec 32} :
    p.removeChannel fd events = some p' ↔ p.channels fd = true ∧ events = Channel.kNoneEvent ∧
      (∃ pfd, p.pollfds[(p.index fd).toNat]? = some pfd ∧ pfd.fd = -fd-1 ∧ pfd.events.signExtend 32 = events) ∧
      p.eraseEntry fd = some p' := by
  by_cases hcond : p.channels fd = true ∧ events = Channel.kNoneEvent ∧ 0 ≤ p.index fd
  · obtain ⟨hreg,hnone,hpos⟩ := hcond
    rw [removeChannel,eraseEntry,if_pos ⟨hreg,hnone,hpos⟩,if_pos hpos]
    cases hpfd : p.pollfds[(p.index fd).toNat]? with
    | none => simp [hpfd]
    | some pfd =>
      cases hlast : p.pollfds.getLast? with
      | none => simp [hpfd]
      | some back =>
        by_cases hentry : pfd.fd = -fd-1 ∧ pfd.events.signExtend 32 = events
        · subst hnone
          simp [hpfd,hreg,hentry]
        · simp [hpfd,hentry]
  · rw [removeChannel,if_neg hcond]
    constructor
    · intro h
      cases h
    · rintro ⟨hreg,hnone,-,herase⟩
      rw [eraseEntry,if_neg fun hpos => hcond ⟨hreg,hnone,hpos⟩] at herase
      cases herase

theorem Indexed.erase (h : Indexed slot events p) {fd : ℕ} (hreg : p.channels fd = true) :
    ∃ p', p.eraseEntry fd = some p' ∧ p'.channels = Function.update p.channels fd false ∧
      (∀ fd', fd' = fd ∨ p.channels fd' = false → p'.index fd' = p.index fd') ∧ Indexed slot events p' := by
  obtain ⟨i,pfd,hi,hpfd,-,-⟩ := h.entry fd hreg
  have hlt := (List.getElem?_eq_some_iff.mp hpfd).1
  have hback : p.pollfds[p.pollfds.length-1]? = some p.pollfds[p.pollfds.length-1] :=
    List.getElem?_eq_getElem (by omega)
  generalize p.pollfds[p.pollfds.length-1] = back at hback
  have hlast : p.pollfds.getLast? = some back := by rw [List.getLast?_eq_getElem?,hback]
  by_cases hend : i = p.pollfds.length-1
  · refine ⟨⟨p.index,Function.update p.channels fd false,p.pollfds.dropLast⟩,?_,rfl,fun _ _ => rfl,h.pop hreg hi hend⟩
    simp [eraseEntry,hi,hpfd,hlast,← hend]
  · obtain ⟨fdEnd,hregEnd,hindexEnd⟩ := h.owner _ back hback
    have hneEnd : fdEnd ≠ fd := by
      rintro rfl
      omega
    have hchannel : (if back.fd < 0 then -back.fd-1 else back.fd).toNat = fdEnd := by
      obtain ⟨iEnd,pfdEnd,hiEnd,hpfdEnd,hslotEnd,-⟩ := h.entry fdEnd hregEnd
      have hindices : iEnd = p.pollfds.length-1 := by omega
      rw [hindices,hback] at hpfdEnd
      cases hpfdEnd
      rw [hslotEnd]
      exact h.channelOf_slot fdEnd
    refine ⟨_,?_,rfl,?_,h.swapPop pfd hreg hi (by omega) hback hregEnd hindexEnd⟩
    · simp only [eraseEntry,hi,hpfd,hlast,Int.toNat_natCast,hchannel]
      simp [hend,hneEnd,hregEnd]
    · intro fd' hfd'
      refine Function.update_of_ne ?_ ..
      rintro rfl
      rcases hfd' with hfd' | hfd'
      · exact hneEnd hfd'
      · simp [hregEnd] at hfd'

theorem Indexed.remove (h : Indexed slot events p) {fd : ℕ} (hreg : p.channels fd = true)
    (hnone : events fd = Channel.kNoneEvent) (hslot : slot fd = -fd-1) :
    ∃ p', p.removeChannel fd (events fd) = some p' ∧ p'.channels = Function.update p.channels fd false ∧
      (∀ fd', fd' = fd ∨ p.channels fd' = false → p'.index fd' = p.index fd') ∧ Indexed slot events p' := by
  obtain ⟨p',herase,hrest⟩ := h.erase hreg
  obtain ⟨i,pfd,hi,hpfd,hpfdslot,hevents⟩ := h.entry fd hreg
  refine ⟨p',removeChannel_some_iff.mpr ⟨hreg,hnone,⟨pfd,by rw [hi]; exact hpfd,?_,?_⟩,herase⟩,hrest⟩
  · rw [hpfdslot,hslot]
  · rw [hevents,hnone]
    decide

/-- What stands in `pollfds_` for a channel with these events. -/
def slotOf (events : ℕ → BitVec 32) (fd : ℕ) : ℤ := if events fd = Channel.kNoneEvent then -fd-1 else fd

theorem slotOf_update (events : ℕ → BitVec 32) (fd : ℕ) (events' : BitVec 32) :
    slotOf (Function.update events fd events') =
      Function.update (slotOf events) fd (if events' = Channel.kNoneEvent then -fd-1 else fd) := by
  funext fd'
  by_cases hfd : fd' = fd
  · subst hfd
    simp [slotOf]
  · simp [slotOf,hfd]

theorem Indexed.mem_watched (h : Indexed (slotOf events) events p) (hshort : ∀ fd, Channel.Settable (events fd))
    {fd : ℕ} {events' : BitVec 32} : (fd,events') ∈ p.watched ↔
      p.channels fd = true ∧ events fd ≠ Channel.kNoneEvent ∧ events' = events fd := by
  constructor
  · rintro ⟨pfd,hmem,hfd,hevents⟩
    obtain ⟨i,hi⟩ := List.mem_iff_getElem?.mp hmem
    obtain ⟨fd',hreg,hindex⟩ := h.owner i pfd hi
    obtain ⟨i',pfd',hi',hpfd',hslot,hshort'⟩ := h.entry fd' hreg
    have hii : i = i' := by omega
    subst hii
    have hsame : pfd = pfd' := Option.some.inj (hi.symm.trans hpfd')
    subst hsame
    dsimp only at hfd hevents
    rw [hslot,slotOf] at hfd
    split at hfd
    · omega
    · have hfd' : fd' = fd := by omega
      subst hfd'
      exact ⟨hreg,‹_›,by rw [← hevents,hshort',(hshort fd').short]⟩
  · rintro ⟨hreg,hne,rfl⟩
    obtain ⟨i,pfd,-,hpfd,hslot,hevents⟩ := h.entry fd hreg
    refine ⟨pfd,List.mem_of_getElem? hpfd,?_,?_⟩
    · rw [hslot,slotOf,if_neg hne]
    · rw [hevents,(hshort fd).short]

end PollPoller

namespace Pollers

/-- The kernel is asked for the same with either poller, and a channel is watched exactly
when it is registered and has an interest. -/
structure Agree (s : Pollers) : Prop where
  same : s.epoll.watched = s.poll.watched
  epoll : ∀ fd, (∃ events, (fd,events) ∈ s.epoll.watched) ↔
    (s.channels fd).addedToLoop = true ∧ (s.channels fd).isNoneEvent = false
  poll : ∀ fd, (∃ events, (fd,events) ∈ s.poll.watched) ↔
    (s.channels fd).addedToLoop = true ∧ (s.channels fd).isNoneEvent = false

def Fine (s : Pollers) (call : Call) : Prop := ∃ s' ∈ s.step call, s'.Agree

/-- The call is on a channel that was not removed before, and is no update from no interest to
no interest; a removal is of a registered channel without interest. -/
def Good (s : Pollers) : Call → Prop
  | .update fd interest => s.removed fd = false ∧
    ¬ ((s.channels fd).isNoneEvent = true ∧ (interest.apply (s.channels fd)).isNoneEvent = true)
  | .remove fd => (s.channels fd).addedToLoop = true ∧ (s.channels fd).isNoneEvent = true

def events (s : Pollers) (fd : ℕ) : BitVec 32 := (s.channels fd).events

structure Consistent (s : Pollers) : Prop where
  epoll : s.epoll.Consistent s.events
  poll : s.poll.Indexed (PollPoller.slotOf s.events) s.events
  epollChannels : ∀ fd, s.epoll.channels fd = (s.channels fd).addedToLoop
  pollChannels : ∀ fd, s.poll.channels fd = (s.channels fd).addedToLoop
  idle : ∀ fd, (s.channels fd).addedToLoop = false → s.events fd = Channel.kNoneEvent
  fresh : ∀ fd, (s.channels fd).addedToLoop = false → s.removed fd = false → s.poll.index fd < 0
  stale : ∀ fd, s.removed fd = true → (s.channels fd).addedToLoop = false ∧ 0 ≤ s.poll.index fd
  settable : ∀ fd, Channel.Settable (s.events fd)

theorem isNoneEvent_iff {s : Pollers} {fd : ℕ} :
    (s.channels fd).isNoneEvent = true ↔ s.events fd = Channel.kNoneEvent := decide_eq_true_iff

theorem Consistent.agree {s : Pollers} (h : s.Consistent) : s.Agree := by
  have hepoll : ∀ fd events', (fd,events') ∈ s.epoll.watched ↔
      (s.channels fd).addedToLoop = true ∧ s.events fd ≠ Channel.kNoneEvent ∧ events' = s.events fd := by
    intro fd events'
    rw [h.epoll.mem_watched,h.epollChannels]
  have hpoll : ∀ fd events', (fd,events') ∈ s.poll.watched ↔
      (s.channels fd).addedToLoop = true ∧ s.events fd ≠ Channel.kNoneEvent ∧ events' = s.events fd := by
    intro fd events'
    rw [h.poll.mem_watched h.settable,h.pollChannels]
  have hnone : ∀ fd, (s.channels fd).isNoneEvent = false ↔ s.events fd ≠ Channel.kNoneEvent := by
    intro fd
    rw [← Bool.not_eq_true,isNoneEvent_iff]
  refine ⟨?_,?_,?_⟩
  · ext ⟨fd,events'⟩
    rw [hepoll,hpoll]
  · intro fd
    simp [hepoll,hnone]
  · intro fd
    simp [hpoll,hnone]

theorem Consistent.poll_update {s : Pollers} (h : s.Consistent) {fd : ℕ} {events' : BitVec 32}
    (hremoved : s.removed fd = false) (hset : s.events fd = Channel.kNoneEvent → events' ≠ Channel.kNoneEvent) :
    ∃ poll, s.poll.updateChannel fd events' = some poll ∧
      poll.channels = Function.update s.poll.channels fd true ∧
      (∀ fd', fd' ≠ fd → poll.index fd' = s.poll.index fd') ∧
      poll.Indexed (PollPoller.slotOf (Function.update s.events fd events')) (Function.update s.events fd events') := by
  rw [PollPoller.slotOf_update]
  cases hreg : s.poll.channels fd with
  | false =>
    have hloop : (s.channels fd).addedToLoop = false := by rw [← h.pollChannels,hreg]
    obtain ⟨poll,hpoll,hchannels,hindex,hindexed⟩ := h.poll.add events' hreg (h.fresh fd hloop hremoved)
    refine ⟨poll,hpoll,hchannels,fun fd' hfd => ?_,?_⟩
    · rw [hindex,Function.update_of_ne hfd]
    · rwa [if_neg (hset (h.idle fd hloop))]
  | true =>
    obtain ⟨poll,hpoll,hchannels,hindex,hindexed⟩ := h.poll.modify events' hreg
    refine ⟨poll,hpoll,?_,fun fd' _ => by rw [hindex],hindexed⟩
    rw [hchannels,← hreg,Function.update_eq_self]

theorem Consistent.update {s : Pollers} (h : s.Consistent) {fd : ℕ} {interest : Interest}
    (hgood : s.Good (.update fd interest)) : ∃ s', s.step (.update fd interest) = some s' ∧ s'.Consistent := by
  obtain ⟨hremoved,hchange⟩ := hgood
  let ch := interest.apply (s.channels fd)
  have hset : s.events fd = Channel.kNoneEvent → ch.events ≠ Channel.kNoneEvent := fun hold hnew =>
    hchange ⟨isNoneEvent_iff.mpr hold,decide_eq_true hnew⟩
  have hnew : s.epoll.channels fd = false → s.events fd = Channel.kNoneEvent := by
    rw [h.epollChannels]
    exact h.idle fd
  obtain ⟨epoll,hepoll,hepollChannels,hepollConsistent⟩ := h.epoll.updateChannel hnew hset
  obtain ⟨poll,hpoll,hpollChannels,hindex,hindexed⟩ := h.poll_update hremoved hset
  refine ⟨{ s with channels := Function.update s.channels fd ch, epoll, poll },?_,?_⟩
  · simp only [step,ch] at hepoll hpoll ⊢
    rw [hepoll,hpoll]
  have hevents : events { s with channels := Function.update s.channels fd ch, epoll, poll } =
      Function.update s.events fd ch.events := Function.comp_update Channel.events s.channels fd ch
  have hloop : ch.addedToLoop = true := by simp [ch]
  refine ⟨by rw [hevents]; exact hepollConsistent,by rw [hevents]; exact hindexed,?_,?_,?_,?_,?_,?_⟩
  · intro fd'
    dsimp only
    rw [hepollChannels]
    by_cases hfd : fd' = fd
    · subst hfd
      simp [hloop]
    · simp [hfd,h.epollChannels]
  · intro fd'
    dsimp only
    rw [hpollChannels]
    by_cases hfd : fd' = fd
    · subst hfd
      simp [hloop]
    · simp [hfd,h.pollChannels]
  · intro fd' hout
    have hfd : fd' ≠ fd := by
      rintro rfl
      simp [hloop] at hout
    rw [hevents,Function.update_of_ne hfd]
    exact h.idle fd' (by simpa [hfd] using hout)
  · intro fd' hout hrem
    have hfd : fd' ≠ fd := by
      rintro rfl
      simp [hloop] at hout
    show poll.index fd' < 0
    rw [hindex fd' hfd]
    exact h.fresh fd' (by simpa [hfd] using hout) hrem
  · intro fd' hrem
    have hfd : fd' ≠ fd := by
      rintro rfl
      exact absurd (hremoved.symm.trans hrem) (by decide)
    show _ ∧ 0 ≤ poll.index fd'
    rw [hindex fd' hfd]
    simpa [hfd] using h.stale fd' hrem
  · intro fd'
    rw [hevents]
    by_cases hfd : fd' = fd
    · subst hfd
      rw [Function.update_self]
      exact Interest.apply_settable (h.settable fd') interest
    · rw [Function.update_of_ne hfd]
      exact h.settable fd'

theorem Consistent.remove {s : Pollers} (h : s.Consistent) {fd : ℕ} (hgood : s.Good (.remove fd)) :
    ∃ s', s.step (.remove fd) = some s' ∧ s'.Consistent := by
  obtain ⟨hloop,hnone⟩ := hgood
  have hevents := isNoneEvent_iff.mp hnone
  obtain ⟨epoll,hepoll,hepollChannels,hepollConsistent⟩ :=
    h.epoll.removeChannel (by rw [h.epollChannels,hloop]) hevents
  have hreg : s.poll.channels fd = true := by rw [h.pollChannels,hloop]
  obtain ⟨poll,hpoll,hpollChannels,hindex,hindexed⟩ := h.poll.remove hreg hevents (if_pos hevents)
  refine ⟨⟨Function.update s.channels fd (s.channels fd).remove,Function.update s.removed fd true,epoll,poll⟩,?_,?_⟩
  · simp only [step,events] at hepoll hpoll ⊢
    rw [if_pos hnone,hepoll,hpoll]
  have hsame :
      events ⟨Function.update s.channels fd (s.channels fd).remove,Function.update s.removed fd true,epoll,poll⟩ =
      s.events := (Function.comp_update Channel.events s.channels fd _).trans (Function.update_eq_self fd s.events)
  refine ⟨by rw [hsame]; exact hepollConsistent,by rw [hsame]; exact hindexed,?_,?_,?_,?_,?_,
    by rw [hsame]; exact h.settable⟩
  · intro fd'
    dsimp only
    rw [hepollChannels]
    by_cases hfd : fd' = fd
    · subst hfd
      simp [Channel.remove]
    · simp [hfd,h.epollChannels]
  · intro fd'
    dsimp only
    rw [hpollChannels]
    by_cases hfd : fd' = fd
    · subst hfd
      simp [Channel.remove]
    · simp [hfd,h.pollChannels]
  · intro fd' hout
    rw [hsame]
    by_cases hfd : fd' = fd
    · subst hfd
      exact hevents
    · exact h.idle fd' (by simpa [hfd] using hout)
  · intro fd' hout hrem
    have hfd : fd' ≠ fd := by
      rintro rfl
      simp at hrem
    have hout' : (s.channels fd').addedToLoop = false := by simpa [hfd] using hout
    show poll.index fd' < 0
    rw [hindex fd' (.inr (by rw [h.pollChannels,hout']))]
    exact h.fresh fd' hout' (by simpa [hfd] using hrem)
  · intro fd' hrem
    by_cases hfd : fd' = fd
    · subst hfd
      obtain ⟨i,-,hi,-⟩ := h.poll.entry fd' hreg
      refine ⟨by simp [Channel.remove],?_⟩
      show 0 ≤ poll.index fd'
      rw [hindex fd' (.inl rfl),hi]
      exact Int.natCast_nonneg i
    · obtain ⟨hout,hpos⟩ := h.stale fd' (by simpa [hfd] using hrem)
      refine ⟨by simpa [hfd] using hout,?_⟩
      show 0 ≤ poll.index fd'
      rw [hindex fd' (.inr (by rw [h.pollChannels,hout]))]
      exact hpos

theorem step_good {s : Pollers} (h : s.Consistent) {call : Call} (hgood : s.Good call) :
    ∃ s', s.step call = some s' ∧ s'.Consistent := by
  cases call with
  | update fd interest => exact h.update hgood
  | remove fd => exact h.remove hgood

/-- A call goes well exactly if it is good. -/
theorem fine_iff {s : Pollers} (h : s.Consistent) (call : Call) : s.Fine call ↔ s.Good call := by
  constructor
  · rintro ⟨s',hs',hagree⟩
    cases call with
    | update fd interest =>
      simp only [step] at hs'
      split at hs'
      · rename_i epoll poll hepoll hpoll
        cases hs'
        refine ⟨?_,?_⟩
        · rw [Bool.eq_false_iff]
          intro hrem
          -- `index_` of a removed channel still names a place in `pollfds_`
          obtain ⟨hout,hpos⟩ := h.stale fd hrem
          have hreg : s.poll.channels fd = false := by rw [h.pollChannels,hout]
          simp [PollPoller.updateChannel,show ¬ s.poll.index fd < 0 by omega,hreg] at hpoll
        · rintro ⟨hold,hnew⟩
          have hindex : s.epoll.index fd ≠ EPollPoller.kAdded := by
            cases hreg : s.epoll.channels fd with
            | false =>
              rw [(h.epoll.unknown fd hreg).1]
              decide
            | true =>
              rw [(h.epoll.idle fd hreg (isNoneEvent_iff.mp hold)).1]
              decide
          have hwatched := EPollPoller.updateChannel_watches hindex hepoll
          have hsome := ((hagree.epoll fd).mp ⟨_,hwatched⟩).2
          simp [hnew] at hsome
      · cases hs'
    | remove fd =>
      simp only [step] at hs'
      split at hs'
      · rename_i hnone
        split at hs'
        · rename_i epoll poll hepoll hpoll
          refine ⟨?_,hnone⟩
          rw [← h.epollChannels]
          rw [EPollPoller.removeChannel] at hepoll
          split at hepoll
          · rename_i hcond
            exact hcond.1
          · cases hepoll
        · cases hs'
      · cases hs'
  · intro hgood
    obtain ⟨s',hs',hconsistent⟩ := step_good h hgood
    exact ⟨s',hs',hconsistent.agree⟩

theorem create_consistent : create.Consistent where
  epoll := ⟨fun _ _ => ⟨rfl,rfl⟩,nofun,nofun⟩
  poll := ⟨fun fd => .inr rfl,nofun,nofun⟩
  epollChannels _ := rfl
  pollChannels _ := rfl
  idle _ _ := rfl
  fresh _ _ _ := show (-1 : ℤ) < 0 by decide
  stale := nofun
  settable _ := .inl rfl

/-- For every sequence of calls on any channels with distinct descriptors: the pollers watch the
same, which is what is registered with an interest, behind each call if and only if no call is
on a channel that was removed, updates one from no interest to no interest, or removes one that
is not registered or has an interest. -/
theorem pollers_agree_iff (calls : List Call) : Along step Fine create calls ↔ Along step Good create calls := by
  refine Along.congr (I:=Consistent) (fun s call t hs hgood hstep => ?_) (fun s call hs => fine_iff hs call)
    create_consistent
  obtain ⟨s',hs',hconsistent⟩ := step_good hs hgood
  cases hs'.symm.trans hstep
  exact hconsistent

/-- Reading is switched off, and then everything, as `stopRead` and a close behind it do. -/
def disabledTwice : List Call := [.update 5 .enableReading,.update 5 .disableReading,.update 5 .disableAll]

theorem pollers_disagree :
    ¬ ∀ calls : List Call, (∀ fd, .remove fd ∉ calls) → Along step Fine create calls := by
  intro h
  have halong := h disabledTwice (by simp [disabledTwice])
  obtain ⟨s,hs,hagree⟩ := ((halong.2 _ rfl).2 _ rfl).1
  have hfd : (exec step create disabledTwice).map (fun s => (s.epoll.kernel 5,(s.channels 5).isNoneEvent)) =
      some (some 0,true) := by decide +kernel
  have hrun : exec step create disabledTwice = some s := by
    simp only [disabledTwice,exec]
    exact hs
  rw [hrun] at hfd
  obtain ⟨hkernel,hnone⟩ : s.epoll.kernel 5 = some 0 ∧ (s.channels 5).isNoneEvent = true := by simpa using hfd
  have hsome := ((hagree.epoll 5).mp ⟨0,hkernel⟩).2
  exact absurd (hnone.symm.trans hsome) (by decide)

end Pollers
end GgLib
