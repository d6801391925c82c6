import GgLib.AsyncLogging
import Mathlib.Data.List.Basic

/-! What `AsyncLogging` keeps: which of the pointers are null, where the spare buffers are,
and that the lines reach `LogFile` in the order of their `append`, apart from what a batch of
more than 16 buffers drops. -/
namespace GgLib

open LabelledSystem FixedBuffer

namespace AsyncLogging

variable {w w' : AsyncLogging}

/-- Behind the critical section: `toWrite` has a buffer for each spare one that is missing. -/
structure Loaded (Buffer1 Buffer2 : BufferPtr) (toWrite : List BufferPtr) : Prop where
  first : Buffer1 = none
  second : Buffer2 = some .empty ∧ toWrite ≠ [] ∨ Buffer2 = none ∧ 2 ≤ toWrite.length
  owned : ∀ p ∈ toWrite, p ≠ none

theorem Loaded.ne_nil {Buffer1 Buffer2 : BufferPtr} {toWrite : List BufferPtr} (h : Loaded Buffer1 Buffer2 toWrite) :
    toWrite ≠ [] := by
  rcases h.second with ⟨-,hne⟩ | ⟨-,hlen⟩
  · exact hne
  · exact List.ne_nil_of_length_pos (by omega)

theorem Loaded.take {Buffer1 Buffer2 : BufferPtr} {toWrite : List BufferPtr} (h : Loaded Buffer1 Buffer2 toWrite) :
    Loaded Buffer1 Buffer2 (toWrite.take 2) := by
  refine ⟨h.first,?_,fun p hp => h.owned p (List.mem_of_mem_take hp)⟩
  have hpos := List.length_pos_of_ne_nil h.ne_nil
  rcases h.second with ⟨hsecond,-⟩ | ⟨hsecond,hlen⟩
  · exact .inl ⟨hsecond,List.ne_nil_of_length_pos (by rw [List.length_take]; omega)⟩
  · exact .inr ⟨hsecond,by rw [List.length_take]; omega⟩

/-- Where the spare buffers are. -/
def Spare (phase : Phase) (Buffer1 Buffer2 : BufferPtr) (toWrite : List BufferPtr) : Prop :=
  match phase with
  | .created | .starting | .opening => True
  | .testing | .locking | .waiting => Buffer1 = some .empty ∧ Buffer2 = some .empty ∧ toWrite = []
  | .dropping => Loaded Buffer1 Buffer2 toWrite
  | .writing todo => Loaded Buffer1 Buffer2 toWrite ∧ todo <:+ toWrite
  | .refilling1 => Loaded Buffer1 Buffer2 toWrite
  | .refilling2 => Buffer1 = some .empty ∧ (Buffer2 = some .empty ∨ Buffer2 = none ∧ toWrite ≠ []) ∧
      ∀ p ∈ toWrite, p ≠ none
  | .clearing => Buffer1 = some .empty ∧ Buffer2 = some .empty
  | .returned => True
  | .failed => False

/-- The pointers that both sides share. -/
structure Stocked (w : AsyncLogging) : Prop where
  current : w.currentBuffer ≠ none
  next : w.nextBuffer = none → w.buffers ≠ []
  fresh : ∀ buffer, w.nextBuffer = some buffer → buffer = .empty
  owned : ∀ p ∈ w.buffers, p ≠ none
  spare : Spare w.phase w.Buffer1 w.Buffer2 w.toWrite

def bytesOf (ps : List BufferPtr) : List Byte := ps.flatMap bytes

@[simp] theorem bytesOf_nil : bytesOf [] = [] := rfl
@[simp] theorem bytesOf_cons (p : BufferPtr) (ps : List BufferPtr) : bytesOf (p::ps) = bytes p++bytesOf ps := rfl
@[simp] theorem bytesOf_append (ps qs : List BufferPtr) : bytesOf (ps++qs) = bytesOf ps++bytesOf qs :=
  List.flatMap_append

theorem bytesOf_eq_flatten (ps : List BufferPtr) : bytesOf ps = (ps.map bytes).flatten := rfl

def buffered (w : AsyncLogging) : List Byte := bytesOf w.buffers++bytes w.currentBuffer

def undecided (w : AsyncLogging) : List Byte :=
  match w.phase with
  | .dropping => bytesOf w.toWrite
  | _ => []

def inHand (w : AsyncLogging) : List Byte :=
  match w.phase with
  | .writing todo => bytesOf todo
  | _ => []

def unwritten (w : AsyncLogging) : List Byte := w.inHand++w.undecided

/-- What a buffer keeps of a line. -/
def stored (line : List Byte) : List Byte := line.take kLargeBuffer

/-- What the swaps took over and what they left are all lines, and of each batch its part goes
to `LogFile`. -/
structure Ordered (w : AsyncLogging) : Prop where
  lines : w.batches.flatMap Batch.taken++w.undecided++w.buffered = (w.lines.map stored).flatten
  output : w.output++w.inHand = w.batches.flatMap Batch.written

theorem append_cases (hcurrent : w.currentBuffer ≠ none) (line : List Byte) :
    ∃ buffer, w.currentBuffer = some buffer ∧
      ((line.length < buffer.avail ∧ w.append line =
          { w with
            currentBuffer := some (buffer.append line)
            lines := w.lines++[line]
            inAppend := w.inAppend++[w.lines.length] }) ∨
        (∃ next : Buffer, (w.nextBuffer = some next ∨ w.nextBuffer = none ∧ next = .empty) ∧ w.append line =
          { w with
            buffers := w.buffers++[some buffer]
            currentBuffer := some (next.append line)
            nextBuffer := none
            lines := w.lines++[line]
            inAppend := w.inAppend++[w.lines.length] })) := by
  obtain ⟨buffer,hbuffer⟩ := Option.ne_none_iff_exists'.mp hcurrent
  refine ⟨buffer,hbuffer,?_⟩
  rw [append,hbuffer]
  by_cases hroom : line.length < buffer.avail
  · exact .inl ⟨hroom,by simp only [if_pos hroom]⟩
  · simp only [if_neg hroom]
    cases hnext : w.nextBuffer with
    | some next => exact .inr ⟨next,.inl rfl,rfl⟩
    | none => exact .inr ⟨.empty,.inr ⟨rfl,rfl⟩,rfl⟩

theorem append_eq (hcurrent : w.currentBuffer ≠ none) (line : List Byte) :
    ∃ currentBuffer nextBuffer buffers, w.append line =
      { w with
        currentBuffer := currentBuffer
        nextBuffer := nextBuffer
        buffers := buffers
        lines := w.lines++[line]
        inAppend := w.inAppend++[w.lines.length] } := by
  obtain ⟨buffer,-,⟨-,heq⟩ | ⟨next,-,heq⟩⟩ := append_cases hcurrent line
  · exact ⟨_,_,_,heq⟩
  · exact ⟨_,_,_,heq⟩

theorem Stocked.append (h : w.Stocked) (line : List Byte) : (w.append line).Stocked := by
  obtain ⟨buffer,-,⟨-,heq⟩ | ⟨next,-,heq⟩⟩ := append_cases h.current line
  · rw [heq]
    exact ⟨by simp,h.next,h.fresh,h.owned,h.spare⟩
  · rw [heq]
    refine ⟨by simp,fun _ => by simp,fun _ hnone => (by cases hnone),fun p hp => ?_,h.spare⟩
    rcases List.mem_append.mp hp with hp | hp
    · exact h.owned p hp
    · rw [List.mem_singleton.mp hp]
      simp

theorem buffered_append (h : w.Stocked) (line : List Byte) : (w.append line).buffered = w.buffered++stored line := by
  obtain ⟨buffer,hbuffer,⟨hroom,heq⟩ | ⟨next,hnext,heq⟩⟩ := append_cases h.current line
  · have hfits : line.length ≤ kLargeBuffer := Nat.le_trans (Nat.le_of_lt hroom) (Nat.sub_le _ _)
    rw [heq,buffered,buffered,hbuffer,stored,List.take_of_length_le hfits]
    show bytesOf w.buffers++(buffer.append line).data = _
    rw [append_of_le (Nat.le_of_lt hroom),← List.append_assoc]
    rfl
  · have hempty : next = .empty := by
      rcases hnext with hnext | ⟨-,rfl⟩
      · exact h.fresh next hnext
      · rfl
    rw [heq,buffered,buffered,hbuffer]
    show bytesOf (w.buffers++[some buffer])++(next.append line).data = _
    rw [append_of_empty (by rw [hempty]; rfl),bytesOf_append]
    simp [stored,bytes]

theorem Ordered.append (hs : w.Stocked) (h : w.Ordered) (line : List Byte) : (w.append line).Ordered := by
  have hbuffered := buffered_append hs line
  obtain ⟨currentBuffer,nextBuffer,buffers,heq⟩ := append_eq hs.current line
  rw [heq] at hbuffered ⊢
  refine ⟨?_,h.output⟩
  rw [hbuffered,List.map_append,List.flatten_append,← h.lines]
  simp [undecided]

theorem swap_cases (w : AsyncLogging) :
    ∃ nextBuffer Buffer2, (w.nextBuffer = none ∧ nextBuffer = w.Buffer2 ∧ Buffer2 = none ∨
        w.nextBuffer ≠ none ∧ nextBuffer = w.nextBuffer ∧ Buffer2 = w.Buffer2) ∧
      w.swap =
        { w with
          currentBuffer := w.Buffer1
          nextBuffer := nextBuffer
          buffers := w.toWrite
          Buffer1 := none
          Buffer2 := Buffer2
          toWrite := w.buffers++[w.currentBuffer]
          phase := .dropping } := by
  rw [swap]
  by_cases hnext : w.nextBuffer = none
  · exact ⟨w.Buffer2,none,.inl ⟨hnext,rfl,rfl⟩,by simp only [if_pos hnext]⟩
  · exact ⟨w.nextBuffer,w.Buffer2,.inr ⟨hnext,rfl,rfl⟩,by simp only [if_neg hnext]⟩

/-- Both invariants. -/
structure Sound (w : AsyncLogging) : Prop where
  stocked : w.Stocked
  ordered : w.Ordered

theorem Sound.swap (h : w.Sound) (hspare : w.Buffer1 = some .empty ∧ w.Buffer2 = some .empty ∧ w.toWrite = [])
    (hundecided : w.undecided = []) (hinHand : w.inHand = []) : w.swap.Sound := by
  obtain ⟨hfirst,hsecond,htoWrite⟩ := hspare
  obtain ⟨nextBuffer,Buffer2,hnext,heq⟩ := swap_cases w
  rw [heq]
  have howned : ∀ p ∈ w.buffers++[w.currentBuffer], p ≠ none := by
    intro p hp
    rcases List.mem_append.mp hp with hp | hp
    · exact h.stocked.owned p hp
    · rw [List.mem_singleton.mp hp]
      exact h.stocked.current
  have hloaded : Loaded none Buffer2 (w.buffers++[w.currentBuffer]) := by
    refine ⟨rfl,?_,howned⟩
    rcases hnext with ⟨hnone,-,rfl⟩ | ⟨-,-,rfl⟩
    · have hlen := List.length_pos_of_ne_nil (h.stocked.next hnone)
      exact .inr ⟨rfl,by rw [List.length_append,List.length_singleton]; omega⟩
    · exact .inl ⟨hsecond,by simp⟩
  have hfresh : nextBuffer ≠ none ∧ ∀ buffer, nextBuffer = some buffer → buffer = .empty := by
    rcases hnext with ⟨-,rfl,-⟩ | ⟨hne,rfl,-⟩
    · rw [hsecond]
      exact ⟨by simp,fun buffer hb => (Option.some.inj hb).symm⟩
    · exact ⟨hne,h.stocked.fresh⟩
  refine ⟨⟨?_,fun hnone => absurd hnone hfresh.1,hfresh.2,?_,hloaded⟩,?_,?_⟩
  · show w.Buffer1 ≠ none
    simp [hfirst]
  · show ∀ p ∈ w.toWrite, p ≠ none
    simp [htoWrite]
  · have hlines := h.ordered.lines
    rw [hundecided,List.append_nil] at hlines
    show w.batches.flatMap Batch.taken++bytesOf (w.buffers++[w.currentBuffer])++(bytesOf w.toWrite++bytes w.Buffer1) = _
    rw [htoWrite,hfirst,← hlines]
    simp [buffered,bytes,FixedBuffer.empty]
  · have houtput := h.ordered.output
    rw [hinHand] at houtput
    exact houtput

theorem map_bytes_take (ps : List BufferPtr) (n : ℕ) : ((ps.map bytes).take n).flatten = bytesOf (ps.take n) := by
  rw [← List.map_take]
  rfl

theorem Sound.drop (h : w.Sound) (hphase : w.phase = .dropping) {now : List Byte} (hadvance : w.advance now = some w') :
    w'.Sound := by
  have hspare := h.stocked.spare
  rw [hphase] at hspare
  have hloaded : Loaded w.Buffer1 w.Buffer2 w.toWrite := hspare
  have hne := hloaded.ne_nil
  have hlines := h.ordered.lines
  have houtput := h.ordered.output
  rw [undecided,hphase] at hlines
  rw [inHand,hphase,List.append_nil] at houtput
  simp only [advance,hphase,if_neg hne] at hadvance
  split at hadvance
  · rename_i hmany
    cases hadvance
    have htake := hloaded.take
    refine ⟨⟨h.stocked.current,h.stocked.next,h.stocked.fresh,h.stocked.owned,htake,List.suffix_refl _⟩,?_,?_⟩
    · rw [← hlines]
      simp [undecided,buffered,Batch.taken,bytesOf_eq_flatten]
    · show w.output++notice now (w.toWrite.length-2)++bytesOf (w.toWrite.take 2) = _
      rw [List.flatMap_append,← houtput]
      simp [Batch.written,hmany,map_bytes_take]
  · rename_i hfew
    cases hadvance
    refine ⟨⟨h.stocked.current,h.stocked.next,h.stocked.fresh,h.stocked.owned,hloaded,List.suffix_refl _⟩,?_,?_⟩
    · rw [← hlines]
      simp [undecided,buffered,Batch.taken,bytesOf_eq_flatten]
    · show w.output++bytesOf w.toWrite = _
      rw [List.flatMap_append,← houtput]
      simp [Batch.written,hfew,bytesOf_eq_flatten]

theorem popReset_of_owned (hne : w.toWrite ≠ []) (howned : ∀ p ∈ w.toWrite, p ≠ none) :
    ∃ toWrite, w.popReset = some (some .empty,toWrite) ∧ toWrite.length+1 = w.toWrite.length ∧
      ∀ p ∈ toWrite, p ≠ none := by
  obtain ⟨buffer,hbuffer⟩ := Option.ne_none_iff_exists'.mp (howned _ (List.getLast_mem hne))
  refine ⟨w.toWrite.dropLast,?_,?_,fun p hp => howned p (List.dropLast_subset _ hp)⟩
  · rw [popReset,List.getLast?_eq_some_getLast hne,hbuffer]
    rfl
  · have hpos := List.length_pos_of_ne_nil hne
    rw [List.length_dropLast]
    omega

/-- Nothing is taken over and not written yet. -/
def Idle (phase : Phase) : Prop :=
  match phase with
  | .dropping => False
  | .writing todo => todo = []
  | _ => True

theorem undecided_of_idle (h : Idle w.phase) : w.undecided = [] := by
  cases hphase : w.phase <;> rw [undecided,hphase]
  rw [hphase] at h
  exact h.elim

theorem inHand_of_idle (h : Idle w.phase) : w.inHand = [] := by
  cases hphase : w.phase <;> rw [inHand,hphase]
  rw [hphase] at h
  rw [show _ = [] from h]
  rfl

theorem Sound.move (h : w.Sound) (hold : Idle w.phase) {running : Bool} {latch : ℕ} {Buffer1 Buffer2 : BufferPtr}
    {toWrite : List BufferPtr} {phase : Phase} (hnew : Idle phase) (hspare : Spare phase Buffer1 Buffer2 toWrite) :
    Sound { w with running, latch, Buffer1, Buffer2, toWrite, phase } := by
  have hlines := h.ordered.lines
  have houtput := h.ordered.output
  rw [undecided_of_idle hold] at hlines
  rw [inHand_of_idle hold] at houtput
  refine ⟨⟨h.stocked.current,h.stocked.next,h.stocked.fresh,h.stocked.owned,hspare⟩,?_,?_⟩
  · rw [undecided_of_idle hnew]
    exact hlines
  · rw [inHand_of_idle hnew]
    exact houtput

theorem Sound.write {todo : List BufferPtr} (h : w.Sound) (hphase : w.phase = .writing todo) {now : List Byte}
    (hadvance : w.advance now = some w') : w'.Sound := by
  have hspare := h.stocked.spare
  rw [hphase] at hspare
  obtain ⟨hloaded,hsuffix⟩ := hspare
  cases todo with
  | nil =>
    simp only [advance,hphase] at hadvance
    cases hadvance
    exact h.move (by rw [hphase]; rfl) trivial hloaded.take
  | cons p todo =>
    have hlines := h.ordered.lines
    have houtput := h.ordered.output
    simp only [undecided,hphase] at hlines
    simp only [inHand,hphase] at houtput
    obtain ⟨buffer,rfl⟩ := Option.ne_none_iff_exists'.mp (hloaded.owned p (hsuffix.subset (.head _)))
    simp only [advance,hphase] at hadvance
    cases hadvance
    refine ⟨⟨h.stocked.current,h.stocked.next,h.stocked.fresh,h.stocked.owned,hloaded,?_⟩,hlines,?_⟩
    · exact (List.suffix_cons _ _).trans hsuffix
    · rw [← houtput,bytesOf_cons]
      exact List.append_assoc _ _ _

theorem Sound.refill (h : w.Sound) (hphase : w.phase = .refilling1 ∨ w.phase = .refilling2) {now : List Byte}
    (hadvance : w.advance now = some w') : w'.Sound := by
  have hspare := h.stocked.spare
  rcases hphase with hphase | hphase <;> rw [hphase] at hspare
  · have hloaded : Loaded w.Buffer1 w.Buffer2 w.toWrite := hspare
    obtain ⟨toWrite,hpop,hlen,howned⟩ := popReset_of_owned hloaded.ne_nil hloaded.owned
    simp only [advance,hphase,if_pos hloaded.first,hpop] at hadvance
    cases hadvance
    refine h.move (by rw [hphase]; trivial) trivial ⟨rfl,?_,howned⟩
    rcases hloaded.second with ⟨hsecond,-⟩ | ⟨hsecond,htwo⟩
    · exact .inl hsecond
    · have hpos : 0 < toWrite.length := by omega
      exact .inr ⟨hsecond,List.ne_nil_of_length_pos hpos⟩
  · obtain ⟨hfirst,hsecond | ⟨hsecond,hne⟩,howned⟩ := hspare
    · have hsome : w.Buffer2 ≠ none := by simp [hsecond]
      simp only [advance,hphase,if_neg hsome] at hadvance
      cases hadvance
      exact h.move (by rw [hphase]; trivial) trivial ⟨hfirst,hsecond⟩
    · obtain ⟨toWrite,hpop,-⟩ := popReset_of_owned hne howned
      simp only [advance,hphase,if_pos hsecond,hpop] at hadvance
      cases hadvance
      exact h.move (by rw [hphase]; trivial) trivial ⟨hfirst,rfl⟩

/-- `stop()` is called behind `start()`, and that returns behind the assertion of `threadFunc`. -/
structure Launched (w : AsyncLogging) : Prop where
  early : w.phase = .created ∨ w.phase = .starting → w.latch = 1
  running : w.phase = .starting → w.running = true
  stopped : w.stopPc ≠ .idle → w.latch = 0

/-- A step of the back-end. -/
theorem Sound.advance (hl : w.Launched) (h : w.Sound) {now : List Byte} (hadvance : w.advance now = some w') :
    w'.Sound := by
  have hspare := h.stocked.spare
  cases hphase : w.phase with
  | created =>
    rw [AsyncLogging.advance,hphase] at hadvance
    cases hadvance
  | starting =>
    simp only [AsyncLogging.advance,hphase,if_pos (hl.running hphase)] at hadvance
    cases hadvance
    exact h.move (by rw [hphase]; trivial) trivial trivial
  | opening =>
    simp only [AsyncLogging.advance,hphase] at hadvance
    cases hadvance
    exact h.move (by rw [hphase]; trivial) trivial ⟨rfl,rfl,rfl⟩
  | testing =>
    rw [hphase] at hspare
    simp only [AsyncLogging.advance,hphase,if_pos (show _ ∧ _ ∧ _ from hspare)] at hadvance
    split at hadvance
    · cases hadvance
      exact h.move (by rw [hphase]; trivial) trivial hspare
    · cases hadvance
      exact h.move (by rw [hphase]; trivial) trivial trivial
  | locking =>
    rw [hphase] at hspare
    simp only [AsyncLogging.advance,hphase] at hadvance
    split at hadvance
    · cases hadvance
      exact h.move (by rw [hphase]; trivial) trivial hspare
    · cases hadvance
      exact h.swap hspare (by rw [undecided,hphase]) (by rw [inHand,hphase])
  | waiting =>
    rw [hphase] at hspare
    simp only [AsyncLogging.advance,hphase] at hadvance
    cases hadvance
    exact h.swap hspare (by rw [undecided,hphase]) (by rw [inHand,hphase])
  | dropping => exact h.drop hphase hadvance
  | writing todo => exact h.write hphase hadvance
  | refilling1 => exact h.refill (.inl hphase) hadvance
  | refilling2 => exact h.refill (.inr hphase) hadvance
  | clearing =>
    rw [hphase] at hspare
    simp only [AsyncLogging.advance,hphase] at hadvance
    cases hadvance
    exact h.move (by rw [hphase]; trivial) trivial ⟨hspare.1,hspare.2,rfl⟩
  | returned =>
    rw [AsyncLogging.advance,hphase] at hadvance
    cases hadvance
  | failed =>
    rw [AsyncLogging.advance,hphase] at hadvance
    cases hadvance

/-- What the back-end leaves alone, and what a batch records. -/
structure Behind (w w' : AsyncLogging) : Prop where
  running : w'.running = w.running
  latch : w'.latch ≤ w.latch
  stopPc : w'.stopPc = w.stopPc
  lines : w'.lines = w.lines
  inAppend : w'.inAppend = w.inAppend
  accepted : w'.accepted = w.accepted
  phase : w'.phase ≠ .created ∧ w'.phase ≠ .starting
  batches : w'.batches = w.batches ∨
    ∃ now pieces, w'.batches = w.batches++[Batch.mk pieces (notice now (pieces.length-2))]

theorem swap_behind (w : AsyncLogging) : Behind w w.swap := by
  obtain ⟨nextBuffer,Buffer2,-,heq⟩ := swap_cases w
  rw [heq]
  exact ⟨rfl,Nat.le_refl _,rfl,rfl,rfl,rfl,⟨by simp,by simp⟩,.inl rfl⟩

theorem behind_of_moved (w : AsyncLogging) {latch : ℕ} {Buffer1 Buffer2 : BufferPtr} {toWrite : List BufferPtr}
    {output : List Byte} {phase : Phase} (hlatch : latch ≤ w.latch) (hphase : phase ≠ .created ∧ phase ≠ .starting) :
    Behind w { w with latch, Buffer1, Buffer2, toWrite, output, phase } :=
  ⟨rfl,hlatch,rfl,rfl,rfl,rfl,hphase,.inl rfl⟩

theorem advance_behind {now : List Byte} (h : w.advance now = some w') : Behind w w' := by
  cases hphase : w.phase with
  | created | returned | failed =>
    simp only [AsyncLogging.advance,hphase] at h
    cases h
  | opening | clearing =>
    simp only [AsyncLogging.advance,hphase] at h
    cases h
    exact behind_of_moved w (Nat.le_refl _) (by simp)
  | starting =>
    simp only [AsyncLogging.advance,hphase] at h
    split at h <;> cases h
    · exact behind_of_moved w (Nat.sub_le _ _) (by simp)
    · exact behind_of_moved w (Nat.le_refl _) (by simp)
  | testing =>
    simp only [AsyncLogging.advance,hphase] at h
    repeat' split at h
    all_goals
      cases h
      exact behind_of_moved w (Nat.le_refl _) (by simp)
  | locking =>
    simp only [AsyncLogging.advance,hphase] at h
    split at h <;> cases h
    · exact behind_of_moved w (Nat.le_refl _) (by simp)
    · exact swap_behind w
  | waiting =>
    simp only [AsyncLogging.advance,hphase] at h
    cases h
    exact swap_behind w
  | dropping =>
    simp only [AsyncLogging.advance,hphase] at h
    have hlen : (w.toWrite.map bytes).length = w.toWrite.length := List.length_map _
    split at h
    · cases h
      exact behind_of_moved w (Nat.le_refl _) (by simp)
    · split at h <;> cases h <;>
        exact ⟨rfl,Nat.le_refl _,rfl,rfl,rfl,rfl,⟨by simp,by simp⟩,.inr ⟨now,w.toWrite.map bytes,by rw [hlen]⟩⟩
  | writing todo =>
    cases todo with
    | nil =>
      simp only [AsyncLogging.advance,hphase] at h
      cases h
      exact behind_of_moved w (Nat.le_refl _) (by simp)
    | cons p todo =>
      cases p <;> simp only [AsyncLogging.advance,hphase] at h <;> cases h <;>
        exact behind_of_moved w (Nat.le_refl _) (by simp)
  | refilling1 | refilling2 =>
    simp only [AsyncLogging.advance,hphase] at h
    repeat' split at h
    all_goals
      cases h
      exact behind_of_moved w (Nat.le_refl _) (by simp)

theorem Launched.advance (h : w.Launched) {now : List Byte} (hadvance : w.advance now = some w') : w'.Launched := by
  have hbehind := advance_behind hadvance
  refine ⟨fun hearly => ?_,fun hstarting => absurd hstarting hbehind.phase.2,fun hstopped => ?_⟩
  · rcases hearly with hearly | hearly
    · exact absurd hearly hbehind.phase.1
    · exact absurd hearly hbehind.phase.2
  · have hlatch := h.stopped (by rw [← hbehind.stopPc]; exact hstopped)
    have hle := hbehind.latch
    omega

def Noticed (w : AsyncLogging) : Prop := ∀ b ∈ w.batches, ∃ now, b.notice = notice now (b.pieces.length-2)

/-- An `append` returns: before `stop()` is called its line counts as accepted. -/
theorem ret_cases {i : ℕ} (h : step w (.ret i) = some w') :
    i ∈ w.inAppend ∧
      (w.stopPc = .idle ∧ w' = { w with inAppend := w.inAppend.erase i, accepted := w.accepted++[i] } ∨
        w.stopPc ≠ .idle ∧ w' = { w with inAppend := w.inAppend.erase i }) := by
  simp only [step] at h
  split at h
  · rename_i hmem
    split at h <;> cases h
    · exact ⟨hmem,.inl ⟨‹_›,rfl⟩⟩
    · exact ⟨hmem,.inr ⟨‹_›,rfl⟩⟩
  · cases h

theorem start_cases (h : step w .start = some w') :
    w.phase = .created ∧ w' = { w with running := true, phase := .starting } := by
  simp only [step] at h
  split at h <;> cases h
  exact ⟨‹_›,rfl⟩

theorem stop_cases (h : step w .stop = some w') :
    w.latch = 0 ∧ w.stopPc = .idle ∧ w' = { w with stopPc := .called } := by
  simp only [step] at h
  split at h <;> cases h
  rename_i hidle
  exact ⟨hidle.1,hidle.2,rfl⟩

theorem advanceStop_cases (h : step w .advanceStop = some w') :
    w.stopPc = .called ∧ w' = { w with running := false, stopPc := .stored } ∨
    w.stopPc = .stored ∧ w' = { w with stopPc := .notified } ∨
    w.stopPc = .notified ∧ w.phase = .returned ∧ w' = { w with stopPc := .returned } := by
  simp only [step,advanceStop] at h
  split at h
  · cases h
  · cases h
    exact .inl ⟨‹_›,rfl⟩
  · cases h
    exact .inr (.inl ⟨‹_›,rfl⟩)
  · split at h <;> cases h
    exact .inr (.inr ⟨‹_›,‹_›,rfl⟩)
  · cases h

theorem step_cases {label : Label} (h : step w label = some w') :
    (∃ line, label = .append line ∧ w.phase ≠ .failed ∧ w' = w.append line) ∨
    (∃ inAppend accepted, w' = { w with inAppend, accepted }) ∨
    (label = .start ∧ w.phase = .created ∧ w' = { w with running := true, phase := .starting }) ∨
    (∃ now, label = .advance now ∧ w.advance now = some w') ∨
    (label = .stop ∧ w.latch = 0 ∧ w.stopPc = .idle ∧ w' = { w with stopPc := .called }) ∨
    ∃ running stopPc, label = .advanceStop ∧ w.stopPc ≠ .idle ∧ (running = w.running ∨ running = false) ∧
      stopPc ≠ .idle ∧
      w' = { w with running, stopPc } := by
  cases label with
  | append line =>
    simp only [step] at h
    split at h <;> cases h
    exact .inl ⟨line,rfl,‹_›,rfl⟩
  | ret i =>
    obtain ⟨-,⟨-,rfl⟩ | ⟨-,rfl⟩⟩ := ret_cases h <;> exact .inr (.inl ⟨_,_,rfl⟩)
  | start =>
    obtain ⟨hcreated,rfl⟩ := start_cases h
    exact .inr (.inr (.inl ⟨rfl,hcreated,rfl⟩))
  | advance now => exact .inr (.inr (.inr (.inl ⟨now,rfl,h⟩)))
  | stop =>
    obtain ⟨hlatch,hidle,rfl⟩ := stop_cases h
    exact .inr (.inr (.inr (.inr (.inl ⟨rfl,hlatch,hidle,rfl⟩))))
  | advanceStop =>
    refine .inr (.inr (.inr (.inr (.inr ?_))))
    rcases advanceStop_cases h with ⟨hpc,rfl⟩ | ⟨hpc,rfl⟩ | ⟨hpc,-,rfl⟩
    · exact ⟨false,.stored,rfl,by simp [hpc],.inr rfl,by simp,rfl⟩
    · exact ⟨w.running,.notified,rfl,by simp [hpc],.inl rfl,by simp,rfl⟩
    · exact ⟨w.running,.returned,rfl,by simp [hpc],.inl rfl,by simp,rfl⟩

theorem step_launched {label : Label} (hs : w.Stocked) (h : w.Launched) (hstep : step w label = some w') :
    w'.Launched := by
  rcases step_cases hstep with ⟨line,-,-,rfl⟩ | ⟨inAppend,accepted,rfl⟩ | ⟨-,hcreated,rfl⟩ | ⟨now,-,hadvance⟩ |
    ⟨-,hlatch,-,rfl⟩ | ⟨running,stopPc,-,hidle,-,-,rfl⟩
  · obtain ⟨currentBuffer,nextBuffer,buffers,heq⟩ := append_eq hs.current line
    rw [heq]
    exact ⟨h.early,h.running,h.stopped⟩
  · exact ⟨h.early,h.running,h.stopped⟩
  · exact ⟨fun _ => h.early (.inl hcreated),fun _ => rfl,h.stopped⟩
  · exact h.advance hadvance
  · exact ⟨h.early,h.running,fun _ => hlatch⟩
  · have hlatch := h.stopped hidle
    refine ⟨h.early,fun hstarting => ?_,fun _ => hlatch⟩
    have hone := h.early (.inr hstarting)
    omega

theorem step_sound {label : Label} (hl : w.Launched) (h : w.Sound) (hstep : step w label = some w') : w'.Sound := by
  obtain ⟨hs,ho⟩ := h
  rcases step_cases hstep with ⟨line,-,-,rfl⟩ | ⟨inAppend,accepted,rfl⟩ | ⟨-,hcreated,rfl⟩ | ⟨now,-,hadvance⟩ |
    ⟨-,-,-,rfl⟩ | ⟨running,stopPc,-,-,-,-,rfl⟩
  · exact ⟨hs.append line,ho.append hs line⟩
  · exact ⟨⟨hs.current,hs.next,hs.fresh,hs.owned,hs.spare⟩,ho.lines,ho.output⟩
  · exact Sound.move ⟨hs,ho⟩ (by rw [hcreated]; trivial) trivial trivial
  · exact Sound.advance hl ⟨hs,ho⟩ hadvance
  · exact ⟨⟨hs.current,hs.next,hs.fresh,hs.owned,hs.spare⟩,ho.lines,ho.output⟩
  · exact ⟨⟨hs.current,hs.next,hs.fresh,hs.owned,hs.spare⟩,ho.lines,ho.output⟩

theorem step_noticed {label : Label} (hs : w.Stocked) (h : w.Noticed) (hstep : step w label = some w') :
    w'.Noticed := by
  rcases step_cases hstep with ⟨line,-,-,rfl⟩ | ⟨inAppend,accepted,rfl⟩ | ⟨-,-,rfl⟩ | ⟨now,-,hadvance⟩ |
    ⟨-,-,-,rfl⟩ | ⟨running,stopPc,-,-,-,-,rfl⟩
  · obtain ⟨currentBuffer,nextBuffer,buffers,heq⟩ := append_eq hs.current line
    rw [heq]
    exact h
  · exact h
  · exact h
  · rcases (advance_behind hadvance).batches with hbatches | ⟨now',pieces,hbatches⟩ <;> rw [Noticed,hbatches]
    · exact h
    · intro b hb
      rcases List.mem_append.mp hb with hb | hb
      · exact h b hb
      · rw [List.mem_singleton.mp hb]
        exact ⟨now',rfl⟩
  · exact h
  · exact h

theorem step_lines {label : Label} (hs : w.Stocked) (hstep : step w label = some w') :
    w'.lines = w.lines ∨ ∃ line, label = .append line ∧ w'.lines = w.lines++[line] := by
  rcases step_cases hstep with ⟨line,hlabel,-,rfl⟩ | ⟨inAppend,accepted,rfl⟩ | ⟨-,-,rfl⟩ | ⟨now,-,hadvance⟩ |
    ⟨-,-,-,rfl⟩ | ⟨running,stopPc,-,-,-,-,rfl⟩
  · obtain ⟨currentBuffer,nextBuffer,buffers,heq⟩ := append_eq hs.current line
    exact .inr ⟨line,hlabel,by rw [heq]⟩
  · exact .inl rfl
  · exact .inl rfl
  · exact .inl (advance_behind hadvance).lines
  · exact .inl rfl
  · exact .inl rfl

/-- What every run keeps. -/
structure Working (w : AsyncLogging) : Prop where
  launched : w.Launched
  sound : w.Sound
  noticed : w.Noticed

theorem create_working : create.Working where
  launched := ⟨fun _ => rfl,nofun,fun h => absurd rfl h⟩
  sound := ⟨⟨nofun,nofun,fun _ h => (Option.some.inj h).symm,nofun,trivial⟩,rfl,rfl⟩
  noticed := nofun

theorem step_working {label : Label} (h : w.Working) (hstep : step w label = some w') : w'.Working :=
  ⟨step_launched h.sound.stocked h.launched hstep,step_sound h.launched h.sound hstep,
    step_noticed h.sound.stocked h.noticed hstep⟩

theorem map_stored {lines : List (List Byte)} (h : ∀ line ∈ lines, line.length < kLargeBuffer) :
    lines.map stored = lines := by
  induction lines with
  | nil => rfl
  | cons line lines ih =>
    rw [List.map_cons,ih (fun l hl => h l (.tail _ hl)),stored,List.take_of_length_le (Nat.le_of_lt (h line (.head _)))]

theorem lines_short {labels : List Label} (h : Run step create labels w)
    (hfit : ∀ line, Label.append line ∈ labels → line.length < kLargeBuffer) :
    ∀ line ∈ w.lines, line.length < kLargeBuffer := by
  have hlabels : Along step (fun _ label => ∀ line, label = .append line → line.length < kLargeBuffer) create
      labels := by
    refine Along.of_labels
      (C:=fun label => ∀ line : List Byte, label = Label.append line → line.length < kLargeBuffer) ?_
    rintro label hlabel line rfl
    exact hfit line hlabel
  have hboth := h.invariant_along (I:=fun s => s.Working ∧ ∀ line ∈ s.lines, line.length < kLargeBuffer) ?_ hlabels
    ⟨create_working,nofun⟩
  · exact hboth.2
  · rintro s label t ⟨hs,hl⟩ hC hstep
    refine ⟨step_working hs hstep,?_⟩
    rcases step_lines hs.sound.stocked hstep with heq | ⟨line,hlabel,heq⟩ <;> rw [heq]
    · exact hl
    · intro line' hline'
      rcases List.mem_append.mp hline' with hline' | hline'
      · exact hl line' hline'
      · rw [List.mem_singleton.mp hline']
        exact hC line hlabel

/-- In every interleaving of `append`, of the back-end and of `stop`, with lines that are shorter
than a buffer: no assertion fails and no null pointer is used, the back-end has its two
spare buffers, empty, at the head of each iteration and finds a buffer for each refill, and
`nextBuffer_` is null only while `buffers_` is not empty. What is written, then what is left of
`toWrite`, `buffers_` and `currentBuffer_` are the lines in the order of `append`, but for
what a batch of more than 16 buffers writes instead of what it took over. -/
theorem lines_in_order {labels : List Label} (h : Run step create labels w)
    (hfit : ∀ line, Label.append line ∈ labels → line.length < kLargeBuffer) :
    w.phase ≠ .failed ∧ w.currentBuffer ≠ none ∧ (w.nextBuffer = none → w.buffers ≠ []) ∧
      (w.phase = .testing ∨ w.phase = .locking → w.Buffer1 = some .empty ∧ w.Buffer2 = some .empty ∧ w.toWrite = []) ∧
      (w.phase = .refilling1 ∧ w.Buffer1 = none ∨ w.phase = .refilling2 ∧ w.Buffer2 = none → w.toWrite ≠ []) ∧
      (∀ todo, w.phase = .writing todo → todo <:+ w.toWrite) ∧
      (∀ b ∈ w.batches, ∃ now, b.notice = notice now (b.pieces.length-2)) ∧
      ∃ rest, w.batches.flatMap Batch.taken++rest = w.lines.flatten ∧
        w.output++w.unwritten++w.buffered = w.batches.flatMap Batch.written++rest := by
  have hworking : w.Working := h.invariant (fun _ _ _ hs hstep => step_working hs hstep) create_working
  have hlines := lines_short h hfit
  obtain ⟨-,⟨hs,ho⟩,hnoticed⟩ := hworking
  have hspare := hs.spare
  refine ⟨fun hfailed => ?_,hs.current,hs.next,?_,?_,?_,hnoticed,w.undecided++w.buffered,?_,?_⟩
  · rw [hfailed] at hspare
    exact hspare
  · rintro (hphase | hphase) <;> rw [hphase] at hspare <;> exact hspare
  · rintro (⟨hphase,-⟩ | ⟨hphase,hnone⟩) <;> rw [hphase] at hspare
    · exact Loaded.ne_nil hspare
    · rcases hspare.2.1 with hsome | ⟨-,hne⟩
      · rw [hnone] at hsome
        cases hsome
      · exact hne
  · intro todo hphase
    rw [hphase] at hspare
    exact hspare.2
  · rw [← map_stored hlines,← ho.lines,List.append_assoc]
  · rw [← ho.output,unwritten]
    simp only [List.append_assoc]

/-- The back-end writes the first line while the second is appended. -/
def overtaken : List Label :=
  [.append (text "GET\n"),.start,.advance [],.advance [],.advance [],.advance [],.advance [],.advance [],
    .append (text "HEAD\n"),.advance []]

theorem lines_in_order_overtaken :
    ∃ w, exec step create overtaken = some w ∧ w.output = text "GET\n" ∧ w.buffered = text "HEAD\n" ∧
      ∃ rest, w.batches.flatMap Batch.taken++rest = w.lines.flatten ∧
        w.output++w.unwritten++w.buffered = w.batches.flatMap Batch.written++rest := by
  obtain ⟨w,hw⟩ : ∃ w, exec step create overtaken = some w := Option.isSome_iff_exists.mp (by decide +kernel)
  have hlast : (exec step create overtaken).map (fun w => (w.output,w.buffered)) =
      some (text "GET\n",text "HEAD\n") := by
    decide +kernel
  rw [hw] at hlast
  obtain ⟨houtput,hbuffered⟩ : w.output = text "GET\n" ∧ w.buffered = text "HEAD\n" := by simpa using hlast
  have hfit : ∀ line, Label.append line ∈ overtaken → line.length < kLargeBuffer := by
    intro line hline
    simp only [overtaken,List.mem_cons,Label.append.injEq,List.not_mem_nil,reduceCtorEq,or_false,false_or] at hline
    rcases hline with rfl | rfl <;> decide
  exact ⟨w,hw,houtput,hbuffered,(lines_in_order ((run_iff_exec _ _ _ _).mpr hw) hfit).2.2.2.2.2.2.2⟩

end AsyncLogging
end GgLib
