import GgLib.BufferRefinement

/-! The memory of the buffers over whole runs: it is bounded by what they had to hold at once, however long they
run. -/
namespace GgLib
namespace Buffer

open LabelledSystem

theorem writableBytes_eq {b : Buffer} (h : Wf b) : b.writableBytes = b.buffer.length-b.writerIndex :=
  sizeSub_of_le h.writer_le (by have := h.size_lt; omega)

theorem ensureWritableBytes_size {b : Buffer} (h : Wf b) (len : ℕ) (hlen : len < 2^63) :
    (b.ensureWritableBytes len).buffer.length ≤ max b.buffer.length (kCheapPrepend+b.readableBytes+2*len) := by
  have hwritable := writableBytes_eq h
  have hreadable : b.readableBytes = b.writerIndex-b.readerIndex :=
    sizeSub_of_le h.reader_le (by have := h.writer_le; have := h.size_lt; omega)
  have hreader := h.reader_le
  have hwriter := h.writer_le
  have hsize := h.size_lt
  rw [ensureWritableBytes]
  split
  · rw [makeSpace]
    have hsum : sizeAdd b.writableBytes b.prependableBytes = b.writableBytes+b.readerIndex :=
      sizeAdd_of_lt (by rw [prependableBytes]; omega)
    have hneed : sizeAdd len kCheapPrepend = len+kCheapPrepend := sizeAdd_of_lt (by rw [kCheapPrepend]; omega)
    split
    · -- The room in front is smaller than what is asked for, so the new end is not far behind it.
      rename_i hshort
      have hend : sizeAdd b.writerIndex len ≤ b.writerIndex+len := Nat.mod_le _ _
      rw [hsum,hneed] at hshort
      rw [compact_length,grow,MemoryBlock.resize_length]
      omega
    · rw [compact_length]
      omega
  · omega

theorem append_size {b : Buffer} (h : Wf b) (data : List Byte) (hlen : data.length < 2^63) :
    (b.append data).buffer.length ≤ max b.buffer.length (kCheapPrepend+b.readableBytes+2*data.length) := by
  have hbound := ensureWritableBytes_size h _ hlen
  simpa [append,hasWritten,copyToWrite] using hbound

theorem retrieve_buffer (b : Buffer) (len : ℕ) : (b.retrieve len).buffer = b.buffer := by
  rw [retrieve]
  split <;> rfl

theorem readFd_size {b : Buffer} (h : Wf b) (xs : List Byte) (hlen : xs.length < 2^63) :
    (b.readFd (.bytes xs)).1.buffer.length ≤ max b.buffer.length (kCheapPrepend+2*(b.readableBytes+xs.length)) := by
  by_cases hle : xs.length ≤ b.writableBytes
  · simp only [readFd,if_pos hle,copyToWrite,MemoryBlock.overwrite_length]
    omega
  · have hwritable := writableBytes_eq h
    have hwriter := h.writer_le
    have hsize := h.size_lt
    have hfirst : (xs.take b.writableBytes).length = b.writableBytes := by
      rw [List.length_take]
      omega
    obtain ⟨hfilled,hview,-,-⟩ := write_spec h (Nat.le_of_eq hfirst)
    -- The vector is full of readable bytes when the rest of `extrabuf` is appended.
    have hb : (b.readFd (.bytes xs)).1 =
        ((b.copyToWrite (xs.take b.writableBytes)).hasWritten (xs.take b.writableBytes).length).append
          (xs.drop b.writableBytes) := by
      have hend : sizeAdd b.writerIndex (xs.take b.writableBytes).length =
          (b.copyToWrite (xs.take b.writableBytes)).buffer.length := by
        rw [hfirst,sizeAdd_of_lt (by omega),copyToWrite,MemoryBlock.overwrite_length]
        omega
      simp only [readFd,if_neg hle,hasWritten]
      rw [← hend]
      rfl
    have hbound := append_size hfilled (xs.drop b.writableBytes) (by rw [List.length_drop]; omega)
    have hkept : ((b.copyToWrite (xs.take b.writableBytes)).hasWritten
        (xs.take b.writableBytes).length).buffer.length = b.buffer.length := by
      simp only [hasWritten,copyToWrite,MemoryBlock.overwrite_length]
    have hheld : ((b.copyToWrite (xs.take b.writableBytes)).hasWritten
        (xs.take b.writableBytes).length).readableBytes = b.readableBytes+b.writableBytes := by
      rw [readableBytes_eq hfilled,hview,List.length_append,hfirst,← readableBytes_eq h]
    rw [hb]
    rw [hheld,hkept,List.length_drop] at hbound
    omega

theorem shrink_size {b : Buffer} (h : Wf b) (reserve : ℕ) (hneed : kCheapPrepend+(b.readableBytes+reserve) < 2^63) :
    (b.shrink reserve).buffer.length ≤ kCheapPrepend+max kInitialSize (2*(b.readableBytes+reserve)) := by
  obtain ⟨hcreated,hempty⟩ := create_spec (n:=kInitialSize) (by decide)
  obtain ⟨other,ho⟩ : ∃ o, o = (create kInitialSize).ensureWritableBytes (b.readableBytes+reserve) := ⟨_,rfl⟩
  have hlength : other.buffer.length ≤
      max (kCheapPrepend+kInitialSize) (kCheapPrepend+(b.readableBytes+reserve)) := by
    have hgrown := ensureWritableBytes_length_le (create kInitialSize) (b.readableBytes+reserve)
    rw [← ho] at hgrown
    have hsum : sizeAdd kCheapPrepend kInitialSize = kCheapPrepend+kInitialSize := sizeAdd_of_lt (by decide)
    simpa only [create,List.length_replicate,hsum] using hgrown
  have hfit : other.buffer.length < 2^63 := Nat.lt_of_le_of_lt hlength (Nat.max_lt.mpr ⟨by decide,hneed⟩)
  have hgrow : b.readableBytes+reserve < 2^63 := by omega
  obtain ⟨hother,hview,-⟩ := ensureWritableBytes_spec hcreated hgrow (by rwa [← ho])
  rw [← ho] at hother hview
  have hnone : other.readableBytes = 0 := by
    rw [readableBytes_eq hother,hview,hempty,List.length_nil]
  have hbound := append_size hother b.toStringView (by rw [← readableBytes_eq h]; omega)
  rw [hnone,← readableBytes_eq h] at hbound
  have hshrink : b.shrink reserve = other.append b.toStringView := by
    rw [shrink,sizeAdd_of_lt (by omega),ho]
    rfl
  rw [hshrink]
  omega

namespace Op

/-- What the buffer has to hold at once for the operation. -/
def demand (b : Buffer) : Op → ℕ
  | .append data => b.readableBytes+data.length
  | .ensureWritableBytes len => b.readableBytes+len
  | .readFd (.bytes xs) => b.readableBytes+xs.length
  | .shrink reserve => b.readableBytes+reserve
  | _ => b.readableBytes

/-- An operation leaves the vector as large as it was, or no larger than twice what it is for. -/
theorem run_size (op : Op) {b : Buffer} (h : Wf b) (ha : op.Allowed b) :
    (op.run b).buffer.length ≤ max b.buffer.length (kCheapPrepend+max kInitialSize (2*op.demand b)) := by
  cases op with
  | append data =>
    have hbound := append_size h data ha
    simp only [run,demand]
    omega
  | prepend data =>
    simp only [run,Buffer.prepend,MemoryBlock.overwrite_length]
    omega
  | retrieve len =>
    rw [run,retrieve_buffer]
    omega
  | retrieveAsString len =>
    rw [run,Buffer.retrieveAsString,retrieve_buffer]
    omega
  | retrieveAll =>
    simp only [run,Buffer.retrieveAll]
    omega
  | unWrite len =>
    obtain ⟨w,hw⟩ : ∃ w, (Op.unWrite len).run b = { b with writerIndex := w } := ⟨_,rfl⟩
    rw [hw]
    exact Nat.le_max_left _ _
  | ensureWritableBytes len =>
    have hbound := ensureWritableBytes_size h len ha
    simp only [run,demand]
    omega
  | write data =>
    simp only [run,hasWritten,copyToWrite,MemoryBlock.overwrite_length]
    omega
  | shrink reserve =>
    have hbound := shrink_size h reserve ha
    simp only [run,demand]
    omega
  | readFd r =>
    cases r with
    | error errno =>
      simp only [run,Buffer.readFd]
      omega
    | bytes xs =>
      have hbound := readFd_size h xs ha.2
      simp only [run,demand]
      omega

end Op

def Needs (peak : ℕ) (s : Store) : Label → Prop
  | .on i op => op.demand (s i) ≤ peak
  | .swap _ _ => True

instance (peak : ℕ) (s : Store) (label : Label) : Decidable (Needs peak s label) :=
  match label with
  | .on _ _ => Nat.decLe _ _
  | .swap _ _ => isTrue trivial

def Bounded (bound : ℕ) (s : Store) : Prop := ∀ i, Wf (s i) ∧ (s i).buffer.length ≤ bound

theorem Bounded.update {bound : ℕ} {s : Store} (h : Bounded bound s) (i : ℕ) {b : Buffer} (hb : Wf b)
    (hsize : b.buffer.length ≤ bound) : Bounded bound (Function.update s i b) := by
  intro k
  by_cases hk : k = i
  · subst hk
    simpa using ⟨hb,hsize⟩
  · simpa [hk] using h k

variable {initial peak : ℕ}

theorem step_bounded {s t : Store} {label : Label}
    (h : Bounded (kCheapPrepend+max initial (max kInitialSize (2*peak))) s) (hneeds : Needs peak s label)
    (hstep : step s label = some t) : Bounded (kCheapPrepend+max initial (max kInitialSize (2*peak))) t := by
  cases label with
  | on i op =>
    obtain ⟨ha,hfit,rfl⟩ := step_on hstep
    have hsize := op.run_size (h i).1 ha
    have hold := (h i).2
    have hdemand : op.demand (s i) ≤ peak := hneeds
    exact h.update i (op.run_spec (h i).1 ha hfit).1 (by omega)
  | swap i j =>
    cases hstep
    exact (h.update i (h j).1 (h j).2).update j (h i).1 (h i).2

/-- However long the buffers are used: a vector never grows beyond its initial size, that of a new buffer, or
twice the most that one operation needed to have in a buffer at once, so that no allocation behind an allowed
operation gets near the largest `size_t`. -/
theorem memory_bounded {sizes : ℕ → ℕ} (hsizes : ∀ i, sizes i ≤ initial)
    (hfit : kCheapPrepend+max initial (max kInitialSize (2*peak)) < 2^63) {labels : List Label} {s : Store}
    (h : Run step (fresh sizes) labels s) (hneeds : Along step (Needs peak) (fresh sizes) labels) :
    (∀ i, (s i).buffer.length ≤ kCheapPrepend+max initial (max kInitialSize (2*peak))) ∧
      ∀ i op, op.Allowed (s i) → op.demand (s i) ≤ peak → (step s (.on i op)).isSome := by
  have hfresh : Bounded (kCheapPrepend+max initial (max kInitialSize (2*peak))) (fresh sizes) := by
    intro i
    have hinitial := hsizes i
    obtain ⟨hwf,-⟩ := create_spec (n:=sizes i) (by omega)
    refine ⟨hwf,?_⟩
    have hsum : sizeAdd kCheapPrepend (sizes i) = kCheapPrepend+sizes i := sizeAdd_of_lt (by omega)
    rw [fresh,create,List.length_replicate,hsum]
    omega
  have hbounded := h.invariant_along (fun s label t hs hn hstep => step_bounded hs hn hstep) hneeds hfresh
  refine ⟨fun i => (hbounded i).2,fun i op ha hdemand => ?_⟩
  have hsize := op.run_size (hbounded i).1 ha
  have hold := (hbounded i).2
  rw [step,if_pos ⟨ha,by omega⟩]
  rfl

theorem memory_bounded_mixedRun :
    ∃ s, Run step (fresh fun i => 6-5*i) mixedRun s ∧ ∀ i, (s i).buffer.length ≤ 1032 := by
  obtain ⟨s,hs⟩ : ∃ s, exec step (fresh fun i => 6-5*i) mixedRun = some s :=
    Option.isSome_iff_exists.mp (by decide +kernel)
  have hrun := (run_iff_exec _ _ _ _).mpr hs
  have hsizes : ∀ i : ℕ, 6-5*i ≤ 6 := fun i => Nat.sub_le _ _
  have hneeds : Along step (Needs 14) (fresh fun i => 6-5*i) mixedRun := by decide +kernel
  exact ⟨s,hrun,(memory_bounded hsizes (by decide) hrun hneeds).1⟩

end Buffer
end GgLib
