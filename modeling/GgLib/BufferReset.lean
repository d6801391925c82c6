import GgLib.BufferRefinement

/-! `reset` empties the vector and puts the writer index behind its end: the writable bytes wrap
around, and what is appended is stored outside. -/
namespace GgLib
namespace Buffer

open LabelledSystem MemoryBlock

def Ordered (b : Buffer) : Prop := b.readerIndex ≤ b.writerIndex ∧ b.writerIndex ≤ b.buffer.length

/-- An operation whose assertions hold, on a vector that can be that large. -/
def perform (b : Buffer) (op : Op) : Option Buffer :=
  if op.Allowed b ∧ (op.run b).buffer.length < 2^63 then some (op.run b) else none

def Op.moves : Op → Bool
  | .append _ | .prepend _ | .retrieve _ | .readFd _ | .ensureWritableBytes _ => true
  | _ => false

/-- Operations that a new buffer allows leave the same readable bytes. -/
def LikeNew (b : Buffer) : Prop :=
  ∀ (ops : List Op) (fresh : Buffer), (∀ op ∈ ops, op.moves = true) →
    exec perform (create kInitialSize) ops = some fresh →
    ∃ t, exec perform b ops = some t ∧ t.toStringView = fresh.toStringView

theorem writableBytes_reset (b : Buffer) : b.reset.writableBytes = 2^64-kCheapPrepend := by
  simp [writableBytes,reset,sizeSub,kCheapPrepend]

theorem ensureWritableBytes_reset (b : Buffer) {len : ℕ} (hlen : len ≤ 2^64-kCheapPrepend) :
    b.reset.ensureWritableBytes len = b.reset := by
  rw [ensureWritableBytes,writableBytes_reset,if_neg (Nat.not_lt.mpr hlen)]

theorem append_reset (b : Buffer) {data : List Byte} (hlen : data.length ≤ 2^64-kCheapPrepend) :
    (b.reset.append data).buffer = [] ∧ (b.reset.append data).toStringView = [] := by
  have hbuffer : (b.reset.append data).buffer = [] := by
    rw [append,ensureWritableBytes_reset b hlen]
    exact List.eq_nil_of_length_eq_zero (overwrite_length ..)
  refine ⟨hbuffer,?_⟩
  rw [toStringView,hbuffer,window,List.drop_nil,List.take_nil]

theorem not_ordered_reset (b : Buffer) : ¬ b.reset.Ordered := fun h => absurd h.2 (by decide : ¬ kCheapPrepend ≤ 0)

theorem not_likeNew_reset (b : Buffer) : ¬ b.reset.LikeNew := by
  intro h
  obtain ⟨hw,hv⟩ := create_spec (n:=kInitialSize) (by decide)
  have hfit : ((create kInitialSize).append [0]).buffer.length < 2^63 := by decide +kernel
  obtain ⟨-,hview⟩ := append_spec hw (show [(0 : Byte)].length < 2^63 by decide) hfit
  have hfresh : exec perform (create kInitialSize) [.append [0]] = some ((create kInitialSize).append [0]) := by
    have hperform : perform (create kInitialSize) (.append [0]) = some ((create kInitialSize).append [0]) :=
      if_pos ⟨(by decide : [(0 : Byte)].length < 2^63),hfit⟩
    rw [exec,hperform]
    rfl
  obtain ⟨t,ht,hsame⟩ := h [.append [0]] _ (by simp [Op.moves]) hfresh
  obtain ⟨hbuffer,hempty⟩ := append_reset b (show [(0 : Byte)].length ≤ 2^64-kCheapPrepend by decide)
  have hperform : perform b.reset (.append [0]) = some (b.reset.append [0]) :=
    if_pos ⟨(by decide : [(0 : Byte)].length < 2^63),by
      show (b.reset.append [0]).buffer.length < 2^63
      rw [hbuffer]
      decide⟩
  rw [exec,hperform] at ht
  have hsome : some (b.reset.append [0]) = some t := ht
  rw [← Option.some.inj hsome,hempty,hview,hv] at hsame
  cases hsame

/-- Whatever the buffer was: behind `reset` the writer index is past the end of the vector, the
writable bytes have wrapped around, and later operations do not act as on a new buffer. -/
theorem reset_never_usable (b : Buffer) :
    ¬ b.reset.Ordered ∧ b.reset.writableBytes = 2^64-kCheapPrepend ∧ ¬ b.reset.LikeNew :=
  ⟨not_ordered_reset b,writableBytes_reset b,not_likeNew_reset b⟩

/-- On a new buffer already. -/
theorem reset_not_usable :
    ¬ ∀ (labels : List Label) (s : Store) (i : ℕ), Run step (fresh fun _ => kInitialSize) labels s →
      (s i).reset.Ordered ∧ (s i).reset.LikeNew := by
  intro h
  exact not_ordered_reset _ (h [] _ 0 (Run.refl _)).1

end Buffer
end GgLib
