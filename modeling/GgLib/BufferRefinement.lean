import GgLib.LabelledSystem
import GgLib.BufferLayout
import Mathlib.Logic.Function.Basic

/-! Runs over any number of buffers: each one represents a byte queue. -/
namespace GgLib
namespace Buffer

open LabelledSystem

inductive Op
  | append (data : List Byte)
  | prepend (data : List Byte)
  | retrieve (len : ℕ)
  | retrieveAsString (len : ℕ)
  | retrieveAll
  | unWrite (len : ℕ)
  | ensureWritableBytes (len : ℕ)
  | write (data : List Byte)
  | shrink (reserve : ℕ)
  | readFd (r : ReadvResult)
  deriving DecidableEq, Repr

namespace Op

/-- The buffer after the operation; `write` stores at `beginWrite()` and calls `hasWritten`. -/
def run : Op → Buffer → Buffer
  | .append data, b => b.append data
  | .prepend data, b => b.prepend data
  | .retrieve len, b => b.retrieve len
  | .retrieveAsString len, b => (b.retrieveAsString len).2
  | .retrieveAll, b => b.retrieveAll
  | .unWrite len, b => b.unWrite len
  | .ensureWritableBytes len, b => b.ensureWritableBytes len
  | .write data, b => (b.copyToWrite data).hasWritten data.length
  | .shrink reserve, b => b.shrink reserve
  | .readFd r, b => (b.readFd r).1

/-- The operation's own assertion, and a `size_t` argument or `ssize_t` count below `2^63`. -/
def Allowed : Op → Buffer → Prop
  | .append data, _ => data.length < 2^63
  | .prepend data, b => data.length ≤ b.prependableBytes
  | .retrieve len, b => len ≤ b.readableBytes
  | .retrieveAsString len, b => len ≤ b.readableBytes
  | .retrieveAll, _ => True
  | .unWrite len, b => len ≤ b.readableBytes
  | .ensureWritableBytes len, _ => len < 2^63
  | .write data, b => data.length ≤ b.writableBytes
  | .shrink reserve, b => kCheapPrepend+(b.readableBytes+reserve) < 2^63
  | .readFd (.error _), _ => True
  | .readFd (.bytes xs), b => xs.length ≤ b.iovecTotal ∧ xs.length < 2^63

instance (op : Op) (b : Buffer) : Decidable (op.Allowed b) :=
  match op with
  | .append _ => Nat.decLt _ _
  | .prepend _ => Nat.decLe _ _
  | .retrieve _ => Nat.decLe _ _
  | .retrieveAsString _ => Nat.decLe _ _
  | .retrieveAll => isTrue trivial
  | .unWrite _ => Nat.decLe _ _
  | .ensureWritableBytes _ => Nat.decLt _ _
  | .write _ => Nat.decLe _ _
  | .shrink _ => Nat.decLt _ _
  | .readFd (.error _) => isTrue trivial
  | .readFd (.bytes _) => instDecidableAnd

/-- What the operation does to the represented queue. -/
def queue : Op → ByteQueue → ByteQueue
  | .append data, q => q.pushBack data
  | .prepend data, q => q.pushFront data
  | .retrieve len, q => q.dropFront len
  | .retrieveAsString len, q => q.dropFront len
  | .retrieveAll, _ => []
  | .unWrite len, q => q.dropBack len
  | .ensureWritableBytes _, q => q
  | .write data, q => q.pushBack data
  | .shrink _, q => q
  | .readFd (.error _), q => q
  | .readFd (.bytes xs), q => q.pushBack xs

/-- What the operation promises beyond its effect on the queue. -/
def Post : Op → Buffer → Buffer → Prop
  | .retrieveAsString len, b, _ => (b.retrieveAsString len).1 = b.toStringView.take len
  | .ensureWritableBytes len, b, t => len ≤ t.writableBytes ∧ t.toStringView = b.toStringView
  | .shrink reserve, b, t => reserve ≤ t.writableBytes ∧ t.toStringView = b.toStringView
  | .readFd (.error _), b, t => t = b
  | _, _, _ => True

/-- One operation on one well-formed buffer. -/
theorem run_spec (op : Op) {b : Buffer} (h : Wf b) (ha : op.Allowed b)
    (hfit : (op.run b).buffer.length < 2^63) :
    Wf (op.run b) ∧ (op.run b).toStringView = op.queue b.toStringView ∧ op.Post b (op.run b) := by
  cases op with
  | append data =>
    obtain ⟨hw,hv⟩ := append_spec h ha hfit
    exact ⟨hw,hv,trivial⟩
  | prepend data =>
    obtain ⟨hw,hv⟩ := prepend_spec h ha
    exact ⟨hw,hv,trivial⟩
  | retrieve len =>
    obtain ⟨hw,hv⟩ := retrieve_spec h ha
    exact ⟨hw,hv,trivial⟩
  | retrieveAsString len =>
    obtain ⟨hw,hv⟩ := retrieve_spec h ha
    exact ⟨hw,hv,retrieveAsString_spec ha⟩
  | retrieveAll =>
    obtain ⟨hw,hv⟩ := retrieveAll_spec h
    exact ⟨hw,hv,trivial⟩
  | unWrite len =>
    obtain ⟨hw,hv⟩ := unWrite_spec h ha
    exact ⟨hw,hv,trivial⟩
  | ensureWritableBytes len =>
    obtain ⟨hw,hv,hroom⟩ := ensureWritableBytes_spec h ha hfit
    exact ⟨hw,hv,hroom,hv⟩
  | write data =>
    obtain ⟨hw,hv,-,-⟩ := write_spec h ha
    exact ⟨hw,hv,trivial⟩
  | shrink reserve =>
    obtain ⟨hw,hv,hroom⟩ := shrink_spec h ha
    exact ⟨hw,hv,hroom,hv⟩
  | readFd r =>
    cases r with
    | error errno => exact ⟨h,rfl,rfl⟩
    | bytes xs =>
      obtain ⟨hw,hv⟩ := readFd_spec h ha.2 hfit
      exact ⟨hw,hv,trivial⟩

end Op

abbrev Store := ℕ → Buffer

inductive Label
  | on (i : ℕ) (op : Op)
  | swap (i j : ℕ)
  deriving DecidableEq, Repr

def fresh (sizes : ℕ → ℕ) : Store := fun i => create (sizes i)

/-- A step keeps the operation's assertion and the sizes a vector can have. -/
def step (s : Store) : Label → Option Store
  | .on i op =>
    if op.Allowed (s i) ∧ (op.run (s i)).buffer.length < 2^63 then
      some (Function.update s i (op.run (s i)))
    else none
  | .swap i j =>
    some (Function.update (Function.update s i ((s i).swap (s j)).1) j ((s i).swap (s j)).2)

/-- The same labels over plain byte queues. -/
def queueStep (q : ℕ → ByteQueue) : Label → Option (ℕ → ByteQueue)
  | .on i op => some (Function.update q i (op.queue (q i)))
  | .swap i j => some (Function.update (Function.update q i (q j)) j (q i))

/-- Every buffer is well formed and represents the queue of its name. -/
def Represents (s : Store) (q : ℕ → ByteQueue) : Prop :=
  ∀ i, Wf (s i) ∧ (s i).toStringView = q i

theorem Represents.update {s : Store} {q : ℕ → ByteQueue} (h : Represents s q) (i : ℕ)
    {b : Buffer} {r : ByteQueue} (hb : Wf b) (hr : b.toStringView = r) :
    Represents (Function.update s i b) (Function.update q i r) := by
  intro k
  by_cases hk : k = i
  · subst hk
    simpa using ⟨hb,hr⟩
  · simpa [hk] using h k

theorem step_on {s t : Store} {i : ℕ} {op : Op} (h : step s (.on i op) = some t) :
    op.Allowed (s i) ∧ (op.run (s i)).buffer.length < 2^63 ∧
      t = Function.update s i (op.run (s i)) := by
  rw [step] at h
  split at h
  · rename_i hc
    exact ⟨hc.1,hc.2,(Option.some.inj h).symm⟩
  · cases h

/-- One step of the program's buffers is one step of the queues they represent. -/
theorem step_simulation (s : Store) (a : Label) (s' : Store) (q : ℕ → ByteQueue)
    (h : Represents s q) (hs : step s a = some s') :
    ∃ q', queueStep q a = some q' ∧ Represents s' q' := by
  cases a with
  | on i op =>
    obtain ⟨ha,hfit,rfl⟩ := step_on hs
    obtain ⟨hw,hv,-⟩ := op.run_spec (h i).1 ha hfit
    exact ⟨_,rfl,h.update i hw (by rw [hv,(h i).2])⟩
  | swap i j =>
    cases hs
    exact ⟨_,rfl,(h.update i (h j).1 (h j).2).update j (h i).1 (h i).2⟩

/-- Buffer refines a byte queue: whatever operations were run, the indices are in
order, the readable bytes are the queue's, and each next operation keeps its promise. -/
theorem buffer_refines_queue (sizes : ℕ → ℕ) (hsizes : ∀ i, kCheapPrepend+sizes i < 2^63)
    {labels : List Label} {s : Store} (h : Run step (fresh sizes) labels s) :
    (∃ q, Run queueStep (fun _ => []) labels q ∧
      ∀ i, (s i).readerIndex ≤ (s i).writerIndex ∧ (s i).writerIndex ≤ (s i).buffer.length ∧
        (s i).toStringView = q i) ∧
    ∀ i op t, step s (.on i op) = some t → op.Post (s i) (t i) := by
  obtain ⟨q,hq,hR⟩ := h.simulation step_simulation (t:=fun _ => [])
    (fun i => create_spec (hsizes i))
  refine ⟨⟨q,hq,fun i => ⟨(hR i).1.reader_le,(hR i).1.writer_le,(hR i).2⟩⟩,?_⟩
  intro i op t ht
  obtain ⟨ha,hfit,rfl⟩ := step_on ht
  rw [Function.update_self]
  exact (op.run_spec (hR i).1 ha hfit).2.2

/-- A run that compacts, grows, prepends below the reserve, reads over both iovecs and swaps. -/
def mixedRun : List Label :=
  [.on 0 (.append [1,2,3,4,5,6]),.on 0 (.retrieve 4),.on 0 (.append [7,8,9]),
    .on 0 (.prepend [10,11,12]),.on 1 (.readFd (.bytes [20,21,22])),.on 0 (.unWrite 1),
    .swap 0 1,.on 0 (.ensureWritableBytes 9),.on 1 (.readFd (.error 11))]

theorem buffer_refines_queue_mixedRun :
    ∃ s q, Run step (fresh fun i => 6-5*i) mixedRun s ∧ Run queueStep (fun _ => []) mixedRun q ∧
      ∀ i, (s i).toStringView = q i := by
  obtain ⟨s,hs⟩ : ∃ s, exec step (fresh fun i => 6-5*i) mixedRun = some s :=
    Option.isSome_iff_exists.mp (by decide +kernel)
  have hrun := (run_iff_exec _ _ _ _).mpr hs
  have hsizes : ∀ i : ℕ, kCheapPrepend+(6-5*i) < 2^63 := by
    intro i
    rw [kCheapPrepend]
    omega
  obtain ⟨⟨q,hq,hR⟩,-⟩ := buffer_refines_queue (fun i => 6-5*i) hsizes hrun
  exact ⟨s,q,hrun,hq,fun i => (hR i).2.2⟩

end Buffer
end GgLib
