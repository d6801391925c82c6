import Mathlib.Data.Int.Notation
import Mathlib.Data.List.Basic

/-! Readers of fixed-size records from a list of symbols: a reader takes its record from the
front and goes on with the rest, or fails when too little is left. Readers in a row, and a
reader some number of times, read a record again. -/
namespace FixedRecord

variable {σ ε α β : Type}

/-- `r` reads `size` symbols, as `decode` does, and fails in one of the ways `Short` when there
are fewer. -/
structure Reads (Short : ε → Prop) (size : ℕ) (decode : List σ → α) (r : List σ → Except ε (α × List σ)) : Prop where
  enough : ∀ bs, size ≤ bs.length → r bs = .ok (decode bs,bs.drop size)
  short : ∀ bs, bs.length < size → ∃ e, Short e ∧ r bs = .error e

/-- `n` records in a row. -/
def times (r : List σ → Except ε (α × List σ)) : ℕ → List σ → Except ε (List α × List σ)
  | 0, bs => .ok ([],bs)
  | n+1, bs => do
    let (a,bs) ← r bs
    let (as,bs) ← times r n bs
    return (a::as,bs)

def table (size : ℕ) (decode : List σ → α) : ℕ → List σ → List α
  | 0, _ => []
  | n+1, bs => decode bs::table size decode n (bs.drop size)

@[simp] theorem length_table (size : ℕ) (decode : List σ → α) (n : ℕ) (bs : List σ) :
    (table size decode n bs).length = n := by
  induction n generalizing bs with
  | zero => rfl
  | succ n ih => simp [table,ih]

variable {Short : ε → Prop} {size size' : ℕ} {decode : List σ → α} {decode' : List σ → β}
variable {r : List σ → Except ε (α × List σ)} {r' : List σ → Except ε (β × List σ)}

theorem Reads.map (h : Reads Short size decode r) (f : α → β) :
    Reads Short size (fun bs => f (decode bs)) fun bs => do
      let (a,bs) ← r bs
      return (f a,bs) where
  enough bs hbs := by
    rw [h.enough bs hbs]
    rfl
  short bs hbs := by
    obtain ⟨e,he,heq⟩ := h.short bs hbs
    refine ⟨e,he,?_⟩
    rw [heq]
    rfl

theorem Reads.bind {g : α → List σ → Except ε (β × List σ)} {decode' : α → List σ → β}
    (h : Reads Short size decode r) (h' : ∀ a, Reads Short size' (decode' a) (g a)) :
    Reads Short (size+size') (fun bs => decode' (decode bs) (bs.drop size)) fun bs => do
      let (a,bs) ← r bs
      g a bs where
  enough bs hbs := by
    have hrest : size' ≤ (bs.drop size).length := by
      rw [List.length_drop]
      omega
    rw [h.enough bs (by omega)]
    show g _ (bs.drop size) = _
    rw [(h' _).enough _ hrest,List.drop_drop]
  short bs hbs := by
    by_cases hfirst : size ≤ bs.length
    · have hrest : (bs.drop size).length < size' := by
        rw [List.length_drop]
        omega
      obtain ⟨e,he,heq⟩ := (h' (decode bs)).short _ hrest
      refine ⟨e,he,?_⟩
      rw [h.enough bs hfirst]
      exact heq
    · obtain ⟨e,he,heq⟩ := h.short bs (by omega)
      refine ⟨e,he,?_⟩
      rw [heq]
      rfl

/-- A record behind symbols that are passed over, which does not fail by itself. -/
theorem Reads.pass (h : Reads Short size decode r) (hpos : 0 < size) (n : ℕ) :
    Reads Short (n+size) (fun bs => decode (bs.drop n)) fun bs => r (bs.drop n) where
  enough bs hbs := by
    have hrest : size ≤ (bs.drop n).length := by
      rw [List.length_drop]
      omega
    rw [h.enough _ hrest,List.drop_drop]
  short bs hbs := by
    have hrest : (bs.drop n).length < size := by
      rw [List.length_drop]
      omega
    exact h.short _ hrest

theorem Reads.times (h : Reads Short size decode r) (n : ℕ) :
    Reads Short (n*size) (table size decode n) (FixedRecord.times r n) := by
  induction n with
  | zero => exact ⟨fun bs _ => by simp [FixedRecord.times,table],fun bs hbs => by omega⟩
  | succ n ih =>
    have hsize : (n+1)*size = size+n*size := by rw [Nat.succ_mul,Nat.add_comm]
    rw [hsize]
    exact h.bind fun a => ih.map fun as => a::as

theorem table_flatMap {γ : Type} {l : List γ} {write : γ → List σ} {read : γ → α} (rest : List σ)
    (hlen : ∀ a ∈ l, (write a).length = size) (hread : ∀ a ∈ l, ∀ rest, decode (write a++rest) = read a) :
    table size decode l.length (l.flatMap write++rest) = l.map read := by
  induction l with
  | nil => rfl
  | cons a l ih =>
    rw [List.flatMap_cons,List.append_assoc,List.length_cons,table,hread a (.head _),
      List.drop_left' (hlen a (.head _)),ih (fun b hb => hlen b (.tail _ hb)) fun b hb => hread b (.tail _ hb)]
    rfl

theorem length_flatMap {γ : Type} {l : List γ} {write : γ → List σ} (hlen : ∀ a ∈ l, (write a).length = size) :
    (l.flatMap write).length = l.length*size := by
  induction l with
  | nil => simp
  | cons a l ih =>
    rw [List.flatMap_cons,List.length_append,hlen a (.head _),ih fun b hb => hlen b (.tail _ hb),List.length_cons,
      Nat.succ_mul,Nat.add_comm]

end FixedRecord
