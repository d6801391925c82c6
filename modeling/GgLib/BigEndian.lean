import Mathlib.Algebra.Group.Nat.Defs
import Mathlib.Algebra.Order.Ring.Nat
import Mathlib.Algebra.Ring.Int.Defs
import Mathlib.Data.List.Induction
import Mathlib.Tactic.Common

/-! Numbers as bytes, the most significant first, and the signed value of bytes in two's
complement. -/
namespace BigEndian

def value (bs : List UInt8) : ℕ := bs.foldl (fun n b => 256*n+b.toNat) 0

/-- The last `w` bytes of a number. -/
def bytes : ℕ → ℕ → List UInt8
  | 0, _ => []
  | w+1, n => bytes w (n/256)++[UInt8.ofNat n]

@[simp] theorem length_bytes (w n : ℕ) : (bytes w n).length = w := by
  induction w generalizing n with
  | zero => rfl
  | succ w ih => simp [bytes,ih]

theorem value_snoc (bs : List UInt8) (b : UInt8) : value (bs++[b]) = 256*value bs+b.toNat := by
  rw [value,List.foldl_append]
  rfl

theorem value_bytes (w n : ℕ) : value (bytes w n) = n%256^w := by
  induction w generalizing n with
  | zero => simp [bytes,value,Nat.mod_one]
  | succ w ih =>
    rw [bytes,value_snoc,ih,Nat.pow_succ',Nat.mod_mul,UInt8.toNat_ofNat']
    omega

theorem value_append (as bs : List UInt8) : value (as++bs) = value as*256^bs.length+value bs := by
  induction bs using List.reverseRecOn with
  | nil => simp [value]
  | append_singleton bs b ih =>
    rw [← List.append_assoc,value_snoc,ih,value_snoc,List.length_append,List.length_singleton,Nat.pow_succ]
    have hmul : value as*(256^bs.length*256) = 256*(value as*256^bs.length) := by
      rw [Nat.mul_comm 256,Nat.mul_assoc]
    omega

theorem value_lt (bs : List UInt8) : value bs < 256^bs.length := by
  induction bs using List.reverseRecOn with
  | nil => decide
  | append_singleton bs b ih =>
    have hb := b.toNat_lt
    rw [value_snoc,List.length_append,List.length_singleton,Nat.pow_succ]
    omega

theorem bytes_value (bs : List UInt8) : bytes bs.length (value bs) = bs := by
  induction bs using List.reverseRecOn with
  | nil => rfl
  | append_singleton bs b ih =>
    have hb := b.toNat_lt
    have hdiv : (256*value bs+b.toNat)/256 = value bs := by omega
    have hlast : UInt8.ofNat (256*value bs+b.toNat) = b := by
      rw [← UInt8.toNat_inj,UInt8.toNat_ofNat']
      omega
    rw [List.length_append,List.length_singleton,bytes,value_snoc,hdiv,hlast,ih]

def signed (bs : List UInt8) : ℤ :=
  if 2*value bs < 256^bs.length then (value bs : ℤ) else (value bs : ℤ)-(256^bs.length : ℕ)

/-- The first bytes have the sign of all, and the floor of their value. -/
theorem signed_take {bs : List UInt8} {k : ℕ} (hpos : 0 < k) (hle : k ≤ bs.length) :
    signed (bs.take k) = signed bs/(256^(bs.length-k) : ℕ) := by
  obtain ⟨m,hm⟩ : ∃ m, bs.length = k+m := ⟨bs.length-k,by omega⟩
  obtain ⟨j,rfl⟩ : ∃ j, k = j+1 := ⟨k-1,by omega⟩
  have hlen : (bs.take (j+1)).length = j+1 := List.length_take_of_le hle
  have hsplit := value_append (bs.take (j+1)) (bs.drop (j+1))
  have hlow := value_lt (bs.drop (j+1))
  rw [List.take_append_drop,List.length_drop,hm,Nat.add_sub_cancel_left] at hsplit
  rw [List.length_drop,hm,Nat.add_sub_cancel_left] at hlow
  rw [signed,signed,hlen,hm,Nat.add_sub_cancel_left,hsplit,Nat.pow_add 256 (j+1) m]
  generalize value (bs.take (j+1)) = v
  generalize value (bs.drop (j+1)) = r at hlow
  obtain ⟨n,hn⟩ : ∃ n, 256^(j+1) = 2*n := ⟨128*256^j,by rw [Nat.pow_succ]; omega⟩
  rw [hn]
  generalize 256^m = M at hlow
  have hfloor : ∀ a : ℤ, (a*M+r)/M = a := by
    intro a
    rw [Int.add_comm,Int.add_mul_ediv_right _ _ (by omega),Int.ediv_eq_zero_of_lt (by omega) (by omega),Int.zero_add]
  by_cases hv : v < n
  · have hmul : (v+1)*M ≤ n*M := Nat.mul_le_mul_right M hv
    have hsmall : 2*(v*M+r) < 2*n*M := by
      rw [Nat.add_mul] at hmul
      rw [Nat.mul_assoc]
      omega
    rw [if_pos (by omega),if_pos hsmall]
    push_cast
    rw [hfloor]
  · have hmul : n*M ≤ v*M := Nat.mul_le_mul_right M (by omega)
    have hlarge : ¬ 2*(v*M+r) < 2*n*M := by
      rw [Nat.mul_assoc]
      omega
    rw [if_neg (by omega),if_neg hlarge]
    have hneg : ((v*M+r : ℕ) : ℤ)-(2*n*M : ℕ) = (v-2*n)*M+r := by
      push_cast
      rw [Int.sub_mul]
      omega
    rw [hneg,hfloor]
    push_cast
    rfl

end BigEndian
