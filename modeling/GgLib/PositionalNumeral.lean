import Mathlib.Data.Nat.Digits.Lemmas
import Mathlib.Tactic.Common

/-! Numerals in a base, as the lists of their digits with the first digit first. A numeral is
canonical when it has no leading zeros. -/
namespace PositionalNumeral

def value (base : ℕ) (digits : List ℕ) : ℕ := digits.foldl (fun n d => base*n+d) 0

/-- The canonical numeral of a number: zero is the only one with the digit zero in front. -/
structure Canonical (base n : ℕ) (digits : List ℕ) : Prop where
  bounded : ∀ d ∈ digits, d < base
  exact : value base digits = n
  nonempty : digits ≠ []
  leading : digits.head? = some 0 → digits = [0]

variable {base n d : ℕ} {digits : List ℕ}

theorem value_snoc (base : ℕ) (digits : List ℕ) (d : ℕ) : value base (digits++[d]) = base*value base digits+d := by
  rw [value,List.foldl_append]
  rfl

theorem value_zeros (base k : ℕ) (digits : List ℕ) : value base (List.replicate k 0++digits) = value base digits := by
  induction k with
  | zero => rfl
  | succ k ih => simpa [value,List.replicate_succ] using ih

theorem Canonical.single (h : n < base) : Canonical base n [n] where
  bounded d hd := by
    rw [List.mem_singleton.mp hd]
    exact h
  exact := by simp [value]
  nonempty := List.cons_ne_nil _ _
  leading h := by
    rw [List.head?_cons,Option.some.injEq] at h
    rw [h]

theorem Canonical.snoc (h : Canonical base n digits) (hpos : 0 < n) (hd : d < base) :
    Canonical base (base*n+d) (digits++[d]) where
  bounded e he := by
    rcases List.mem_append.mp he with he | he
    · exact h.bounded e he
    · rw [List.mem_singleton.mp he]
      exact hd
  exact := by rw [value_snoc,h.exact]
  nonempty := List.append_ne_nil_of_left_ne_nil h.nonempty _
  leading hhead := by
    rw [List.head?_append_of_ne_nil _ h.nonempty] at hhead
    have hvalue := h.exact
    rw [h.leading hhead] at hvalue
    exact absurd (hvalue.symm.trans (by simp [value])) (Nat.ne_of_gt hpos)

theorem value_eq (base : ℕ) (digits : List ℕ) : value base digits = Nat.ofDigits base digits.reverse := by
  rw [value,Nat.ofDigits_eq_foldr,List.foldr_reverse]
  simp only [Nat.cast_id,Nat.add_comm]

theorem Canonical.reverse_eq (h : Canonical base n digits) (hbase : 1 < base) (hhead : digits.head? ≠ some 0) :
    digits.reverse = Nat.digits base n := by
  rw [← h.exact,value_eq]
  refine (Nat.digits_ofDigits base hbase digits.reverse (fun d hd => h.bounded d (List.mem_reverse.mp hd))
    fun hne hlast => hhead ?_).symm
  rw [List.getLast_reverse] at hlast
  rw [List.head?_eq_some_head (List.reverse_ne_nil_iff.mp hne),hlast]

theorem Canonical.ne_zero (h : Canonical base n digits) (hbase : 1 < base) (hhead : digits.head? ≠ some 0) :
    n ≠ 0 := by
  rintro rfl
  have hreverse := h.reverse_eq hbase hhead
  rw [Nat.digits_zero,List.reverse_eq_nil_iff] at hreverse
  exact h.nonempty hreverse

theorem Canonical.eq_zero (h : Canonical base n digits) (hhead : digits.head? = some 0) : n = 0 := by
  rw [← h.exact,h.leading hhead]
  rfl

theorem Canonical.unique {ds es : List ℕ} (hbase : 1 < base) (hds : Canonical base n ds) (hes : Canonical base n es) :
    ds = es := by
  by_cases hd : ds.head? = some 0
  · by_cases he : es.head? = some 0
    · rw [hds.leading hd,hes.leading he]
    · exact absurd (hds.eq_zero hd) (hes.ne_zero hbase he)
  · by_cases he : es.head? = some 0
    · exact absurd (hes.eq_zero he) (hds.ne_zero hbase hd)
    · rw [← List.reverse_inj,hds.reverse_eq hbase hd,hes.reverse_eq hbase he]

theorem exists_canonical (hbase : 1 < base) (n : ℕ) :
    ∃ digits, Canonical base n digits ∧ Nat.toDigits base n = digits.map Nat.digitChar := by
  induction n using Nat.strongRecOn with
  | ind n ih =>
    by_cases hlt : n < base
    · exact ⟨[n],.single hlt,Nat.toDigits_of_lt_base hlt⟩
    · have hle : base ≤ n := Nat.le_of_not_lt hlt
      have hpos : 0 < n/base := Nat.div_pos hle (by omega)
      obtain ⟨digits,hdigits,hchars⟩ := ih (n/base) (Nat.div_lt_self (by omega) hbase)
      have hsnoc := hdigits.snoc hpos (Nat.mod_lt n (by omega))
      rw [Nat.div_add_mod] at hsnoc
      refine ⟨digits++[n%base],hsnoc,?_⟩
      rw [Nat.toDigits_of_base_le hbase hle,hchars,List.map_append]
      rfl

/-- The texts of the canonical numeral, in any symbols for the digits and behind any text. -/
theorem text_iff {α : Type*} (hbase : 1 < base) (n : ℕ) {symbol : ℕ → α} {render : Char → α}
    (hdigit : ∀ d < base, render (Nat.digitChar d) = symbol d) (front s : List α) :
    (∃ digits, Canonical base n digits ∧ s = front++digits.map symbol) ↔
      s = front++(Nat.toDigits base n).map render := by
  obtain ⟨digits,hdigits,hchars⟩ := exists_canonical hbase n
  have hmap : (Nat.toDigits base n).map render = digits.map symbol := by
    rw [hchars,List.map_map]
    exact List.map_congr_left fun d hd => hdigit d (hdigits.bounded d hd)
  rw [hmap]
  constructor
  · rintro ⟨es,hes,rfl⟩
    rw [hes.unique hbase hdigits]
  · rintro rfl
    exact ⟨digits,hdigits,rfl⟩

end PositionalNumeral
