import GgLib.GrisuDigits

/-! The digits of a double by grisu3, between the boundaries that lie halfway to its neighbours. -/
namespace GgLib
namespace Grisu
open DecimalText (number isDigit)
open DiyFp (castDiyFpFromDouble castDiyFpFromDouble_eq cachedPow fractField expField toNat_fractMask expMask_eq_zero)

/-! ## The number that the bits stand for -/

def significand (v : Double) : ℕ := fractField v+(if expField v = 0 then 0 else 2^52)

/-- The exponent, by 1075 too large. -/
def exponent (v : Double) : ℕ := max (expField v) 1

def toRat (v : Double) : ℚ := (if v.toNat < 2^63 then 1 else -1)*(significand v*2^((exponent v : ℤ)-1075))

def IsFinite (v : Double) : Prop := expField v ≠ 2047

instance (v : Double) : Decidable (IsFinite v) := inferInstanceAs (Decidable (expField v ≠ 2047))

/-- What `grisu3` asserts of its argument. -/
structure Positive (v : Double) : Prop where
  pos : 0 < v
  finite : v < D64_EXP_MASK

/-- How many quarters of its last unit the number lies above its lower boundary. -/
def below (v : Double) : ℕ := if fractField v = 0 ∧ expField v ≠ 0 then 1 else 2

def lower (v : Double) : ℚ := (4*significand v-below v)*2^((exponent v : ℤ)-1077)
def upper (v : Double) : ℚ := (4*significand v+2)*2^((exponent v : ℤ)-1077)

variable {u v : Double}

theorem fractField_lt (v : Double) : fractField v < 2^52 := Nat.mod_lt _ (by decide)

theorem Positive.toNat_lt (hv : Positive v) : v.toNat < 2047*2^52 := UInt64.lt_iff_toNat_lt.mp hv.finite

theorem Positive.expField_lt (hv : Positive v) : expField v < 2047 := by
  have h := hv.toNat_lt
  rw [expField]
  omega

theorem Positive.significand_pos (hv : Positive v) : 0 < significand v := by
  have hpos : 0 < v.toNat := UInt64.lt_iff_toNat_lt.mp hv.pos
  have hlt := hv.toNat_lt
  rw [significand]
  split
  · rename_i hexp
    rw [expField] at hexp
    rw [fractField]
    omega
  · omega

theorem significand_lt (v : Double) : significand v < 2^53 := by
  have h := fractField_lt v
  rw [significand]
  split <;> omega

theorem le_significand (h : 1 < exponent v) : 2^52 ≤ significand v := by
  rw [exponent] at h
  rw [significand,if_neg (by omega)]
  omega

theorem below_le (v : Double) : 1 ≤ below v ∧ below v ≤ 2 := by
  rw [below]
  split <;> omega

/-- The significand and the exponent say which bits there are beside the sign. -/
theorem eq_of_parts (hu : u.toNat < 2^63) (hv : v.toNat < 2^63) (hs : significand u = significand v)
    (he : exponent u = exponent v) : u = v := by
  have hfu := fractField_lt u
  have hfv := fractField_lt v
  rw [exponent,exponent] at he
  rw [significand,significand] at hs
  have hexp : expField u = expField v := by
    split at hs <;> split at hs <;> omega
  have hfract : fractField u = fractField v := by
    rw [hexp] at hs
    exact Nat.add_right_cancel hs
  rw [expField,expField] at hexp
  rw [fractField,fractField] at hfract
  exact UInt64.toNat_inj.mp (by omega)

theorem magnitude_gap (hne : ¬ (significand u = significand v ∧ exponent u = exponent v)) :
    (significand v+1)*2^exponent v ≤ significand u*2^exponent u ∨
      2*(significand u*2^exponent u)+below v*2^exponent v ≤ 2*significand v*2^exponent v := by
  have hbelow := below_le v
  rcases Nat.lt_trichotomy (exponent u) (exponent v) with hlt | heq | hgt
  · right
    have hone : 1 ≤ exponent u := le_max_right _ _
    have hlarge := le_significand (v:=v) (by omega)
    have hu := significand_lt u
    have hexact : below v+(2^53-1) ≤ 2*significand v := by
      have hf := fractField_lt v
      rw [significand] at hlarge ⊢
      rw [below]
      split <;> split at hlarge <;> rename_i hexp <;> simp only [hexp,if_true,if_false] <;> omega
    obtain ⟨k,hk⟩ : ∃ k, exponent v = exponent u+k+1 := ⟨exponent v-exponent u-1,by omega⟩
    calc 2*(significand u*2^exponent u)+below v*2^exponent v
        = significand u*2^(exponent u+1)+below v*2^exponent v := by ring
      _ ≤ (2^53-1)*2^exponent v+below v*2^exponent v := by
          refine Nat.add_le_add_right (Nat.mul_le_mul (by omega) (Nat.pow_le_pow_right (by decide) (by omega))) _
      _ = (below v+(2^53-1))*2^exponent v := by ring
      _ ≤ 2*significand v*2^exponent v := Nat.mul_le_mul_right _ hexact
  · rw [heq]
    rcases Nat.lt_trichotomy (significand u) (significand v) with hlt | hsame | hgt
    · right
      calc 2*(significand u*2^exponent v)+below v*2^exponent v = (2*significand u+below v)*2^exponent v := by ring
        _ ≤ 2*significand v*2^exponent v := Nat.mul_le_mul_right _ (by omega)
    · exact absurd ⟨hsame,heq⟩ hne
    · exact .inl (Nat.mul_le_mul_right _ hgt)
  · left
    have hone : 1 ≤ exponent v := le_max_right _ _
    have hlarge := le_significand (v:=u) (by omega)
    have hv := significand_lt v
    calc (significand v+1)*2^exponent v ≤ 2^53*2^exponent v := Nat.mul_le_mul_right _ hv
      _ = 2^52*2^(exponent v+1) := by ring
      _ ≤ significand u*2^exponent u := Nat.mul_le_mul hlarge (Nat.pow_le_pow_right (by decide) hgt)

def quarter : ℚ := 2^(-1077 : ℤ)

theorem quarter_pos : 0 < quarter := zpow_pos two_pos _

theorem two_zpow_split (e : ℕ) : (2 : ℚ)^((e : ℤ)-1077) = 2^e*quarter := by
  rw [quarter,sub_eq_add_neg,zpow_add₀ two_ne_zero,zpow_natCast]

theorem toRat_eq (v : Double) :
    toRat v = (if v.toNat < 2^63 then 1 else -1)*((4*(significand v*2^exponent v : ℕ) : ℚ)*quarter) := by
  have hquarter : (2 : ℚ)^((exponent v : ℤ)-1075) = 4*2^((exponent v : ℤ)-1077) := by
    rw [show (exponent v : ℤ)-1075 = 2+(exponent v-1077) by ring,zpow_add₀ two_ne_zero]
    norm_num
  rw [toRat,hquarter,two_zpow_split]
  push_cast
  ring

theorem Positive.toNat_lt_sign (hv : Positive v) : v.toNat < 2^63 := Nat.lt_trans hv.toNat_lt (by decide)

theorem Positive.toRat_eq (hv : Positive v) : toRat v = 4*significand v*2^((exponent v : ℤ)-1077) := by
  rw [Grisu.toRat_eq,if_pos hv.toNat_lt_sign,two_zpow_split]
  push_cast
  ring

theorem Positive.lower_lt (hv : Positive v) : lower v < toRat v := by
  have hpos : (0 : ℚ) < 2^((exponent v : ℤ)-1077) := by positivity
  have hbelow : (1 : ℚ) ≤ below v := by exact_mod_cast (below_le v).1
  rw [hv.toRat_eq,lower]
  exact mul_lt_mul_of_pos_right (by linarith) hpos

theorem Positive.lt_upper (hv : Positive v) : toRat v < upper v := by
  have hpos : (0 : ℚ) < 2^((exponent v : ℤ)-1077) := by positivity
  rw [hv.toRat_eq,upper]
  exact mul_lt_mul_of_pos_right (by linarith) hpos

/-- The middle between the number and another one is not between the boundaries. -/
theorem Positive.gap (hv : Positive v) (hne : u ≠ v) :
    toRat u+toRat v ≤ 2*lower v ∨ 2*upper v ≤ toRat u+toRat v := by
  have hpos := quarter_pos
  have hsign := hv.toNat_lt_sign
  rw [Grisu.toRat_eq u,hv.toRat_eq,lower,upper,two_zpow_split]
  by_cases hu : u.toNat < 2^63
  · rw [if_pos hu,one_mul]
    rcases magnitude_gap (u:=u) (v:=v) (fun h => hne (eq_of_parts hu hsign h.1 h.2)) with habove | hbelow
    · right
      have habove' : ((significand v+1)*2^exponent v : ℚ) ≤ (significand u*2^exponent u : ℕ) := by exact_mod_cast habove
      have := mul_le_mul_of_nonneg_right habove' hpos.le
      linarith
    · left
      have hbelow' : (2*(significand u*2^exponent u : ℕ)+below v*2^exponent v : ℚ) ≤
          2*significand v*2^exponent v := by exact_mod_cast hbelow
      have := mul_le_mul_of_nonneg_right hbelow' hpos.le
      linarith
  · left
    have hbelow := (below_le v).2
    have hsignificand := hv.significand_pos
    have hroom : ((2*below v : ℕ) : ℚ) ≤ (4*significand v : ℕ) := by exact_mod_cast (by omega)
    push_cast at hroom
    have hunit : 0 ≤ 2^exponent v*quarter := mul_nonneg (by positivity) hpos.le
    have hother : 0 ≤ 4*((significand u*2^exponent u : ℕ) : ℚ)*quarter := mul_nonneg (by positivity) hpos.le
    have := mul_le_mul_of_nonneg_right hroom hunit
    rw [if_neg hu]
    linarith

theorem Positive.toRat_ne (hv : Positive v) (hne : u ≠ v) : toRat u ≠ toRat v := by
  have hlow := hv.lower_lt
  have hhigh := hv.lt_upper
  intro hsame
  rcases hv.gap hne with h | h <;> linarith

/-- A decimal between the boundaries is nearer to the number than to any other. -/
theorem Positive.nearest (hv : Positive v) {x : ℚ} (hlow : lower v < x) (hhigh : x < upper v) (u : Double)
    (hne : u ≠ v) : |toRat v-x| < |toRat u-x| := by
  refine NearestPoint.nearest_of_between (S:=Set.range toRat) hv.lower_lt.le hv.lt_upper.le ?_ hlow hhigh _ ⟨u,rfl⟩
    (hv.toRat_ne hne)
  rintro _ ⟨u,rfl⟩ hne
  exact hv.gap (fun hsame => hne (congrArg toRat hsame))

/-! ## The boundaries -/

/-- `b_minus`, with the exponent of `b_plus`. -/
def lowerBoundary (v : Double) (dfp b_plus : DiyFp) : DiyFp :=
  let b_minus : DiyFp :=
    if v &&& D64_FRACT_MASK = 0 ∧ v &&& D64_EXP_MASK ≠ 0 then ⟨(dfp.f <<< 2)-1,dfp.e-2⟩
    else ⟨(dfp.f <<< 1)-1,dfp.e-1⟩
  ⟨b_minus.f <<< (b_minus.e-b_plus.e).toNat.toUInt64,b_plus.e⟩

/-- `grisu3`: the flag, the digits and `kappa`, and `d_exp`. -/
def grisu3 (v : Double) : Option (Digits × ℤ) :=
  let dfp := castDiyFpFromDouble v
  dfp.normalize.bind fun w =>
    (DiyFp.normalize ⟨(dfp.f <<< 1)+1,dfp.e-1⟩).bind fun b_plus =>
      (cachedPow (-60-64-w.e)).bind fun (mk,c_mk) =>
        (digitGen ((lowerBoundary v dfp b_plus).multiply c_mk) (w.multiply c_mk) (b_plus.multiply c_mk)).map
          fun digits => (digits,digits.kappa-mk)

theorem significand_eq (v : Double) : (castDiyFpFromDouble v).f.toNat = significand v := (castDiyFpFromDouble_eq v).1

theorem exponent_eq (v : Double) : (castDiyFpFromDouble v).e = (exponent v : ℤ)-1075 := by
  rw [(castDiyFpFromDouble_eq v).2,exponent]
  omega

theorem closer_boundary_iff (v : Double) :
    v &&& D64_FRACT_MASK = 0 ∧ v &&& D64_EXP_MASK ≠ 0 ↔ fractField v = 0 ∧ expField v ≠ 0 := by
  rw [← UInt64.toNat_inj,toNat_fractMask,UInt64.toNat_zero,Ne,expMask_eq_zero]

/-- The number and its boundaries in one unit, which is the `2^k`-th part of a quarter of the last one. -/
structure Normalized (v : Double) (k : ℕ) (w b_plus b_minus : DiyFp) : Prop where
  shift : 9 ≤ k ∧ k ≤ 61 ∧ (k = 9 ∨ exponent v = 1)
  w_e : w.e = (exponent v : ℤ)-1077-k
  w_f : w.f.toNat = 4*significand v*2^k
  w_large : 2^63 ≤ w.f.toNat
  plus_f : b_plus.f.toNat = (4*significand v+2)*2^k
  minus_f : b_minus.f.toNat = (4*significand v-below v)*2^k
  plus_e : b_plus.e = w.e
  minus_e : b_minus.e = w.e

/-- The two shifts agree. -/
theorem shift_eq {f j k : ℕ} (hf : f < 2^53) (hlow : 2^63 ≤ f*2^j) (hhigh : f*2^j < 2^64) (hlow' : 2^63 ≤ (2*f+1)*2^k)
    (hhigh' : (2*f+1)*2^k < 2^64) : 11 ≤ j ∧ j ≤ 63 ∧ k+1 = j := by
  have hj : 11 ≤ j := by
    by_contra hlt
    have hpow : 2^j ≤ 2^10 := Nat.pow_le_pow_right (by decide) (by omega)
    have := Nat.mul_le_mul (Nat.le_of_lt_succ hf : f ≤ 2^53-1) hpow
    omega
  have hpos : 0 < f := by
    by_contra hzero
    rw [Nat.eq_zero_of_not_pos hzero,Nat.zero_mul] at hlow
    omega
  have hj' : j ≤ 63 := by
    by_contra hlt
    have : 1*2^64 ≤ f*2^j := Nat.mul_le_mul hpos (Nat.pow_le_pow_right (by decide) (by omega))
    omega
  refine ⟨hj,hj',?_⟩
  rcases Nat.lt_trichotomy (k+1) j with hlt | heq | hgt
  · obtain ⟨i,rfl⟩ : ∃ i, j = k+2+i := ⟨j-(k+2),by omega⟩
    have hfits : f*2^(k+2) < 2^(62-k)*2^(k+2) := by
      rw [← Nat.pow_add,show 62-k+(k+2) = 64 by omega]
      exact Nat.lt_of_le_of_lt (Nat.mul_le_mul_left f (Nat.pow_le_pow_right (by decide) (by omega))) hhigh
    have hf' : f+1 ≤ 2^(62-k) := Nat.lt_of_mul_lt_mul_right hfits
    have hshort : (2*f+2)*2^k ≤ 2^63 := by
      calc (2*f+2)*2^k = (f+1)*2^(k+1) := by ring
        _ ≤ 2^(62-k)*2^(k+1) := Nat.mul_le_mul_right _ hf'
        _ = 2^63 := by rw [← Nat.pow_add,show 62-k+(k+1) = 63 by omega]
    have hone := Nat.two_pow_pos k
    rw [show 2*f+2 = 2*f+1+1 from rfl,Nat.succ_mul] at hshort
    omega
  · exact heq
  · have htwice : f*2^(j+1) ≤ (2*f)*2^k := by
      calc f*2^(j+1) ≤ f*2^(k+1) := Nat.mul_le_mul_left f (Nat.pow_le_pow_right (by decide) hgt)
        _ = (2*f)*2^k := by ring
    have hmore : (2*f)*2^k ≤ (2*f+1)*2^k := Nat.mul_le_mul_right _ (by omega)
    rw [Nat.pow_succ,← Nat.mul_assoc] at htwice
    omega

theorem toNat_amount {z : ℤ} {k : ℕ} (hz : z = k) (hk : k < 64) : z.toNat.toUInt64.toNat = k := by
  rw [hz,Int.toNat_natCast]
  exact Nat.mod_eq_of_lt (Nat.lt_trans hk (by decide))

theorem lowerBoundary_f {dfp b_plus : DiyFp} {k : ℕ} (hpos : 0 < significand v) (hf : dfp.f.toNat = significand v)
    (he : b_plus.e = dfp.e-2-k) (hk : k ≤ 61) (hfits : 4*significand v*2^k < 2^64) :
    (lowerBoundary v dfp b_plus).f.toNat = (4*significand v-below v)*2^k := by
  have hone := Nat.one_le_two_pow (n:=k)
  have hlarge : 4*significand v*1 ≤ 4*significand v*2^k := Nat.mul_le_mul_left _ hone
  rw [lowerBoundary,below]
  simp only [closer_boundary_iff]
  split
  · have hfour : (dfp.f <<< 2).toNat = 4*significand v := by
      rw [toNat_shiftLeft_of_lt (s:=2) rfl (by decide) (by rw [hf]; omega),hf]
      omega
    have hpred : ((dfp.f <<< 2)-1).toNat = 4*significand v-1 := by
      rw [toNat_sub_of_le (by rw [hfour]; exact Nat.le_trans hpos (by omega)),hfour]
      rfl
    have hle : (4*significand v-1)*2^k ≤ 4*significand v*2^k := Nat.mul_le_mul_right _ (Nat.sub_le _ 1)
    have hamount : dfp.e-2-b_plus.e = k := by omega
    rw [toNat_shiftLeft_of_lt (toNat_amount hamount (by omega)) (by omega)
      (by rw [hpred]; exact Nat.lt_of_le_of_lt hle hfits),hpred]
  · have htwo : (dfp.f <<< 1).toNat = 2*significand v := by
      rw [toNat_shiftLeft_of_lt (s:=1) rfl (by decide) (by rw [hf]; omega),hf]
      omega
    have hpred : ((dfp.f <<< 1)-1).toNat = 2*significand v-1 := by
      rw [toNat_sub_of_le (by rw [htwo]; exact Nat.le_trans hpos (by omega)),htwo]
      rfl
    have hshift : (2*significand v-1)*2^(k+1) = (4*significand v-2)*2^k := by
      rw [Nat.pow_succ',← Nat.mul_assoc]
      congr 1
      omega
    have hle : (4*significand v-2)*2^k ≤ 4*significand v*2^k := Nat.mul_le_mul_right _ (Nat.sub_le _ 2)
    have hamount : dfp.e-1-b_plus.e = (k+1 : ℕ) := by omega
    rw [toNat_shiftLeft_of_lt (toNat_amount hamount (by omega)) (by omega)
      (by rw [hpred,hshift]; exact Nat.lt_of_le_of_lt hle hfits),hpred,hshift]

theorem Positive.normalized (hv : Positive v) :
    ∃ k w b_plus, (castDiyFpFromDouble v).normalize = some w ∧
      DiyFp.normalize ⟨((castDiyFpFromDouble v).f <<< 1)+1,(castDiyFpFromDouble v).e-1⟩ = some b_plus ∧
      Normalized v k w b_plus (lowerBoundary v (castDiyFpFromDouble v) b_plus) := by
  have hf := significand_eq v
  have he := exponent_eq v
  have hlt := significand_lt v
  have hpos := hv.significand_pos
  have hbelow := below_le v
  generalize castDiyFpFromDouble v = dfp at *
  obtain ⟨j,w,hw,hwe,hwf,hlarge⟩ := DiyFp.normalize_eq (n:=dfp) (by rw [hf]; exact hpos)
  have htwo : (dfp.f <<< 1).toNat = 2*significand v := by
    rw [toNat_shiftLeft_of_lt (s:=1) rfl (by decide) (by rw [hf]; omega),hf]
    omega
  have hplus : ((dfp.f <<< 1)+1).toNat = 2*significand v+1 := by
    rw [UInt64.toNat_add,htwo]
    exact Nat.mod_eq_of_lt (show 2*significand v+1 < 2^64 by omega)
  obtain ⟨k,b_plus,hb,hbe,hbf,hlarge'⟩ := DiyFp.normalize_eq (n:=⟨(dfp.f <<< 1)+1,dfp.e-1⟩) (by rw [hplus]; omega)
  rw [hf] at hwf
  rw [hplus] at hbf
  have hwlt := w.f.toNat_lt
  have hblt := b_plus.f.toNat_lt
  rw [hwf] at hlarge hwlt
  rw [hbf] at hlarge' hblt
  obtain ⟨hj,hj',hjk⟩ := shift_eq hlt hlarge hwlt hlarge' hblt
  obtain ⟨k,rfl⟩ : ∃ i, k = i+1 := ⟨k-1,by omega⟩
  refine ⟨k,w,b_plus,hw,hb,⟨by omega,by omega,?_⟩,?_,?_,?_,?_,?_,?_,?_⟩
  · rcases Nat.lt_or_ge 1 (exponent v) with hexp | hexp
    · left
      have hwhole := le_significand hexp
      by_contra hne
      have : 2^52*2^12 ≤ significand v*2^j := Nat.mul_le_mul hwhole (Nat.pow_le_pow_right (by decide) (by omega))
      omega
    · exact .inr (Nat.le_antisymm hexp (le_max_right _ _))
  · rw [hwe,he]
    omega
  · rw [hwf,← hjk]
    ring
  · rw [hwf]
    exact hlarge
  · rw [hbf]
    ring
  · have hscale : 4*significand v*2^k = significand v*2^j := by
      rw [← hjk]
      ring
    refine lowerBoundary_f hpos hf ?_ (by omega) (by rw [hscale]; exact hwlt)
    rw [hbe]
    show dfp.e-1-_ = _
    omega
  · rw [hbe,hwe]
    show dfp.e-1-_ = _
    omega
  · show b_plus.e = w.e
    rw [hbe,hwe]
    show dfp.e-1-_ = _
    omega

section Products

variable {k : ℕ} {w b_plus b_minus c : DiyFp} {exp mk : ℤ}

/-- The numbers that the digits are generated from: wide apart, and within a word. -/
theorem Normalized.products (hn : Normalized v k w b_plus b_minus) (hv : Positive v)
    (h : cachedPow exp = some (mk,c)) :
    1 ≤ (b_minus.multiply c).f.toNat ∧ (b_minus.multiply c).f.toNat ≤ (w.multiply c).f.toNat ∧
      (w.multiply c).f.toNat ≤ (b_plus.multiply c).f.toNat ∧
      (b_minus.multiply c).f.toNat+766 ≤ (b_plus.multiply c).f.toNat ∧
      2^62 ≤ (b_plus.multiply c).f.toNat ∧ (b_plus.multiply c).f.toNat+1 < 2^64 := by
  have hc := c.f.toNat_lt
  obtain ⟨hc',-⟩ := DiyFp.cachedPow_near h
  have hunit : 2^9 ≤ 2^k := Nat.pow_le_pow_right (by decide) hn.shift.1
  have hpos := hv.significand_pos
  have hbelow := below_le v
  have hlarge := hn.w_large
  have hplus : b_plus.f.toNat = w.f.toNat+2*2^k := by
    rw [hn.plus_f,hn.w_f]
    ring
  have hminus : b_minus.f.toNat+below v*2^k = w.f.toNat := by
    rw [hn.minus_f,hn.w_f,← Nat.add_mul,Nat.sub_add_cancel (by omega)]
  have hhalf : 2*(below v*2^k) ≤ w.f.toNat := by
    rw [hn.w_f,← Nat.mul_assoc]
    exact Nat.mul_le_mul_right _ (by omega)
  have hwide : b_minus.f.toNat+1536 ≤ b_plus.f.toNat := by
    have : 1*2^k ≤ below v*2^k := Nat.mul_le_mul_right _ hbelow.1
    omega
  have hfits : b_plus.f.toNat+2^k ≤ 2^64 := by
    have hsplit : 2^64 = 2^(64-k)*2^k := by rw [← Nat.pow_add,Nat.sub_add_cancel (by have := hn.shift; omega)]
    have hlt := b_plus.f.toNat_lt
    rw [hn.plus_f,hsplit] at hlt
    rw [hn.plus_f,← Nat.succ_mul,hsplit]
    exact Nat.mul_le_mul_right _ (Nat.lt_of_mul_lt_mul_right hlt)
  have hlow_w : b_minus.f.toNat*c.f.toNat ≤ w.f.toNat*c.f.toNat := Nat.mul_le_mul_right _ (by omega)
  have hw_high : w.f.toNat*c.f.toNat ≤ b_plus.f.toNat*c.f.toNat := Nat.mul_le_mul_right _ (by omega)
  have hlow : 2^62*2^63 ≤ b_minus.f.toNat*c.f.toNat := Nat.mul_le_mul (by omega) hc'
  have hw : 2^63*2^63 ≤ w.f.toNat*c.f.toNat := Nat.mul_le_mul hlarge hc'
  have hspread : (b_minus.f.toNat+1536)*c.f.toNat ≤ b_plus.f.toNat*c.f.toNat := Nat.mul_le_mul_right _ hwide
  have hhigh : b_plus.f.toNat*c.f.toNat ≤ (2^64-512)*2^64 := Nat.mul_le_mul (by omega) hc.le
  rw [Nat.add_mul] at hspread
  simp only [DiyFp.multiply_f]
  omega

theorem scale_eq (mk : ℤ) {E ce : ℤ} {s : ℕ} (hs : E-k+ce+64 = -s) (n : ℚ) :
    n*2^k*(10^mk/2^ce)/2^64 = n*2^E*(10^mk*2^s) := by
  have hE : E = k-ce-64-s := by omega
  have htwo : (2 : ℚ)^E = 2^k/2^ce/2^64/2^s := by
    rw [hE,zpow_sub₀ two_ne_zero,zpow_sub₀ two_ne_zero,zpow_sub₀ two_ne_zero,zpow_natCast,zpow_natCast]
    norm_num
  have hpow : (2 : ℚ)^ce ≠ 0 := zpow_ne_zero _ two_ne_zero
  rw [htwo]
  field_simp

/-- The numbers that the digits are generated from are less than one off, in the unit of the digits. -/
structure Scaled (v : Double) (σ : ℚ) (low w high : ℕ) : Prop where
  low_near : |(low : ℚ)-lower v*σ| < 1
  w_near : |(w : ℚ)-toRat v*σ| < 1
  high_near : |(high : ℚ)-upper v*σ| < 1

theorem Normalized.scaled (hn : Normalized v k w b_plus b_minus) (hv : Positive v) (h : cachedPow exp = some (mk,c))
    {s : ℕ} (hs : w.e+c.e+64 = -s) :
    Scaled v (10^mk*2^s) (b_minus.multiply c).f.toNat (w.multiply c).f.toNat (b_plus.multiply c).f.toNat := by
  have hexp : (exponent v : ℤ)-1077-k+c.e+64 = -s := by rw [← hs,hn.w_e]
  have hscale := scale_eq mk hexp
  have hbelow : below v ≤ 4*significand v := by
    have := hv.significand_pos
    have := below_le v
    omega
  refine ⟨?_,?_,?_⟩
  · have hnear := DiyFp.multiply_near b_minus h
    rw [hn.minus_f,Nat.cast_mul,Nat.cast_sub hbelow] at hnear
    push_cast at hnear
    rw [hscale] at hnear
    exact hnear
  · have hnear := DiyFp.multiply_near w h
    rw [hn.w_f] at hnear
    push_cast at hnear
    rw [hscale] at hnear
    rw [hv.toRat_eq]
    exact hnear
  · have hnear := DiyFp.multiply_near b_plus h
    rw [hn.plus_f] at hnear
    push_cast at hnear
    rw [hscale] at hnear
    exact hnear

end Products

/-! ## The decimal -/

section Decimal

variable {s U G rest low w high : ℕ} {r : Digits} {buffer : List Byte} {d_exp mk : ℤ}

theorem weight_eq (mk : ℤ) (hscale : (G : ℚ) = U*(10^r.kappa*2^s)) (n : ℕ) :
    (n : ℚ)*10^(r.kappa-mk)*(10^mk*2^s)*U = n*G := by
  have hten : (10 : ℚ)^(r.kappa-mk)*10^mk = 10^r.kappa := by
    rw [← zpow_add₀ (by norm_num),Int.sub_add_cancel]
  rw [hscale,← hten]
  ring

theorem between_of_generated
    (hg : Generated (high+1) (high-low+2) (high+1-w) s r U G rest) (hle : low ≤ high)
    (hs : Scaled v (10^mk*2^s) low w high) (hsuccess : r.success = true) :
    lower v < number r.buffer*10^(r.kappa-mk) ∧ (number r.buffer*10^(r.kappa-mk) : ℚ) < upper v := by
  have hσ : (0 : ℚ) < 10^mk*2^s := by positivity
  have hU : (0 : ℚ) < U := by exact_mod_cast hg.unit_pos
  have hweight := weight_eq mk hg.scale (number r.buffer)
  have hsettled := hg.settled hsuccess
  have hexact : ((high : ℚ)+1)*U = number r.buffer*G+rest := by exact_mod_cast hg.exact
  have habove : (2 : ℚ)*U ≤ rest := by exact_mod_cast hsettled.above
  have hbelow : (rest : ℚ)+4*U ≤ (high-low+2)*U := by
    have h := hsettled.below
    rw [← Nat.cast_sub hle]
    exact_mod_cast h
  obtain ⟨hlow,-⟩ := abs_lt.mp hs.low_near
  obtain ⟨-,hhigh⟩ := abs_lt.mp hs.high_near
  refine ⟨?_,?_⟩
  · refine lt_of_mul_lt_mul_right ?_ hσ.le
    refine lt_of_mul_lt_mul_right ?_ hU.le
    rw [hweight]
    have : lower v*(10^mk*2^s)*U < (low+1)*U := mul_lt_mul_of_pos_right (by linarith) hU
    linarith
  · refine lt_of_mul_lt_mul_right ?_ hσ.le
    refine lt_of_mul_lt_mul_right ?_ hU.le
    rw [hweight]
    have : (high-1)*U < upper v*(10^mk*2^s)*U := mul_lt_mul_of_pos_right (by linarith) hU
    linarith

theorem Scaled.within (hs : Scaled v (10^mk*2^s) low w high) (hU : 0 < U) {x : ℚ} (hlow : lower v ≤ x)
    (hhigh : x ≤ upper v) :
    ((low : ℚ)-1)*U < x*(10^mk*2^s)*U ∧ x*(10^mk*2^s)*U < (high+1)*U := by
  have hσ : (0 : ℚ) < 10^mk*2^s := by positivity
  have hU' : (0 : ℚ) < U := by exact_mod_cast hU
  obtain ⟨-,hlow_near⟩ := abs_lt.mp hs.low_near
  obtain ⟨hhigh_near,-⟩ := abs_lt.mp hs.high_near
  have hlow' := mul_le_mul_of_nonneg_right hlow hσ.le
  have hhigh' := mul_le_mul_of_nonneg_right hhigh hσ.le
  exact ⟨mul_lt_mul_of_pos_right (by linarith) hU',mul_lt_mul_of_pos_right (by linarith) hU'⟩

theorem shortest_of_generated (hg : Generated (high+1) (high-low+2) (high+1-w) s r U G rest) (hle : low ≤ high)
    (hs : Scaled v (10^mk*2^s) low w high) (n : ℕ) {j : ℤ} (hj : r.kappa-mk < j) (hlow : lower v ≤ n*10^j)
    (hhigh : (n*10^j : ℚ) ≤ upper v) : False := by
  obtain ⟨front,prev,hstage,hopen⟩ := hg.coarse
  obtain ⟨i,rfl⟩ : ∃ i : ℕ, j = r.kappa-mk+1+i := ⟨(j-(r.kappa-mk+1)).toNat,by omega⟩
  obtain ⟨habove,hbelow⟩ := hs.within hg.unit_pos hlow hhigh
  have hweight : (n : ℚ)*10^(r.kappa-mk+1+i)*(10^mk*2^s)*U = (n*10^i : ℕ)*(10*G) := by
    have h := weight_eq mk hg.scale (n*10^(i+1))
    rw [zpow_add₀ (by norm_num),zpow_add₀ (by norm_num),zpow_one,zpow_natCast]
    push_cast at h ⊢
    rw [pow_succ] at h
    linarith
  rw [hweight] at habove hbelow
  have hexact := hstage.exact
  have hprev := hstage.lt
  have hbelow' : n*10^i*(10*G) < (high+1)*U := by exact_mod_cast hbelow
  -- so many steps fit below the number that the digits were read off, and the last of them is too far below
  have hsteps : n*10^i ≤ number front := by
    refine Nat.le_of_lt_succ (Nat.lt_of_mul_lt_mul_right (a:=10*G) (Nat.lt_of_lt_of_le hbelow' ?_))
    rw [hexact,Nat.succ_mul (number front)]
    omega
  have hfar : (n*10^i*(10*G) : ℕ)+(high-low+2)*U ≤ (high+1)*U := by
    have hmul := Nat.mul_le_mul_right (10*G) hsteps
    rw [hexact]
    omega
  have hfar' : ((n*10^i : ℕ) : ℚ)*(10*G)+(high-low+2)*U ≤ (high+1)*U := by
    rw [← Nat.cast_sub hle]
    exact_mod_cast hfar
  linarith

/-- What is not refused is closest to the number, among the multiples of its power of ten between the boundaries. -/
theorem closest_of_generated (hg : Generated (high+1) (high-low+2) (high+1-w) s r U G rest) (hle : low ≤ high)
    (hw : w ≤ high) (hs : Scaled v (10^mk*2^s) low w high) (hsuccess : r.success = true) (n : ℕ)
    (hlow : lower v ≤ n*10^(r.kappa-mk)) (hhigh : (n*10^(r.kappa-mk) : ℚ) ≤ upper v) :
    |number r.buffer*10^(r.kappa-mk)-toRat v| ≤ |n*10^(r.kappa-mk)-toRat v| := by
  have hσ : (0 : ℚ) < 10^mk*2^s := by positivity
  have hU : (0 : ℚ) < U := by exact_mod_cast hg.unit_pos
  obtain ⟨habove,hbelow⟩ := hs.within hg.unit_pos hlow hhigh
  have hweight := weight_eq mk hg.scale (number r.buffer)
  have hweight' := weight_eq mk hg.scale n
  rw [hweight'] at habove hbelow
  have hexact := hg.exact
  have hbelow' : n*G < (high+1)*U := by exact_mod_cast hbelow
  have hother : (((high+1)*U-n*G : ℕ) : ℤ) = rest+(number r.buffer-n)*G := by
    rw [Nat.cast_sub hbelow'.le,hexact]
    push_cast
    ring
  have hinside : (high+1)*U-n*G ≤ (high-low+2)*U := by
    have hcast : (((high+1)*U-n*G : ℕ) : ℚ) ≤ ((high-low+2)*U : ℕ) := by
      rw [Nat.cast_sub hbelow'.le]
      push_cast [Nat.cast_sub hle]
      linarith
    exact_mod_cast hcast
  have hdist : ∀ m : ℕ, (10^mk*2^s*U)*|m*10^(r.kappa-mk)-toRat v| =
      |((high+1)*U-m*G)-((high+1)*U-toRat v*(10^mk*2^s)*U)| := by
    intro m
    rw [← weight_eq mk hg.scale m,← abs_of_pos (mul_pos hσ hU),← abs_mul,← abs_neg]
    congr 1
    ring
  obtain ⟨hw_low,hw_high⟩ := abs_lt.mp hs.w_near
  have hP : (((high+1-w)*U : ℕ) : ℚ) = (high+1-w)*U := by
    rw [Nat.cast_mul,Nat.cast_sub (by omega)]
    push_cast
    ring
  have hclosest := (hg.settled hsuccess).closest _ _ hother hinside ((high+1)*U-toRat v*(10^mk*2^s)*U)
    (by
      have := mul_lt_mul_of_pos_right hw_low hU
      rw [hP]
      linarith)
    (by
      have := mul_lt_mul_of_pos_right hw_high hU
      rw [hP]
      linarith)
  refine le_of_mul_le_mul_left ?_ (mul_pos hσ hU)
  rw [hdist,hdist]
  have hrest : (rest : ℚ) = (high+1)*U-number r.buffer*G := by
    have hcast : ((high : ℚ)+1)*U = number r.buffer*G+rest := by exact_mod_cast hexact
    rw [hcast]
    ring
  rw [Nat.cast_sub hbelow'.le,hrest] at hclosest
  push_cast at hclosest
  exact hclosest

/-- The digits and their exponent as a decimal for the number: strictly between its boundaries, where no multiple of
a larger power of ten lies and none of this power lies closer. -/
structure Decimal (v : Double) (buffer : List Byte) (d_exp : ℤ) : Prop where
  lower_lt : lower v < number buffer*10^d_exp
  lt_upper : (number buffer*10^d_exp : ℚ) < upper v
  shortest : ∀ (n : ℕ) (j : ℤ), d_exp < j → lower v ≤ n*10^j → (n*10^j : ℚ) ≤ upper v → False
  closest : ∀ n : ℕ, lower v ≤ n*10^d_exp → (n*10^d_exp : ℚ) ≤ upper v →
    |number buffer*10^d_exp-toRat v| ≤ |n*10^d_exp-toRat v|

theorem Positive.lower_bound (hv : Positive v) : (2 : ℚ)^(-1075 : ℤ) ≤ lower v := by
  have hpos := hv.significand_pos
  have hbelow := (below_le v).2
  have hwhole : ((2+below v : ℕ) : ℚ) ≤ (4*significand v : ℕ) := by exact_mod_cast (by omega)
  push_cast at hwhole
  have hexp : (1 : ℤ) ≤ exponent v := by exact_mod_cast le_max_right (expField v) 1
  calc (2 : ℚ)^(-1075 : ℤ) = 2*2^(-1076 : ℤ) := by rw [← zpow_one_add₀ two_ne_zero]; rfl
    _ ≤ 2*2^((exponent v : ℤ)-1077) :=
      mul_le_mul_of_nonneg_left (zpow_le_zpow_right₀ one_le_two (by omega)) zero_le_two
    _ ≤ lower v := mul_le_mul_of_nonneg_right (by linarith) (by positivity)

theorem Positive.upper_bound (hv : Positive v) : upper v ≤ 2^(1025 : ℤ) := by
  have hlt := significand_lt v
  have hwhole : (4*significand v+2 : ℕ) ≤ ((2^56 : ℕ) : ℚ) := by exact_mod_cast (by omega)
  push_cast at hwhole
  have hexp : (exponent v : ℤ)-1077 ≤ 969 := by
    have := hv.expField_lt
    rw [exponent]
    omega
  calc upper v ≤ 2^56*2^(969 : ℤ) :=
      mul_le_mul hwhole (zpow_le_zpow_right₀ one_le_two hexp) (by positivity) (by positivity)
    _ = 2^(1025 : ℤ) := by rw [← zpow_natCast,← zpow_add₀ two_ne_zero]; rfl

theorem Decimal.number_pos (h : Decimal v buffer d_exp) (hv : Positive v) : 0 < number buffer := by
  have hlow := hv.lower_bound
  have hlt := h.lower_lt
  have hpos : (0 : ℚ) < 2^(-1075 : ℤ) := by positivity
  refine Nat.pos_of_ne_zero fun hzero => ?_
  rw [hzero,Nat.cast_zero,zero_mul] at hlt
  linarith

theorem eight_le_ten (k : ℕ) : (2 : ℚ)^((3*k : ℕ) : ℤ) ≤ 10^(k : ℤ) := by
  rw [zpow_natCast,zpow_natCast,pow_mul]
  exact pow_le_pow_left₀ (by norm_num) (by norm_num) k

theorem Decimal.d_exp_range (h : Decimal v buffer d_exp) (hv : Positive v) (hlen : buffer.length ≤ 18)
    (hdigits : ∀ c ∈ buffer, isDigit c = true) : d_exp.natAbs < 1000 := by
  have hpos : (1 : ℚ) ≤ number buffer := by exact_mod_cast h.number_pos hv
  have hlt := h.lower_lt.le.trans' hv.lower_bound
  have hgt := h.lt_upper.le.trans hv.upper_bound
  have hten : (0 : ℚ) ≤ 10^d_exp := by positivity
  by_contra hlarge
  rcases Int.le_total 0 d_exp with hsign | hsign
  · have hpower : (2 : ℚ)^(1026 : ℤ) ≤ number buffer*10^d_exp := by
      calc (2 : ℚ)^(1026 : ℤ) ≤ 2^((3*1000 : ℕ) : ℤ) := zpow_le_zpow_right₀ one_le_two (by decide)
        _ ≤ 10^((1000 : ℕ) : ℤ) := eight_le_ten 1000
        _ ≤ 10^d_exp := zpow_le_zpow_right₀ (by norm_num) (by omega)
        _ ≤ number buffer*10^d_exp := le_mul_of_one_le_left hten hpos
    exact absurd (hpower.trans hgt) (not_le_of_gt (zpow_lt_zpow_right₀ one_lt_two (by decide)))
  · have hnumber : (number buffer : ℚ) ≤ 10^(18 : ℤ) := by
      have hbound := (DecimalText.number_lt hdigits).le.trans (Nat.pow_le_pow_right (by decide) hlen)
      exact_mod_cast hbound
    have hpower : (number buffer*10^d_exp : ℚ) ≤ 2^(-1076 : ℤ) := by
      calc (number buffer*10^d_exp : ℚ) ≤ 10^(18 : ℤ)*10^d_exp := mul_le_mul_of_nonneg_right hnumber hten
        _ = 10^(18+d_exp) := by rw [← zpow_add₀ (by norm_num)]
        _ ≤ 10^(-((982 : ℕ) : ℤ)) := zpow_le_zpow_right₀ (by norm_num) (by omega)
        _ ≤ 2^(-((3*982 : ℕ) : ℤ)) := by
          rw [zpow_neg,zpow_neg]
          exact inv_anti₀ (by positivity) (eight_le_ten 982)
        _ ≤ 2^(-1076 : ℤ) := zpow_le_zpow_right₀ one_le_two (by decide)
    exact absurd (hlt.trans hpower) (not_le_of_gt (zpow_lt_zpow_right₀ one_lt_two (by decide)))

theorem grisu3_eq (hv : Positive v) :
    ∃ r d_exp, grisu3 v = some (r,d_exp) ∧ r.buffer.length ≤ 18 ∧ (∀ c ∈ r.buffer, isDigit c = true) ∧
      (r.success = true → Decimal v r.buffer d_exp) := by
  obtain ⟨k,w,b_plus,hw,hb,hn⟩ := hv.normalized
  have hexp := hv.expField_lt
  have hrange : -1137 ≤ w.e ∧ w.e ≤ 960 := by
    have hk := hn.shift
    have he : exponent v ≤ 2046 := max_le (by omega) (by decide)
    have he' : 1 ≤ exponent v := le_max_right _ _
    rw [hn.w_e]
    omega
  obtain ⟨mk,c,hc,hlow,hhigh⟩ := DiyFp.cachedPow_some hrange.1 hrange.2
  obtain ⟨hone,hle,hle',hwide,hlarge,hfits⟩ := hn.products hv hc
  have hs : w.e+c.e+64 = -((-(w.e+c.e+64)).toNat : ℤ) := by omega
  obtain ⟨r,U,G,rest,hrun,hg⟩ := digitGen_eq hone hle hle' hwide hlarge hfits
    (show (w.multiply c).e = -((-(w.e+c.e+64)).toNat : ℤ) from hs) (by omega) (by omega)
  have hscaled := hn.scaled hv hc hs
  have hle'' := hle.trans hle'
  refine ⟨r,r.kappa-mk,?_,hg.length_le hfits.le (by omega),hg.digits,fun hsuccess => ⟨?_,?_,?_,?_⟩⟩
  · rw [grisu3,hw,Option.bind_some,hb,Option.bind_some,hc,Option.bind_some]
    simp only [hrun,Option.map_some]
  · exact (between_of_generated hg hle'' hscaled hsuccess).1
  · exact (between_of_generated hg hle'' hscaled hsuccess).2
  · exact fun n j => shortest_of_generated hg hle'' hscaled n
  · exact closest_of_generated hg hle'' hle' hscaled hsuccess

/-- The digits that are not refused name a decimal that is nearer to the number than to any other, so that reading it
to the nearest gives the number back. -/
theorem grisu3_round_trip (hv : Positive v) :
    ∃ r d_exp, grisu3 v = some (r,d_exp) ∧ r.buffer.length ≤ 18 ∧ (∀ c ∈ r.buffer, isDigit c = true) ∧
      (r.success = true → ∀ u, IsFinite u → u ≠ v →
        |toRat v-number r.buffer*10^d_exp| < |toRat u-number r.buffer*10^d_exp|) := by
  obtain ⟨r,d_exp,hrun,hlength,hdigits,hdecimal⟩ := grisu3_eq hv
  refine ⟨r,d_exp,hrun,hlength,hdigits,fun hsuccess u _ hne => ?_⟩
  have hbetween := hdecimal hsuccess
  exact hv.nearest hbetween.lower_lt hbetween.lt_upper u hne

/-- `0.1`. -/
theorem grisu3_round_trip_tenth :
    ∃ r d_exp, grisu3 0x3FB999999999999A = some (r,d_exp) ∧ r.buffer.length ≤ 18 ∧
      (∀ c ∈ r.buffer, isDigit c = true) ∧ (r.success = true → ∀ u, IsFinite u → u ≠ 0x3FB999999999999A →
        |toRat 0x3FB999999999999A-number r.buffer*10^d_exp| < |toRat u-number r.buffer*10^d_exp|) :=
  grisu3_round_trip ⟨by decide,by decide⟩

/-- No shorter decimal lies between the boundaries, and none as short lies closer to the number. -/
theorem grisu3_shortest_closest (hv : Positive v) {r : Digits} {d_exp : ℤ} (hrun : grisu3 v = some (r,d_exp))
    (hsuccess : r.success = true) :
    lower v < number r.buffer*10^d_exp ∧ (number r.buffer*10^d_exp : ℚ) < upper v ∧
      ∀ (n : ℕ) (j : ℤ), d_exp ≤ j → lower v ≤ n*10^j → (n*10^j : ℚ) ≤ upper v →
        j = d_exp ∧ |number r.buffer*10^d_exp-toRat v| ≤ |n*10^d_exp-toRat v| := by
  obtain ⟨r',d_exp',hrun',-,-,hdecimal⟩ := grisu3_eq hv
  rw [hrun,Option.some.injEq,Prod.mk.injEq] at hrun'
  obtain ⟨rfl,rfl⟩ := hrun'
  have hbetween := hdecimal hsuccess
  refine ⟨hbetween.lower_lt,hbetween.lt_upper,fun n j hj hlow hhigh => ?_⟩
  rcases hj.eq_or_lt with rfl | hlt
  · exact ⟨rfl,hbetween.closest n hlow hhigh⟩
  · exact (hbetween.shortest n j hlt hlow hhigh).elim

/-- `0.1`. -/
theorem grisu3_shortest_closest_tenth :
    lower 0x3FB999999999999A < number [49]*10^(-1 : ℤ) ∧ (number [49]*10^(-1 : ℤ) : ℚ) < upper 0x3FB999999999999A ∧
      ∀ (n : ℕ) (j : ℤ), -1 ≤ j → lower 0x3FB999999999999A ≤ n*10^j → (n*10^j : ℚ) ≤ upper 0x3FB999999999999A →
        j = -1 ∧ |number [49]*10^(-1 : ℤ)-toRat 0x3FB999999999999A| ≤ |n*10^(-1 : ℤ)-toRat 0x3FB999999999999A| :=
  grisu3_shortest_closest (r:=⟨true,[49],3⟩) ⟨by decide,by decide⟩ (by decide +kernel) rfl

end Decimal

end Grisu
end GgLib
