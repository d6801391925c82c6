import GgLib.DecimalText
import GgLib.DiyFp
import GgLib.NearestPoint
import Mathlib.Data.List.ModifyLast
import Mathlib.Tactic.IntervalCases

/-! The digit generation of grisu3 between two boundaries, and its last step that moves the digits
towards the number and refuses those that may be wrong. -/
namespace GgLib
namespace Grisu
open DecimalText (number number_snoc isDigit isDigit_iff)

def pow10Cache : List UInt32 :=
  [0,1,10,100,1000,10000,100000,1000000,10000000,100000000,1000000000]

/-- The position of the power in the table, and the power. -/
def largestPow10 (n : UInt32) (n_bits : ℤ) : Option (ℤ × UInt32) :=
  let guess := (n_bits+1)*1233/2^12+1
  pow10Cache[guess.toNat]?.bind fun power =>
    let guess := if n < power then guess-1 else guess
    pow10Cache[guess.toNat]?.map fun power => (guess,power)

def decrementLast (buffer : List Byte) : List Byte := buffer.modifyLast (·-1)

/-- The loop of `grisu3_round_weed`, for at most as many turns. -/
def weedLoop (wp_Wup delta ten_kappa : UInt64) : ℕ → List Byte → UInt64 → Option (List Byte × UInt64)
  | 0, _, _ => none
  | turns+1, buffer, rest =>
    if rest < wp_Wup ∧ delta-rest ≥ ten_kappa ∧
        (rest+ten_kappa < wp_Wup ∨ wp_Wup-rest ≥ rest+ten_kappa-wp_Wup) then
      weedLoop wp_Wup delta ten_kappa turns (decrementLast buffer) (rest+ten_kappa)
    else some (buffer,rest)

/-- `grisu3_round_weed`: the returned flag and the buffer behind it. -/
def roundWeed (buffer : List Byte) (wp_W delta rest ten_kappa ulp : UInt64) : Option (Bool × List Byte) :=
  let wp_Wup := wp_W-ulp
  let wp_Wdown := wp_W+ulp
  (weedLoop wp_Wup delta ten_kappa 10 buffer rest).map fun (buffer,rest) =>
    if rest < wp_Wdown ∧ delta-rest ≥ ten_kappa ∧
        (rest+ten_kappa < wp_Wdown ∨ wp_Wdown-rest > rest+ten_kappa-wp_Wdown) then (false,buffer)
    else (decide (2*ulp ≤ rest ∧ rest ≤ delta-4*ulp),buffer)

/-- What `grisu3_digit_gen` returns and stores. -/
structure Digits where
  success : Bool
  buffer : List Byte
  kappa : ℤ
  deriving DecidableEq, Repr

/-- The loop behind the point, for at most as many turns; `shift` is `-one.e`. -/
def fractionLoop (shift one wp_w : UInt64) : ℕ → UInt64 → UInt64 → UInt64 → List Byte → ℤ → Option Digits
  | 0, _, _, _, _, _ => none
  | turns+1, p2, unit, unsafe_interval, buffer, kappa =>
    let p2 := p2*10
    let unit := unit*10
    let unsafe_interval := unsafe_interval*10
    let digit := p2 >>> shift
    let buffer := buffer++[48+digit.toUInt8]
    let p2 := p2 &&& (one-1)
    let kappa := kappa-1
    if p2 < unsafe_interval then
      (roundWeed buffer (wp_w*unit) unsafe_interval p2 one unit).map fun (success,buffer) => ⟨success,buffer,kappa⟩
    else fractionLoop shift one wp_w turns p2 unit unsafe_interval buffer kappa

/-- The loop before the point, over the `kappa` digits that are left, and the loop behind it. -/
def integralLoop (shift one wp_w p2 unsafe_interval : UInt64) : ℕ → UInt32 → UInt32 → List Byte → Option Digits
  | 0, _, _, buffer => fractionLoop shift one wp_w 20 p2 1 unsafe_interval buffer 0
  | kappa+1, p1, div, buffer =>
    let digit := p1/div
    let buffer := buffer++[48+digit.toUInt8]
    let p1 := p1%div
    let rest := (p1.toUInt64 <<< shift)+p2
    if rest < unsafe_interval then
      (roundWeed buffer wp_w unsafe_interval rest (div.toUInt64 <<< shift) 1).map fun (success,buffer) =>
        ⟨success,buffer,kappa⟩
    else integralLoop shift one wp_w p2 unsafe_interval kappa p1 (div/10) buffer

/-- `grisu3_digit_gen`. -/
def digitGen (low w high : DiyFp) : Option Digits :=
  let too_low : DiyFp := ⟨low.f-1,low.e⟩
  let too_high : DiyFp := ⟨high.f+1,high.e⟩
  let unsafe_interval := too_high.minus too_low
  let shift := (-w.e).toNat.toUInt64
  let one : DiyFp := ⟨1 <<< shift,w.e⟩
  let p1 := (too_high.f >>> shift).toUInt32
  let p2 := too_high.f &&& (one.f-1)
  (largestPow10 p1 (64+one.e)).bind fun (kappa,div) =>
    integralLoop shift one.f (too_high.minus w).f p2 unsafe_interval.f kappa.toNat p1 div []

/-! ## The last step -/

theorem decrementLast_snoc (front : List Byte) (c : Byte) : decrementLast (front++[c]) = front++[c-1] :=
  List.modifyLast_concat _ c front

theorem toNat_add_of_le {x y z : UInt64} (h : x.toNat+y.toNat ≤ z.toNat) : (x+y).toNat = x.toNat+y.toNat := by
  have hz := z.toNat_lt
  rw [UInt64.toNat_add]
  exact Nat.mod_eq_of_lt (by omega)

theorem toNat_mul_of_fits {x y z : UInt64} (h : x.toNat*y.toNat ≤ z.toNat) : (x*y).toNat = x.toNat*y.toNat := by
  have hz := z.toNat_lt
  rw [UInt64.toNat_mul]
  exact Nat.mod_eq_of_lt (by omega)

theorem toNat_sub_of_le {x y : UInt64} (h : y.toNat ≤ x.toNat) : (x-y).toNat = x.toNat-y.toNat :=
  UInt64.toNat_sub_of_le x y (UInt64.le_iff_toNat_le.mpr h)

section Weed

variable {rest up delta ten_kappa : UInt64} {front : List Byte} {c : Byte} {d : ℕ}

/-- Whether a step of `ten_kappa` stays inside and comes at least as close to `up`. -/
theorem closer_iff (hle : rest.toNat ≤ delta.toNat) :
    rest < up ∧ delta-rest ≥ ten_kappa ∧ (rest+ten_kappa < up ∨ up-rest ≥ rest+ten_kappa-up) ↔
      rest.toNat < up.toNat ∧ rest.toNat+ten_kappa.toNat ≤ delta.toNat ∧
        2*rest.toNat+ten_kappa.toNat ≤ 2*up.toNat := by
  rw [ge_iff_le,ge_iff_le,UInt64.lt_iff_toNat_lt,UInt64.le_iff_toNat_le,toNat_sub_of_le hle]
  refine and_congr_right fun hup => ?_
  rw [Nat.le_sub_iff_add_le' hle]
  refine and_congr_right fun hroom => ?_
  rw [UInt64.lt_iff_toNat_lt,UInt64.le_iff_toNat_le,toNat_sub_of_le (Nat.le_of_lt hup)]
  have hsum := toNat_add_of_le hroom
  by_cases hbelow : (rest+ten_kappa).toNat < up.toNat
  · rw [hsum] at hbelow ⊢
    omega
  · rw [toNat_sub_of_le (Nat.le_of_not_lt hbelow)]
    rw [hsum] at hbelow ⊢
    omega

theorem strictly_closer_iff (hle : rest.toNat ≤ delta.toNat) :
    rest < up ∧ delta-rest ≥ ten_kappa ∧ (rest+ten_kappa < up ∨ up-rest > rest+ten_kappa-up) ↔
      rest.toNat < up.toNat ∧ rest.toNat+ten_kappa.toNat ≤ delta.toNat ∧
        2*rest.toNat+ten_kappa.toNat < 2*up.toNat := by
  rw [ge_iff_le,gt_iff_lt,UInt64.lt_iff_toNat_lt,UInt64.le_iff_toNat_le,toNat_sub_of_le hle]
  refine and_congr_right fun hup => ?_
  rw [Nat.le_sub_iff_add_le' hle]
  refine and_congr_right fun hroom => ?_
  rw [UInt64.lt_iff_toNat_lt,UInt64.lt_iff_toNat_lt,toNat_sub_of_le (Nat.le_of_lt hup)]
  have hsum := toNat_add_of_le hroom
  by_cases hbelow : (rest+ten_kappa).toNat < up.toNat
  · rw [hsum] at hbelow ⊢
    omega
  · rw [toNat_sub_of_le (Nat.le_of_not_lt hbelow)]
    rw [hsum] at hbelow ⊢
    omega

/-- The loop takes some steps down from the last digit, the last of which came at least as close to `up`. -/
theorem weedLoop_eq (front : List Byte) (up : UInt64) {turns : ℕ} (hd : d < turns) (hc : c.toNat = 48+d)
    (hle : rest.toNat ≤ delta.toNat) (hlast : delta.toNat ≤ rest.toNat+d*ten_kappa.toNat) (hpos : 0 < ten_kappa.toNat) :
    ∃ m c' rest', weedLoop up delta ten_kappa turns (front++[c]) rest = some (front++[c'],rest') ∧ m ≤ d ∧
      c'.toNat = 48+(d-m) ∧ rest'.toNat = rest.toNat+m*ten_kappa.toNat ∧ rest'.toNat ≤ delta.toNat ∧
      (m = 0 ∨ 2*rest'.toNat ≤ 2*up.toNat+ten_kappa.toNat) := by
  induction turns generalizing d c rest with
  | zero => exact absurd hd (Nat.not_lt_zero d)
  | succ turns ih =>
    rw [weedLoop]
    split
    · rename_i hcloser
      obtain ⟨hup,hroom,hnear⟩ := (closer_iff hle).mp hcloser
      obtain ⟨d,rfl⟩ : ∃ k, d = k+1 := by
        refine Nat.exists_eq_succ_of_ne_zero fun hzero => ?_
        rw [hzero,Nat.zero_mul] at hlast
        omega
      have hsum := toNat_add_of_le hroom
      have hc' : (c-1).toNat = 48+d := by
        rw [UInt8.toNat_sub_of_le c 1 (by rw [UInt8.le_iff_toNat_le,hc]; exact Nat.le_add_left 1 (48+d)),hc]
        rfl
      have hlast' : delta.toNat ≤ (rest+ten_kappa).toNat+d*ten_kappa.toNat := by
        rw [hsum,Nat.add_assoc,Nat.add_comm ten_kappa.toNat,← Nat.succ_mul]
        exact hlast
      obtain ⟨m,c'',rest',hrun,hm,hdigit,hrest,hle',hnear'⟩ :=
        ih (Nat.lt_of_succ_lt_succ hd) hc' (by rw [hsum]; exact hroom) hlast'
      rw [decrementLast_snoc]
      refine ⟨m+1,c'',rest',hrun,Nat.succ_le_succ hm,?_,?_,hle',.inr ?_⟩
      · rw [hdigit]
        omega
      · rw [hrest,hsum,Nat.succ_mul]
        omega
      · rcases hnear' with rfl | hnear'
        · rw [hrest,hsum]
          omega
        · exact hnear'
    · exact ⟨0,c,rest,rfl,Nat.zero_le d,hc,by simp,hle,.inl rfl⟩

/-- A rest that is neither too small nor too large, and none that differs from it by steps of `G` comes closer
to what lies less than `U` from `P`. -/
structure Settled (P Δ U G R : ℕ) : Prop where
  above : 2*U ≤ R
  below : R+4*U ≤ Δ
  closest : ∀ (z : ℤ) (other : ℕ), (other : ℤ) = R+z*G → other ≤ Δ →
    ∀ x : ℚ, (P : ℚ)-U < x → x < (P : ℚ)+U → |(R : ℚ)-x| ≤ |(other : ℚ)-x|

theorem closest_of_steps {P Δ U G R : ℕ} (hP : U ≤ P) (hbefore : R < G ∨ 2*R ≤ 2*(P-U)+G)
    (hbehind : ¬ (R < P+U ∧ R+G ≤ Δ ∧ 2*R+G < 2*(P+U))) (z : ℤ) (other : ℕ) (hother : (other : ℤ) = R+z*G)
    (hΔ : other ≤ Δ) (x : ℚ) (hlow : (P : ℚ)-U < x) (hhigh : x < (P : ℚ)+U) : |(R : ℚ)-x| ≤ |(other : ℚ)-x| := by
  have hG : (0 : ℤ) ≤ G := Int.natCast_nonneg G
  rcases lt_trichotomy z 0 with hz | rfl | hz
  · have hstep : z*G ≤ -1*G := Int.mul_le_mul_of_nonneg_right (by omega) hG
    have hle : other+G ≤ R := by omega
    have hmid : 2*R+2*U ≤ 2*P+G := by omega
    have hle' : (other : ℚ)+G ≤ R := by exact_mod_cast hle
    have hmid' : 2*(R : ℚ)+2*U ≤ 2*P+G := by exact_mod_cast hmid
    have hG' : (0 : ℚ) ≤ G := Nat.cast_nonneg G
    exact NearestPoint.abs_sub_le_of_mid_le (by linarith) (by linarith)
  · have hsame : other = R := by omega
    rw [hsame]
  · have hstep : 1*(G : ℤ) ≤ z*G := Int.mul_le_mul_of_nonneg_right (by omega) hG
    have hle : R+G ≤ other := by omega
    have hmid : P+U ≤ R ∨ 2*(P+U) ≤ 2*R+G := by omega
    have hle' : (R : ℚ)+G ≤ other := by exact_mod_cast hle
    have hG' : (0 : ℚ) ≤ G := Nat.cast_nonneg G
    refine NearestPoint.abs_sub_le_of_le_mid (by linarith) ?_
    rcases hmid with hmid | hmid
    · have hmid' : (P : ℚ)+U ≤ R := by exact_mod_cast hmid
      linarith
    · have hmid' : 2*((P : ℚ)+U) ≤ 2*R+G := by exact_mod_cast hmid
      linarith

/-- The last digit goes down by some steps, and what is not refused is settled. -/
theorem roundWeed_eq (front : List Byte) (wp_W delta rest ten_kappa ulp : UInt64) (hd : d ≤ 9) (hc : c.toNat = 48+d)
    (hup : ulp.toNat ≤ wp_W.toNat) (hdown : wp_W.toNat+ulp.toNat ≤ delta.toNat)
    (hfour : 4*ulp.toNat ≤ delta.toNat) (hrest : rest.toNat ≤ delta.toNat) (hshort : rest.toNat < ten_kappa.toNat)
    (hlast : delta.toNat ≤ rest.toNat+d*ten_kappa.toNat) :
    ∃ success m c', roundWeed (front++[c]) wp_W delta rest ten_kappa ulp = some (success,front++[c']) ∧ m ≤ d ∧
      c'.toNat = 48+(d-m) ∧ (success = true →
        Settled wp_W.toNat delta.toNat ulp.toNat ten_kappa.toNat (rest.toNat+m*ten_kappa.toNat)) := by
  have hdelta := delta.toNat_lt
  obtain ⟨m,c',rest',hrun,hm,hdigit,hrest',hle,hnear⟩ := weedLoop_eq front (wp_W-ulp)
    (Nat.lt_succ_of_le hd : d < 10) hc hrest hlast (Nat.lt_of_le_of_lt (Nat.zero_le _) hshort)
  rw [toNat_sub_of_le hup] at hnear
  have htwo : (2*ulp).toNat = 2*ulp.toNat := toNat_mul_of_fits (by
    show 2*ulp.toNat ≤ delta.toNat
    omega)
  have hfour' : (4*ulp).toNat = 4*ulp.toNat := toNat_mul_of_fits hfour
  rw [roundWeed]
  simp only [hrun,Option.map_some]
  by_cases hrefused : rest' < wp_W+ulp ∧ delta-rest' ≥ ten_kappa ∧
      (rest'+ten_kappa < wp_W+ulp ∨ wp_W+ulp-rest' > rest'+ten_kappa-(wp_W+ulp))
  · rw [if_pos hrefused]
    exact ⟨false,m,c',rfl,hm,hdigit,nofun⟩
  · rw [if_neg hrefused]
    rw [strictly_closer_iff hle,toNat_add_of_le hdown] at hrefused
    refine ⟨_,m,c',rfl,hm,hdigit,fun hsafe => ?_⟩
    rw [decide_eq_true_eq,UInt64.le_iff_toNat_le,UInt64.le_iff_toNat_le,htwo,
      toNat_sub_of_le (by rw [hfour']; exact hfour),hfour'] at hsafe
    rw [← hrest']
    refine ⟨hsafe.1,by omega,fun z other hother hother' x => closest_of_steps hup ?_ hrefused z other hother hother' x⟩
    rcases hnear with rfl | hnear
    · left
      rw [hrest']
      omega
    · exact .inr hnear

end Weed

/-! ## The digits -/

/-- Some digits of `T` in units of `U`, the last of them with the weight `G`, and what is left. -/
structure Stage (T U G : ℕ) (buffer : List Byte) (rest : ℕ) : Prop where
  digits : ∀ c ∈ buffer, isDigit c = true
  exact : T*U = number buffer*G+rest
  lt : rest < G
  leading : 10^buffer.length*G ≤ 10*(T*U)

variable {T U G rest d : ℕ} {buffer : List Byte} {c : Byte}

theorem Stage.snoc (h : Stage T U (10*G) buffer (d*G+rest)) (hrest : rest < G) (hc : c.toNat = 48+d) :
    d ≤ 9 ∧ Stage T U G (buffer++[c]) rest := by
  have hd : d < 10 := by
    have hlt := h.lt
    by_contra hge
    have : 10*G ≤ d*G := Nat.mul_le_mul_right G (Nat.le_of_not_lt hge)
    omega
  refine ⟨Nat.le_of_lt_succ hd,?_,?_,hrest,?_⟩
  · intro c' hc'
    rcases List.mem_append.mp hc' with hc' | hc'
    · exact h.digits c' hc'
    · rw [List.mem_singleton.mp hc',isDigit_iff,hc]
      omega
  · rw [h.exact,number_snoc buffer hc]
    ring
  · rw [List.length_append,List.length_singleton,Nat.pow_succ,Nat.mul_assoc]
    exact h.leading

theorem Stage.first {k s : ℕ} (hle : 10^k ≤ T/2^s) (hlt : T/2^s < 10^(k+1)) : Stage T 1 (10^(k+1)*2^s) [] T where
  digits := nofun
  exact := by
    show T*1 = 0*_+T
    rw [Nat.mul_one,Nat.zero_mul,Nat.zero_add]
  lt := (Nat.div_lt_iff_lt_mul (Nat.two_pow_pos s)).mp hlt
  leading := by
    have hweight : 10^k*2^s ≤ T := (Nat.le_div_iff_mul_le (Nat.two_pow_pos s)).mp hle
    show 10^0*_ ≤ _
    rw [Nat.pow_zero,Nat.one_mul,Nat.mul_one,Nat.pow_succ,Nat.mul_comm (10^k) 10,Nat.mul_assoc]
    exact Nat.mul_le_mul_left 10 hweight

theorem Stage.scale (h : Stage T U G buffer rest) : Stage T (U*10) (10*G) buffer (rest*10) where
  digits := h.digits
  exact := by
    rw [← Nat.mul_assoc,h.exact]
    ring
  lt := by
    have := h.lt
    omega
  leading := by
    have := h.leading
    calc 10^buffer.length*(10*G) = 10^buffer.length*G*10 := by ring
      _ ≤ 10*(T*U)*10 := Nat.mul_le_mul_right 10 this
      _ = 10*(T*(U*10)) := by ring

/-- The digits of what lies up to `delta` below `T`, where `w` lies `wp` below it and `2^s` is one: nothing coarser
lies there, and what succeeds is settled. -/
structure Generated (T delta wp s : ℕ) (r : Digits) (U G rest : ℕ) : Prop where
  unit_pos : 0 < U
  scale : (G : ℚ) = U*(10^r.kappa*2^s)
  digits : ∀ c ∈ r.buffer, isDigit c = true
  exact : T*U = number r.buffer*G+rest
  leading : 10^r.buffer.length*G ≤ 10*(T*U)
  coarse : ∃ front prev, Stage T U (10*G) front prev ∧ delta*U ≤ prev
  settled : r.success = true → Settled (wp*U) (delta*U) U G rest

/-- What holds of the boundaries. -/
structure Bounds (delta wp : ℕ) : Prop where
  wp_pos : 1 ≤ wp
  wp_lt : wp+1 ≤ delta
  wide : 768 ≤ delta

theorem generated_of_stage {delta wp s : ℕ} (hb : Bounds delta wp) {wp_W Delta rest' ten_kappa ulp : UInt64}
    {kappa : ℤ} (hW : wp_W.toNat = wp*U) (hDelta : Delta.toNat = delta*U) (hrest' : rest'.toNat = rest)
    (hG : ten_kappa.toNat = G) (hU : ulp.toNat = U) (hpos : 0 < U) (hscale : (G : ℚ) = U*(10^kappa*2^s))
    (hstage : Stage T U (10*G) buffer (d*G+rest)) (hopen : delta*U ≤ d*G+rest) (hrest : rest < G)
    (hclosed : rest < delta*U) (hc : c.toNat = 48+d) :
    ∃ r rest, (roundWeed (buffer++[c]) wp_W Delta rest' ten_kappa ulp).map
      (fun (success,buffer) => (⟨success,buffer,kappa⟩ : Digits)) = some r ∧ Generated T delta wp s r U G rest := by
  obtain ⟨hd,hnext⟩ := hstage.snoc hrest hc
  have hup : 1*U ≤ wp*U := Nat.mul_le_mul_right U hb.wp_pos
  have hdown : (wp+1)*U ≤ delta*U := Nat.mul_le_mul_right U hb.wp_lt
  have hwide : 4*U ≤ delta*U := Nat.mul_le_mul_right U (Nat.le_trans (by decide) hb.wide)
  rw [Nat.succ_mul] at hdown
  obtain ⟨success,m,c',hrun,hm,hdigit,hsettled⟩ := roundWeed_eq buffer wp_W Delta rest' ten_kappa ulp hd hc
    (by omega) (by omega) (by omega) (by omega) (by omega) (by rw [hDelta,hrest',hG]; omega)
  rw [hW,hDelta,hrest',hG,hU] at hsettled
  refine ⟨⟨success,buffer++[c'],kappa⟩,rest+m*G,by rw [hrun]; rfl,hpos,hscale,?_,?_,?_,⟨buffer,_,hstage,hopen⟩,
    hsettled⟩
  · intro b hb'
    rcases List.mem_append.mp hb' with hb' | hb'
    · exact hstage.digits b hb'
    · rw [List.mem_singleton.mp hb',isDigit_iff,hdigit]
      omega
  · have hsplit : d*G = (d-m)*G+m*G := by rw [← Nat.add_mul,Nat.sub_add_cancel hm]
    rw [hstage.exact,number_snoc buffer hdigit,hsplit]
    ring
  · simpa using hnext.leading

theorem toNat_fract {one x : UInt64} {s : ℕ} (hone : one.toNat = 2^s) : (x &&& (one-1)).toNat = x.toNat%2^s := by
  have hpred : (one-1).toNat = 2^s-1 := by
    rw [toNat_sub_of_le (by rw [hone]; exact Nat.one_le_two_pow),hone]
    rfl
  rw [UInt64.toNat_and,hpred]
  exact Nat.and_two_pow_sub_one_eq_mod x.toNat s

theorem toNat_whole {shift x : UInt64} {s : ℕ} (hshift : shift.toNat = s) (hs : s < 64) :
    (x >>> shift).toNat = x.toNat/2^s := by
  rw [UInt64.toNat_shiftRight,hshift,Nat.mod_eq_of_lt hs]
  exact Nat.shiftRight_eq_div_pow x.toNat s

theorem toNat_digit {n : ℕ} {b : Byte} (hb : b.toNat = n%2^8) (hn : n ≤ 9) : (48+b).toNat = 48+n := by
  rw [UInt8.toNat_add,hb,Nat.mod_eq_of_lt (by omega : n < 2^8)]
  exact Nat.mod_eq_of_lt (by
    show 48+n < 2^8
    omega)

section Loops

variable {delta wp s : ℕ} {shift one wp_w : UInt64}

/-- Behind the point a digit is read off ten times the rest, and the units are made ten times smaller. -/
theorem fractionLoop_eq (hb : Bounds delta wp) (hshift : shift.toNat = s) (hs : s ≤ 60) (hone : one.toNat = 2^s)
    (hwp : wp_w.toNat = wp) {turns : ℕ} {p2 unit unsafe_interval : UInt64} {kappa : ℤ} (hunit : unit.toNat = U)
    (hinterval : unsafe_interval.toNat = delta*U) (hstage : Stage T U (2^s) buffer p2.toNat)
    (hopen : delta*U ≤ p2.toNat) (hscale : (1 : ℚ) = U*10^kappa) (hpos : 0 < U)
    (hturns : 2^s ≤ delta*U*10^turns) :
    ∃ r U G rest, fractionLoop shift one wp_w turns p2 unit unsafe_interval buffer kappa = some r ∧
      Generated T delta wp s r U G rest := by
  induction turns generalizing p2 unit unsafe_interval kappa buffer U with
  | zero =>
    have hlt := hstage.lt
    rw [Nat.pow_zero,Nat.mul_one] at hturns
    omega
  | succ turns ih =>
    have hlt := hstage.lt
    have hone_le : 2^s ≤ 2^60 := Nat.pow_le_pow_right (by decide) hs
    have hU : 1*U ≤ delta*U := Nat.mul_le_mul_right U (Nat.le_trans (by decide) hb.wide)
    have hW : wp*U ≤ delta*U := Nat.mul_le_mul_right U (Nat.le_of_lt hb.wp_lt)
    have hp2' : (p2*10).toNat = p2.toNat*10 := by
      rw [UInt64.toNat_mul]
      exact Nat.mod_eq_of_lt (by
        show p2.toNat*10 < 2^64
        omega)
    have hunit' : (unit*10).toNat = U*10 := by
      rw [UInt64.toNat_mul,hunit]
      exact Nat.mod_eq_of_lt (by
        show U*10 < 2^64
        omega)
    have hinterval' : (unsafe_interval*10).toNat = delta*(U*10) := by
      rw [UInt64.toNat_mul,hinterval,← Nat.mul_assoc]
      exact Nat.mod_eq_of_lt (by
        show delta*U*10 < 2^64
        omega)
    have hwp' : (wp_w*(unit*10)).toNat = wp*(U*10) := by
      rw [UInt64.toNat_mul,hunit',hwp,← Nat.mul_assoc]
      exact Nat.mod_eq_of_lt (by omega)
    have hsplit : p2.toNat*10 = p2.toNat*10/2^s*2^s+p2.toNat*10%2^s := (Nat.div_add_mod' _ _).symm
    have hrest : ((p2*10) &&& (one-1)).toNat = p2.toNat*10%2^s := by rw [toNat_fract hone,hp2']
    have hscaled := hstage.scale
    rw [hsplit] at hscaled
    have hshort : p2.toNat*10%2^s < 2^s := Nat.mod_lt _ (Nat.two_pow_pos s)
    have hdigit_le : p2.toNat*10/2^s ≤ 9 :=
      Nat.le_of_lt_succ ((Nat.div_lt_iff_lt_mul (Nat.two_pow_pos s)).mpr (by omega))
    have hc : (48+((p2*10) >>> shift).toUInt8).toNat = 48+p2.toNat*10/2^s := by
      refine toNat_digit ?_ hdigit_le
      rw [UInt64.toNat_toUInt8,toNat_whole hshift (by omega),hp2']
    have hopen' : delta*(U*10) ≤ p2.toNat*10/2^s*2^s+p2.toNat*10%2^s := by
      rw [← hsplit,← Nat.mul_assoc]
      exact Nat.mul_le_mul_right 10 hopen
    have hscale' : (1 : ℚ) = (U*10 : ℕ)*10^(kappa-1) := by
      rw [zpow_sub_one₀ (by norm_num),hscale]
      push_cast
      ring
    rw [fractionLoop]
    simp only
    split
    · rename_i hclosed
      rw [UInt64.lt_iff_toNat_lt,hrest,hinterval'] at hclosed
      obtain ⟨r,rest,hrun,hgenerated⟩ := generated_of_stage (s:=s) hb hwp' hinterval' hrest hone hunit'
        (by omega) (by
          push_cast
          push_cast at hscale'
          rw [← mul_assoc,← hscale',one_mul]) hscaled hopen' hshort hclosed hc
      exact ⟨r,_,_,rest,hrun,hgenerated⟩
    · rename_i hclosed
      rw [UInt64.lt_iff_toNat_lt,hrest,hinterval',Nat.not_lt] at hclosed
      refine ih hunit' hinterval' ?_ (by rw [hrest]; exact hclosed) hscale' (by omega) ?_
      · rw [hrest]
        exact (hscaled.snoc hshort hc).2
      · rw [← Nat.mul_assoc,Nat.mul_assoc (delta*U),← Nat.pow_succ']
        exact hturns

theorem toNat_shiftLeft_of_lt {shift x : UInt64} {s : ℕ} (hshift : shift.toNat = s) (hs : s < 64)
    (hx : x.toNat*2^s < 2^64) : (x <<< shift).toNat = x.toNat*2^s := by
  rw [UInt64.toNat_shiftLeft,hshift,Nat.mod_eq_of_lt hs,Nat.shiftLeft_eq,Nat.mod_eq_of_lt hx]

/-- Before the point a digit is the multiple of the power of ten in the rest. -/
theorem integralLoop_eq (hb : Bounds delta wp) (hshift : shift.toNat = s) (hs : s ≤ 60) (hone : one.toNat = 2^s)
    (hwp : wp_w.toNat = wp) (hT : T < 2^64) {p2 unsafe_interval : UInt64} (hp2 : p2.toNat < 2^s)
    (hinterval : unsafe_interval.toNat = delta) {kappa : ℕ} {p1 div : UInt32}
    (hdiv : 0 < kappa → div.toNat = 10^(kappa-1))
    (hstage : Stage T 1 (10^kappa*2^s) buffer (p1.toNat*2^s+p2.toNat)) (hopen : delta ≤ p1.toNat*2^s+p2.toNat) :
    ∃ r U G rest, integralLoop shift one wp_w p2 unsafe_interval kappa p1 div buffer = some r ∧
      Generated T delta wp s r U G rest := by
  have hs_pos := Nat.two_pow_pos s
  induction kappa generalizing p1 div buffer with
  | zero =>
    have hlt := hstage.lt
    rw [Nat.pow_zero,Nat.one_mul] at hlt hstage
    have hp1 : p1.toNat = 0 := by
      by_contra hne
      have : 1*2^s ≤ p1.toNat*2^s := Nat.mul_le_mul_right _ (Nat.one_le_iff_ne_zero.mpr hne)
      omega
    rw [hp1,Nat.zero_mul,Nat.zero_add] at hstage hopen
    have hs_le : 2^s ≤ 2^60 := Nat.pow_le_pow_right (by decide) hs
    have hwide := hb.wide
    exact fractionLoop_eq hb hshift hs hone hwp (U:=1) rfl (by rw [hinterval,Nat.mul_one]) hstage
      (by rw [Nat.mul_one]; exact hopen) (by norm_num) Nat.one_pos (by omega)
  | succ kappa ih =>
    have hdiv' : div.toNat = 10^kappa := hdiv (Nat.succ_pos kappa)
    have hten : 0 < 10^kappa := Nat.pow_pos (by decide)
    have hle : p1.toNat*2^s+p2.toNat ≤ T := by
      have hexact := hstage.exact
      omega
    have hG : 10^kappa*2^s ≤ T := by
      have hleading := hstage.leading
      have hlen : 1*(10^(kappa+1)*2^s) ≤ 10^buffer.length*(10^(kappa+1)*2^s) :=
        Nat.mul_le_mul_right _ (Nat.one_le_pow _ _ (by decide))
      rw [Nat.pow_succ,Nat.mul_comm (10^kappa) 10,Nat.mul_assoc 10] at hlen hleading
      omega
    have hsplit : p1.toNat*2^s+p2.toNat =
        p1.toNat/10^kappa*(10^kappa*2^s)+(p1.toNat%10^kappa*2^s+p2.toNat) := by
      conv_lhs => rw [← Nat.div_add_mod' p1.toNat (10^kappa)]
      ring
    have hshort : p1.toNat%10^kappa*2^s+p2.toNat < 10^kappa*2^s := by
      have hmod : (p1.toNat%10^kappa+1)*2^s ≤ 10^kappa*2^s := Nat.mul_le_mul_right _ (Nat.mod_lt _ hten)
      rw [Nat.add_mul] at hmod
      omega
    have hrest : (((p1%div).toUInt64 <<< shift)+p2).toNat = p1.toNat%10^kappa*2^s+p2.toNat := by
      have hp1 : (p1%div).toUInt64.toNat = p1.toNat%10^kappa := by
        rw [UInt32.toNat_toUInt64,UInt32.toNat_mod,hdiv']
      rw [UInt64.toNat_add,toNat_shiftLeft_of_lt hshift (by omega) (by rw [hp1]; omega),hp1]
      exact Nat.mod_eq_of_lt (by omega)
    have hweight : (div.toUInt64 <<< shift).toNat = 10^kappa*2^s := by
      rw [toNat_shiftLeft_of_lt hshift (by omega) (by rw [UInt32.toNat_toUInt64,hdiv']; omega),
        UInt32.toNat_toUInt64,hdiv']
    rw [Nat.pow_succ,Nat.mul_comm (10^kappa) 10,Nat.mul_assoc 10,hsplit] at hstage
    rw [hsplit] at hopen
    have hdigit_le : p1.toNat/10^kappa ≤ 9 := by
      have hlt := hstage.lt
      by_contra hge
      have : 10*(10^kappa*2^s) ≤ p1.toNat/10^kappa*(10^kappa*2^s) := Nat.mul_le_mul_right _ (by omega)
      omega
    have hc : (48+(p1/div).toUInt8).toNat = 48+p1.toNat/10^kappa := by
      refine toNat_digit ?_ hdigit_le
      rw [UInt32.toNat_toUInt8,UInt32.toNat_div,hdiv']
    rw [integralLoop]
    simp only
    split
    · rename_i hclosed
      rw [UInt64.lt_iff_toNat_lt,hrest,hinterval] at hclosed
      obtain ⟨r,rest,hrun,hgenerated⟩ := generated_of_stage (s:=s) (U:=1) hb
        (by rw [hwp,Nat.mul_one]) (by rw [hinterval,Nat.mul_one]) hrest hweight
        (show (1 : UInt64).toNat = 1 from rfl) Nat.one_pos
        (by push_cast; rw [one_mul,zpow_natCast]) hstage (by rw [Nat.mul_one]; exact hopen) hshort
        (by rw [Nat.mul_one]; exact hclosed) hc
      exact ⟨r,_,_,rest,hrun,hgenerated⟩
    · rename_i hclosed
      rw [UInt64.lt_iff_toNat_lt,hrest,hinterval,Nat.not_lt] at hclosed
      refine ih (fun hkappa => ?_) ?_ ?_
      · obtain ⟨k,rfl⟩ : ∃ k, kappa = k+1 := ⟨kappa-1,by omega⟩
        rw [UInt32.toNat_div,hdiv',Nat.pow_succ]
        exact Nat.mul_div_cancel _ (by decide)
      · rw [UInt32.toNat_mod,hdiv']
        exact (hstage.snoc hshort hc).2
      · rw [UInt32.toNat_mod,hdiv']
        exact hclosed

end Loops

/-! ## The first digit -/

theorem pow10Cache_succ : ∀ k < 10, pow10Cache[k+1]? = some (10^k : ℕ).toUInt32 ∧ (10^k : ℕ) < 2^32 := by decide

theorem toNat_pow10 {k : ℕ} (hk : k < 10) : ((10^k : ℕ).toUInt32).toNat = 10^k := by
  rw [UInt32.toNat_ofNat']
  exact Nat.mod_eq_of_lt (pow10Cache_succ k hk).2

theorem largestPow10_of_guess {n : UInt32} {n_bits : ℤ} {g : ℕ} (hg : g < 9) (hguess : (n_bits+1)*1233/2^12 = g+1)
    (hn : 10^g ≤ n.toNat) (hn' : n.toNat < 10^(g+2)) :
    ∃ (k : ℕ) (div : UInt32), largestPow10 n n_bits = some ((k : ℤ)+1,div) ∧ div.toNat = 10^k ∧ 10^k ≤ n.toNat ∧
      n.toNat < 10^(k+1) := by
  have hat : ((g : ℤ)+1+1).toNat = g+1+1 := by omega
  have hat' : ((g : ℤ)+1+1-1).toNat = g+1 := by omega
  have hpower := (pow10Cache_succ (g+1) (by omega)).1
  have hpower' := toNat_pow10 (show g+1 < 10 by omega)
  rw [largestPow10,hguess]
  simp only [hat,hpower,Option.bind_some]
  split
  · rename_i hlt
    rw [UInt32.lt_iff_toNat_lt,hpower'] at hlt
    refine ⟨g,_,?_,toNat_pow10 (Nat.lt_succ_of_lt hg),hn,hlt⟩
    rw [hat',(pow10Cache_succ g (by omega)).1,Option.map_some,Int.add_sub_cancel]
  · rename_i hlt
    rw [UInt32.lt_iff_toNat_lt,hpower',Nat.not_lt] at hlt
    refine ⟨g+1,_,?_,hpower',hlt,hn'⟩
    rw [hat,hpower,Option.map_some]
    rfl

theorem largestPow10_eq {n : UInt32} {bits : ℕ} (hfour : 4 ≤ bits) (hthirty : bits ≤ 30) (hn : 2^(bits-2) ≤ n.toNat)
    (hn' : n.toNat < 2^bits) :
    ∃ (k : ℕ) (div : UInt32), largestPow10 n bits = some ((k : ℤ)+1,div) ∧ div.toNat = 10^k ∧ 10^k ≤ n.toNat ∧
      n.toNat < 10^(k+1) := by
  refine largestPow10_of_guess (g:=(bits+1)*1233/2^12-1) (by omega) (by omega) ?_ ?_
  · interval_cases bits <;> exact Nat.le_trans (by decide) hn
  · interval_cases bits <;> exact Nat.lt_of_lt_of_le hn' (by decide)

/-- The digits are those of the number above `high`, between the numbers around the boundaries. -/
theorem digitGen_eq {low w high : DiyFp} {s : ℕ} (hlow : 1 ≤ low.f.toNat) (hw : low.f.toNat ≤ w.f.toNat)
    (hw' : w.f.toNat ≤ high.f.toNat) (hwide : low.f.toNat+766 ≤ high.f.toNat) (hlarge : 2^62 ≤ high.f.toNat)
    (hfits : high.f.toNat+1 < 2^64) (he : w.e = -s) (hs : 34 ≤ s) (hs' : s ≤ 60) :
    ∃ r U G rest, digitGen low w high = some r ∧
      Generated (high.f.toNat+1) (high.f.toNat-low.f.toNat+2) (high.f.toNat+1-w.f.toNat) s r U G rest := by
  have hb : Bounds (high.f.toNat-low.f.toNat+2) (high.f.toNat+1-w.f.toNat) := ⟨by omega,by omega,by omega⟩
  have hshift : ((-w.e).toNat.toUInt64).toNat = s := by
    rw [he,Int.neg_neg,Int.toNat_natCast]
    exact Nat.mod_eq_of_lt (show s < 2^64 by omega)
  have hone : ((1 : UInt64) <<< (-w.e).toNat.toUInt64).toNat = 2^s := by
    have hpow : 2^s ≤ 2^60 := Nat.pow_le_pow_right (by decide) hs'
    rw [toNat_shiftLeft_of_lt hshift (by omega) (by rw [UInt64.toNat_one]; omega),UInt64.toNat_one,Nat.one_mul]
  have hT : (high.f+1).toNat = high.f.toNat+1 := by
    rw [UInt64.toNat_add]
    exact Nat.mod_eq_of_lt hfits
  have hlow' : (low.f-1).toNat = low.f.toNat-1 := toNat_sub_of_le hlow
  have hinterval : (high.f+1-(low.f-1)).toNat = high.f.toNat-low.f.toNat+2 := by
    rw [toNat_sub_of_le (by rw [hT,hlow']; omega),hT,hlow']
    omega
  have hwp : (high.f+1-w.f).toNat = high.f.toNat+1-w.f.toNat := by rw [toNat_sub_of_le (by rw [hT]; omega),hT]
  have hp1 : ((high.f+1) >>> (-w.e).toNat.toUInt64).toUInt32.toNat = (high.f.toNat+1)/2^s := by
    rw [UInt64.toNat_toUInt32,toNat_whole hshift (by omega),hT]
    refine Nat.mod_eq_of_lt ((Nat.div_lt_iff_lt_mul (Nat.two_pow_pos s)).mpr (Nat.lt_of_lt_of_le hfits ?_))
    rw [← Nat.pow_add]
    exact Nat.pow_le_pow_right (by decide) (by omega)
  have hp2 : ((high.f+1) &&& ((1 : UInt64) <<< (-w.e).toNat.toUInt64-1)).toNat = (high.f.toNat+1)%2^s := by
    rw [toNat_fract hone,hT]
  have hwhole := Nat.div_add_mod' (high.f.toNat+1) (2^s)
  have hmod : (high.f.toNat+1)%2^s < 2^s := Nat.mod_lt _ (Nat.two_pow_pos s)
  have hlower : 2^(64-s-2) ≤ (high.f.toNat+1)/2^s := by
    rw [Nat.le_div_iff_mul_le (Nat.two_pow_pos s),← Nat.pow_add,show 64-s-2+s = 62 by omega]
    omega
  have hupper : (high.f.toNat+1)/2^s < 2^(64-s) := by
    rw [Nat.div_lt_iff_lt_mul (Nat.two_pow_pos s),← Nat.pow_add,Nat.sub_add_cancel (by omega)]
    exact hfits
  rw [← hp1] at hlower hupper
  obtain ⟨k,div,hlargest,hdiv,hle,hlt⟩ := largestPow10_eq (by omega) (by omega) hlower hupper
  have hbits : (64 : ℤ)+w.e = (64-s : ℕ) := by omega
  rw [digitGen]
  simp only [DiyFp.minus,hbits,hlargest,Option.bind_some]
  refine integralLoop_eq hb hshift hs' hone hwp hfits (by rw [hp2]; exact hmod) hinterval (fun _ => hdiv) ?_ ?_
  · rw [hp1] at hle hlt ⊢
    rw [hp2,hwhole]
    exact Stage.first hle hlt
  · rw [hp1,hp2,hwhole]
    omega

theorem Generated.length_le {delta wp s : ℕ} {r : Digits} (h : Generated T delta wp s r U G rest) (hT : T ≤ 2^64)
    (hwide : 768 ≤ delta) : r.buffer.length ≤ 18 := by
  obtain ⟨front,prev,hstage,hopen⟩ := h.coarse
  have hlt := hstage.lt
  have hwide' : 768*U ≤ delta*U := Nat.mul_le_mul_right U hwide
  have hpos := h.unit_pos
  have hbound : 10^r.buffer.length*768 ≤ 100*2^64 := by
    refine Nat.le_of_mul_le_mul_right ?_ hpos
    calc 10^r.buffer.length*768*U = 10^r.buffer.length*(768*U) := Nat.mul_assoc _ _ _
      _ ≤ 10^r.buffer.length*(10*G) := Nat.mul_le_mul_left _ (by omega)
      _ = 10*(10^r.buffer.length*G) := by ring
      _ ≤ 10*(10*(T*U)) := Nat.mul_le_mul_left 10 h.leading
      _ = 100*(T*U) := by ring
      _ ≤ 100*(2^64*U) := Nat.mul_le_mul_left 100 (Nat.mul_le_mul_right U hT)
      _ = 100*2^64*U := (Nat.mul_assoc _ _ _).symm
  by_contra hlong
  have hpow : 10^19 ≤ 10^r.buffer.length := Nat.pow_le_pow_right (by decide) (by omega)
  omega

end Grisu
end GgLib
