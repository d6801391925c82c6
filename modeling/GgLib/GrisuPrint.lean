import GgLib.Grisu
import GgLib.Logger
import Mathlib.Data.Nat.Log

/-! `grisu3_print_double`: the digits of a double with a point, with zeros or with an exponent. -/
namespace GgLib
namespace Grisu
open DecimalText (number number_snoc isDigit isDigit_iff)
open DiyFp (expField fractField)

/-- The first loop of `grisu3_i_to_str`: the digits as they are written, the last one first. -/
def digitsLoop (val : ℕ) : List Byte :=
  let ni := val/10
  let digit := val-ni*10
  if ni = 0 then [48+digit.toUInt8] else (48+digit.toUInt8)::digitsLoop ni
termination_by val
decreasing_by omega

/-- One turn of its second loop. -/
def swap (i : ℕ) (str : List Byte) : List Byte :=
  (str.set i (str.getD (str.length-1-i) 0)).set (str.length-1-i) (str.getD i 0)

def iToStr (val : ℤ) : List Byte :=
  let str := digitsLoop val.natAbs
  (if val < 0 then text "-" else [])++(List.range (str.length/2)).foldl (fun str i => swap i str) str

/-- The digits of `grisu3_print_nan` from the lowest, as they are stored from the end. -/
def hexLoop : ℕ → ℕ → List Byte → List Byte
  | 0, _, dst => dst
  | i+1, v, dst => hexLoop i (v/2^4) ((text "0123456789ABCDEF").getD (v%2^4) 0::dst)

def printNan (v : Double) : List Byte := text "NaN("++hexLoop 16 v.toNat []++text ")"

/-- `s2[len++] = 'e'` and the exponent behind it. -/
def exponentText (d_exp : ℤ) : List Byte := text "e"++iToStr d_exp

/-- Where `grisu3_print_double` puts the point, zeros or an exponent. -/
def layout (s2 : List Byte) (d_exp : ℤ) : List Byte :=
  let len : ℤ := s2.length
  let decimals := min (-d_exp) (max 1 (len-1))
  if d_exp < 0 ∧ len+d_exp > -3 ∧ len ≤ -d_exp then text "0."++List.replicate (-d_exp-len).toNat 48++s2
  else if d_exp < 0 ∧ len > 1 then
    let point := (len-decimals).toNat
    let s2 := s2.take point++text "."++s2.drop point
    let d_exp := d_exp+decimals
    if d_exp ≠ 0 then s2++exponentText d_exp else s2
  else if d_exp < 0 ∨ d_exp > 2 then s2++exponentText d_exp
  else s2++List.replicate d_exp.toNat 48

def minus (u64 : Double) : List Byte := if u64 &&& D64_SIGN ≠ 0 then text "-" else []

def magnitude (u64 : Double) : Double := if u64 &&& D64_SIGN ≠ 0 then u64 ^^^ D64_SIGN else u64

/-- `grisu3_print_double`, with what `sprintf` writes for `"%.17g"` where `grisu3` gives up. -/
def printDouble (sprintf : Double → List Byte) (u64 : Double) : Option (List Byte) :=
  if u64 <<< 1 > 0xFFE0000000000000 then some (printNan u64)
  else if magnitude u64 = 0 then some (minus u64++text "0")
  else if magnitude u64 = D64_EXP_MASK then some (minus u64++text "inf")
  else (grisu3 (magnitude u64)).map fun (r,d_exp) =>
    minus u64++(if r.success then layout r.buffer d_exp else sprintf (magnitude u64))

/-! ## The exponent -/

theorem digitsLoop_of_lt {val : ℕ} (h : val < 10) : digitsLoop val = [48+val.toUInt8] := by
  rw [digitsLoop]
  simp only [Nat.div_eq_of_lt h,Nat.zero_mul,Nat.sub_zero,if_true]

theorem digitsLoop_of_le {val : ℕ} (h : 10 ≤ val) :
    digitsLoop val = (48+(val%10).toUInt8)::digitsLoop (val/10) := by
  have hne : val/10 ≠ 0 := by omega
  rw [digitsLoop]
  simp only [if_neg hne]
  rw [Nat.mod_eq_sub_div_mul]

theorem toNat_digit_of_lt {d : ℕ} (h : d < 10) : (48+d.toUInt8 : Byte).toNat = 48+d :=
  toNat_digit (Nat.mod_eq_of_lt (by omega) ▸ rfl) (Nat.le_of_lt_succ h)

theorem digitsLoop_spec (val : ℕ) :
    digitsLoop val ≠ [] ∧ (∀ c ∈ digitsLoop val, isDigit c = true) ∧ number (digitsLoop val).reverse = val := by
  induction val using Nat.strongRecOn with
  | ind val ih =>
    rcases Nat.lt_or_ge val 10 with hlt | hge
    · have hdigit := toNat_digit_of_lt hlt
      rw [digitsLoop_of_lt hlt]
      refine ⟨List.cons_ne_nil _ _,fun c hc => ?_,?_⟩
      · rw [List.mem_singleton.mp hc,isDigit_iff,hdigit]
        omega
      · exact (number_snoc [] hdigit).trans (by simp [number,PositionalNumeral.value])
    · obtain ⟨-,hdigits,hnumber⟩ := ih (val/10) (by omega)
      have hlast : val%10 < 10 := Nat.mod_lt _ (by decide)
      have hdigit := toNat_digit_of_lt hlast
      rw [digitsLoop_of_le hge]
      refine ⟨List.cons_ne_nil _ _,fun c hc => ?_,?_⟩
      · rcases List.mem_cons.mp hc with rfl | hc
        · rw [isDigit_iff,hdigit]
          omega
        · exact hdigits c hc
      · rw [List.reverse_cons,number_snoc _ hdigit,hnumber]
        omega

theorem length_digitsLoop_le (k : ℕ) {val : ℕ} (h : val < 10^(k+1)) : (digitsLoop val).length ≤ k+1 := by
  induction k generalizing val with
  | zero =>
    rw [digitsLoop_of_lt (by simpa using h)]
    exact Nat.le_refl 1
  | succ k ih =>
    rcases Nat.lt_or_ge val 10 with hlt | hge
    · rw [digitsLoop_of_lt hlt]
      exact Nat.le_add_left 1 _
    · rw [digitsLoop_of_le hge,List.length_cons]
      refine Nat.succ_le_succ (ih ?_)
      rw [Nat.div_lt_iff_lt_mul (by decide),← Nat.pow_succ]
      exact h

theorem getElem?_swap {str : List Byte} {i j : ℕ} (hi : i < str.length/2) :
    (swap i str)[j]? = str[if j = i ∨ j = str.length-1-i then str.length-1-j else j]? := by
  have hget (k : ℕ) (hk : k < str.length) : some (str.getD k 0) = str[k]? := by
    rw [List.getD_eq_getElem?_getD,List.getElem?_eq_getElem hk,Option.getD_some]
  rw [swap,List.getElem?_set,List.getElem?_set,List.length_set]
  by_cases hlast : str.length-1-i = j
  · rw [if_pos hlast,if_pos (by omega),if_pos (.inr hlast.symm),hget i (by omega)]
    congr 1
    omega
  · rw [if_neg hlast]
    by_cases hfirst : i = j
    · rw [if_pos hfirst,if_pos (by omega),if_pos (.inl hfirst.symm),hget _ (by omega),hfirst]
    · rw [if_neg hfirst,if_neg (by omega)]

theorem length_swaps (str : List Byte) (k : ℕ) :
    ((List.range k).foldl (fun str i => swap i str) str).length = str.length := by
  induction k with
  | zero => rfl
  | succ k ih =>
    rw [List.range_succ,List.foldl_append]
    simpa [swap] using ih

theorem getElem?_swaps (str : List Byte) {k j : ℕ} (hk : k ≤ str.length/2) (hj : j < str.length) :
    ((List.range k).foldl (fun str i => swap i str) str)[j]? =
      str[if j < k ∨ str.length-k ≤ j then str.length-1-j else j]? := by
  induction k generalizing j with
  | zero =>
    rw [if_neg (by omega)]
    rfl
  | succ k ih =>
    rw [List.range_succ,List.foldl_append,List.foldl_cons,List.foldl_nil,getElem?_swap (by rw [length_swaps]; omega),
      length_swaps]
    split
    · rw [ih (by omega) (by omega),if_neg (by omega),if_pos (by omega)]
    · rw [ih (by omega) hj]
      congr 1
      split <;> split <;> omega

theorem swaps_eq_reverse (str : List Byte) :
    (List.range (str.length/2)).foldl (fun str i => swap i str) str = str.reverse := by
  refine List.ext_getElem? fun j => ?_
  rcases Nat.lt_or_ge j str.length with hj | hj
  · rw [getElem?_swaps str (Nat.le_refl _) hj,List.getElem?_reverse hj]
    split
    · rfl
    · congr 1
      omega
  · rw [List.getElem?_eq_none (by rw [length_swaps]; exact hj),
      List.getElem?_eq_none (by rw [List.length_reverse]; exact hj)]

theorem iToStr_eq (val : ℤ) :
    iToStr val = (if val < 0 then text "-" else [])++(digitsLoop val.natAbs).reverse := by
  rw [iToStr,swaps_eq_reverse]

theorem exponent_exponentText (d_exp : ℤ) : DecimalText.exponent (exponentText d_exp) = some d_exp := by
  obtain ⟨hne,hdigits,hnumber⟩ := digitsLoop_spec d_exp.natAbs
  have hne' : (digitsLoop d_exp.natAbs).reverse ≠ [] := mt List.reverse_eq_nil_iff.mp hne
  have hall : (digitsLoop d_exp.natAbs).reverse.all isDigit = true := by
    rw [List.all_reverse]
    exact List.all_eq_true.mpr hdigits
  rw [exponentText,iToStr_eq]
  generalize (digitsLoop d_exp.natAbs).reverse = digits at *
  by_cases hneg : d_exp < 0
  · rw [if_pos hneg]
    show (if digits ≠ [] ∧ digits.all isDigit then some ((-1 : ℤ)*number digits) else none) = _
    rw [if_pos ⟨hne',hall⟩,hnumber]
    congr 1
    omega
  · rw [if_neg hneg,List.nil_append]
    obtain ⟨c,rest,rfl⟩ := List.exists_cons_of_ne_nil hne'
    have hminus := DecimalText.splitMinus_of_digit (List.all_eq_true.mp hall c List.mem_cons_self) rest
    show DecimalText.exponent (101::c::rest) = _
    simp only [DecimalText.exponent,hminus,if_pos (And.intro hne' hall),hnumber]
    congr 1
    omega

/-! ## The text of a decimal -/

theorem isDigit_of_mem_zeros {k : ℕ} : ∀ c ∈ List.replicate k (48 : Byte), isDigit c = true := by
  intro c hc
  rw [List.eq_of_mem_replicate hc]
  rfl

section Layout

variable {s2 : List Byte} {d_exp : ℤ}

theorem read_zeros (hdigits : ∀ c ∈ s2, isDigit c = true) {k : ℕ} (hk : (k : ℤ)+s2.length = -d_exp) :
    DecimalText.read (text "0."++List.replicate k 48++s2) = some (number s2*(10 : ℚ)^d_exp) := by
  have hfraction : ∀ c ∈ List.replicate k (48 : Byte)++s2, isDigit c = true := by
    intro c hc
    rcases List.mem_append.mp hc with hc | hc
    · exact isDigit_of_mem_zeros c hc
    · exact hdigits c hc
  have hread := DecimalText.read_fraction (by decide : List.replicate 1 (48 : Byte) ≠ []) isDigit_of_mem_zeros hfraction
    (show DecimalText.exponent [] = some 0 from rfl)
  rw [List.append_nil,List.length_append,List.length_replicate,← List.append_assoc,← List.replicate_add,
    DecimalText.number_zeros] at hread
  have he : (0 : ℤ)-(k+s2.length : ℕ) = d_exp := by omega
  rw [he] at hread
  rw [← hread,List.append_assoc]
  rfl

theorem read_point (hdigits : ∀ c ∈ s2, isDigit c = true) {point : ℕ} (hpos : 0 < point) (hlt : point < s2.length)
    {tail : List Byte} {e : ℤ} (htail : DecimalText.exponent tail = some e) (he : e-(s2.length-point) = d_exp) :
    DecimalText.read (s2.take point++text "."++s2.drop point++tail) = some (number s2*(10 : ℚ)^d_exp) := by
  have hwhole : s2.take point ≠ [] := by
    rw [← List.length_pos_iff,List.length_take]
    omega
  have hfraction : ∀ c ∈ s2.drop point, isDigit c = true := fun c hc => hdigits c (List.mem_of_mem_drop hc)
  have hread := DecimalText.read_fraction hwhole (fun c hc => hdigits c (List.mem_of_mem_take hc)) hfraction htail
  rw [List.take_append_drop,List.length_drop,Nat.cast_sub hlt.le,he] at hread
  rw [← hread,List.append_assoc,List.append_assoc]
  rfl

theorem read_layout (hne : s2 ≠ []) (hdigits : ∀ c ∈ s2, isDigit c = true) (d_exp : ℤ) :
    DecimalText.read (layout s2 d_exp) = some (number s2*(10 : ℚ)^d_exp) := by
  have hlen : 0 < s2.length := List.length_pos_iff.mpr hne
  unfold layout
  simp only
  split
  · exact read_zeros hdigits (by omega)
  · split
    · split
      · exact read_point hdigits (by omega) (by omega) (exponent_exponentText _) (by omega)
      · have hpoint : 0 < (s2.length-min (-d_exp) (max 1 (s2.length-1)) : ℤ).toNat := by omega
        have he : (0 : ℤ)-(s2.length-(s2.length-min (-d_exp) (max 1 (s2.length-1)) : ℤ).toNat) = d_exp := by omega
        have hread := read_point hdigits hpoint (by omega) (show DecimalText.exponent [] = some 0 from rfl) he
        rwa [List.append_nil] at hread
    · split
      · exact DecimalText.read_whole hne hdigits (exponent_exponentText d_exp)
      · have hall : ∀ c ∈ s2++List.replicate d_exp.toNat 48, isDigit c = true := by
          intro c hc
          rcases List.mem_append.mp hc with hc | hc
          · exact hdigits c hc
          · exact isDigit_of_mem_zeros c hc
        have hread := DecimalText.read_whole (List.append_ne_nil_of_left_ne_nil hne _) hall
          (show DecimalText.exponent [] = some 0 from rfl)
        rw [List.append_nil,DecimalText.number_append_zeros,zpow_zero,mul_one] at hread
        rw [hread]
        congr 1
        push_cast
        rw [← zpow_natCast,Int.toNat_of_nonneg (by omega)]

theorem length_exponentText_le {e : ℤ} (h : e.natAbs < 1000) : (exponentText e).length ≤ 5 := by
  have hdigits := length_digitsLoop_le 2 h
  have hletter : (text "e").length = 1 := rfl
  have hminus : (text "-").length = 1 := rfl
  rw [exponentText,iToStr_eq,List.length_append,List.length_append,List.length_reverse,hletter]
  split
  · omega
  · rw [List.length_nil]
    omega

theorem length_layout_le (hlen : s2.length ≤ 18) (hexp : d_exp.natAbs < 1000) : (layout s2 d_exp).length ≤ 24 := by
  have hzero : (text "0.").length = 2 := rfl
  have hpoint : (text ".").length = 1 := rfl
  unfold layout
  simp only
  split
  · simp only [List.length_append,List.length_replicate,hzero]
    omega
  · split
    · split
      · have he := length_exponentText_le (e:=d_exp+min (-d_exp) (max 1 (s2.length-1))) (by omega)
        simp only [List.length_append,List.length_take,List.length_drop,hpoint]
        omega
      · simp only [List.length_append,List.length_take,List.length_drop,hpoint]
        omega
    · split
      · have he := length_exponentText_le hexp
        rw [List.length_append]
        omega
      · rw [List.length_append,List.length_replicate]
        omega

theorem head_append_digit {front : List Byte} (hne : front ≠ []) (hfront : ∀ c ∈ front, isDigit c = true)
    (t : List Byte) : ∃ c rest, front++t = c::rest ∧ isDigit c = true := by
  obtain ⟨c,rest,rfl⟩ := List.exists_cons_of_ne_nil hne
  exact ⟨c,rest++t,rfl,hfront c List.mem_cons_self⟩

theorem head_layout (hne : s2 ≠ []) (hdigits : ∀ c ∈ s2, isDigit c = true) :
    ∃ c rest, layout s2 d_exp = c::rest ∧ isDigit c = true := by
  have hlen : 0 < s2.length := List.length_pos_iff.mpr hne
  unfold layout
  simp only
  split
  · exact head_append_digit (List.cons_ne_nil (48 : Byte) []) (isDigit_of_mem_zeros (k:=1)) _
  · split
    · have hpoint : 0 < (s2.length-min (-d_exp) (max 1 (s2.length-1)) : ℤ).toNat := by omega
      generalize (s2.length-min (-d_exp) (max 1 (s2.length-1)) : ℤ).toNat = point at *
      have hwhole : s2.take point ≠ [] := by
        rw [← List.length_pos_iff,List.length_take]
        omega
      have hfront : ∀ c ∈ s2.take point, isDigit c = true := fun c hc => hdigits c (List.mem_of_mem_take hc)
      split
      · rw [List.append_assoc,List.append_assoc]
        exact head_append_digit hwhole hfront _
      · rw [List.append_assoc]
        exact head_append_digit hwhole hfront _
    · split
      · exact head_append_digit hne hdigits _
      · exact head_append_digit hne hdigits _

end Layout

/-! ## The double -/

section Print

variable {u v : Double}

theorem sign_eq_zero_iff (v : Double) : v &&& D64_SIGN = 0 ↔ v.toNat < 2^63 :=
  DiyFp.and_high_eq_zero (by decide) (show D64_SIGN.toNat = (2^1-1)*2^(64-1) by decide) v

theorem toNat_magnitude (v : Double) : (magnitude v).toNat = v.toNat%2^63 := by
  have hlt := v.toNat_lt
  rw [magnitude]
  simp only [ne_eq,sign_eq_zero_iff,ite_not]
  split
  · rename_i h
    exact (Nat.mod_eq_of_lt h).symm
  · have hsign : D64_SIGN.toNat = 2^63 := rfl
    have hhigh : (v.toNat ^^^ 2^63)/2^63 = 0 := by
      rw [Nat.xor_div_two_pow,show v.toNat/2^63 = 1 by omega]
      rfl
    have hlow : (v.toNat ^^^ 2^63)%2^63 = v.toNat%2^63 := by
      rw [Nat.xor_mod_two_pow,Nat.mod_self,Nat.xor_zero]
    rw [UInt64.toNat_xor,hsign]
    omega

theorem toRat_magnitude (v : Double) : toRat v = (if v.toNat < 2^63 then 1 else -1)*toRat (magnitude v) := by
  have hm := toNat_magnitude v
  have hexp : expField (magnitude v) = expField v := by
    rw [expField,expField,hm]
    omega
  have hfract : fractField (magnitude v) = fractField v := by
    rw [fractField,fractField,hm]
    omega
  rw [toRat,toRat,if_pos (show (magnitude v).toNat < 2^63 by omega),one_mul,significand,significand,exponent,exponent,
    hexp,hfract]

theorem exists_neg (u : Double) : ∃ u', toRat u' = -toRat u := by
  have hlt := u.toNat_lt
  have hneg : (u+D64_SIGN).toNat = (u.toNat+2^63)%2^64 := by
    rw [UInt64.toNat_add]
    rfl
  have hsame : magnitude (u+D64_SIGN) = magnitude u := by
    rw [← UInt64.toNat_inj,toNat_magnitude,toNat_magnitude,hneg]
    omega
  refine ⟨u+D64_SIGN,?_⟩
  rw [toRat_magnitude u,toRat_magnitude,hsame,hneg]
  by_cases hu : u.toNat < 2^63
  · rw [if_pos hu,if_neg (by omega)]
    ring
  · rw [if_neg hu,if_pos (by omega)]
    ring

theorem isNan_iff (v : Double) : v <<< 1 > 0xFFE0000000000000 ↔ 2047*2^52 < v.toNat%2^63 := by
  have hshift : (v <<< 1).toNat = v.toNat*2%2^64 := by
    rw [UInt64.toNat_shiftLeft,Nat.shiftLeft_eq]
    rfl
  rw [gt_iff_lt,UInt64.lt_iff_toNat_lt,hshift]
  show 0xFFE0000000000000 < _ ↔ _
  omega

theorem printDouble_finite (sprintf : Double → List Byte) (hv : IsFinite v) :
    (magnitude v = 0 ∧ printDouble sprintf v = some (minus v++text "0")) ∨
      (Positive (magnitude v) ∧ printDouble sprintf v = (grisu3 (magnitude v)).map fun (r,d_exp) =>
        minus v++(if r.success then layout r.buffer d_exp else sprintf (magnitude v))) := by
  have hm := toNat_magnitude v
  have hlt : v.toNat%2^63 < 2047*2^52 := by
    rw [IsFinite,expField] at hv
    omega
  rw [printDouble,if_neg (by rw [isNan_iff]; omega)]
  by_cases hzero : magnitude v = 0
  · rw [if_pos hzero]
    exact .inl ⟨hzero,rfl⟩
  · have hinf : magnitude v ≠ D64_EXP_MASK := by
      rw [Ne,← UInt64.toNat_inj,hm]
      exact Nat.ne_of_lt hlt
    have hpos : 0 < (magnitude v).toNat := Nat.pos_of_ne_zero fun h => hzero (UInt64.toNat_inj.mp h)
    rw [if_neg hzero,if_neg hinf]
    exact .inr ⟨⟨UInt64.lt_iff_toNat_lt.mpr hpos,UInt64.lt_iff_toNat_lt.mpr (by rw [hm]; exact hlt)⟩,rfl⟩

def Settles (v : Double) : Prop :=
  IsFinite v → ∀ r d_exp, grisu3 (magnitude v) = some (r,d_exp) → r.success = true

/-- The text of a finite number behind its sign. -/
structure Body (v : Double) (s : List Byte) (x : ℚ) : Prop where
  reads : DecimalText.read s = some x
  head : ∃ c rest, s = c::rest ∧ isDigit c = true
  length : s.length ≤ 24
  nearest : ∀ u, toRat u ≠ toRat (magnitude v) → |toRat (magnitude v)-x| < |toRat u-x|

theorem printDouble_body (sprintf : Double → List Byte) (hv : IsFinite v) (hsettles : Settles v) :
    ∃ s x, printDouble sprintf v = some (minus v++s) ∧ Body v s x := by
  rcases printDouble_finite sprintf hv with ⟨hzero,hprint⟩ | ⟨hpos,hprint⟩
  · have hvalue : toRat (magnitude v) = 0 := by
      have hnone : significand 0 = 0 := rfl
      rw [hzero,toRat,hnone,Nat.cast_zero,zero_mul,mul_zero]
    have hread := DecimalText.read_whole (List.cons_ne_nil _ _) (isDigit_of_mem_zeros (k:=1))
      (show DecimalText.exponent [] = some 0 from rfl)
    rw [show number (48::List.replicate 0 48) = 0 from rfl,Nat.cast_zero,zero_mul] at hread
    refine ⟨text "0",0,hprint,hread,⟨48,[],rfl,rfl⟩,by decide,fun u hne => ?_⟩
    rw [hvalue] at hne ⊢
    rw [sub_zero,abs_zero,sub_zero]
    exact abs_pos.mpr hne
  · obtain ⟨r,d_exp,hrun,hlength,hdigits,hdecimal⟩ := grisu3_eq hpos
    have hsuccess := hsettles hv r d_exp hrun
    have hd := hdecimal hsuccess
    have hne : r.buffer ≠ [] := by
      intro hnil
      have hnumber := hd.number_pos hpos
      rw [hnil] at hnumber
      exact absurd hnumber (by decide)
    rw [hrun,Option.map_some] at hprint
    simp only [if_pos hsuccess] at hprint
    refine ⟨_,_,hprint,read_layout hne hdigits d_exp,head_layout hne hdigits,
      length_layout_le hlength (hd.d_exp_range hpos hlength hdigits),fun u hother => ?_⟩
    exact hpos.nearest hd.lower_lt hd.lt_upper u fun hsame => hother (congrArg toRat hsame)

/-- A finite number that `grisu3` does not give up on is printed as a decimal that is nearer to it than to any other
number, with its sign, in at most 25 bytes. -/
theorem printDouble_reads_back (sprintf : Double → List Byte) (hv : IsFinite v) (hsettles : Settles v) :
    ∃ s x, printDouble sprintf v = some s ∧ DecimalText.read s = some x ∧ s.length ≤ 25 ∧
      ∀ u, IsFinite u → toRat u ≠ toRat v → |toRat v-x| < |toRat u-x| := by
  obtain ⟨s,x,hprint,hbody⟩ := printDouble_body sprintf hv hsettles
  obtain ⟨c,rest,rfl,hc⟩ := hbody.head
  have hlength := hbody.length
  have hvalue := toRat_magnitude v
  rw [minus] at hprint
  simp only [ne_eq,sign_eq_zero_iff,ite_not] at hprint
  by_cases hsign : v.toNat < 2^63
  · rw [if_pos hsign] at hprint hvalue
    rw [one_mul] at hvalue
    refine ⟨_,x,hprint,hbody.reads,hlength.trans (by decide),fun u _ hne => ?_⟩
    rw [hvalue] at hne ⊢
    exact hbody.nearest u hne
  · rw [if_neg hsign] at hprint hvalue
    have hread := DecimalText.read_minus (c::rest) (fun b hb => by
      rw [List.head?_cons,Option.mem_some_iff] at hb
      rw [← hb]
      exact hc)
    rw [hbody.reads] at hread
    refine ⟨_,-x,hprint,hread,Nat.succ_le_succ hlength,fun u _ hne => ?_⟩
    obtain ⟨u',hu'⟩ := exists_neg u
    have hnearest := hbody.nearest u' (by
      rw [hu']
      intro hsame
      exact hne (by rw [hvalue,← hsame]; ring))
    rw [hu'] at hnearest
    rw [hvalue,← abs_neg (-1*_- -x),← abs_neg (toRat u- -x)]
    convert hnearest using 2 <;> ring

theorem settles_tenth : Settles 0x3FB999999999999A := by
  have hrun : grisu3 (magnitude 0x3FB999999999999A) = some (⟨true,[49],3⟩,-1) := by decide +kernel
  intro _ r d_exp h
  rw [hrun,Option.some.injEq,Prod.mk.injEq] at h
  rw [← h.1]

theorem printDouble_reads_back_tenth :
    ∃ s x, printDouble (fun _ => text "0.10000000000000001") 0x3FB999999999999A = some s ∧
      DecimalText.read s = some x ∧ s.length ≤ 25 ∧
        ∀ u, IsFinite u → toRat u ≠ toRat 0x3FB999999999999A → |toRat 0x3FB999999999999A-x| < |toRat u-x| :=
  printDouble_reads_back _ (by decide) settles_tenth

/-! ## The text and the bits -/

theorem hexLoop_inj {i v v' : ℕ} {dst dst' : List Byte} (hlength : dst.length = dst'.length)
    (h : hexLoop i v dst = hexLoop i v' dst') : v%16^i = v'%16^i ∧ dst = dst' := by
  induction i generalizing v v' dst dst' with
  | zero => exact ⟨by rw [Nat.pow_zero,Nat.mod_one,Nat.mod_one],h⟩
  | succ i ih =>
    have hdigits : ∀ k < 16, ∀ k' < 16, (text "0123456789ABCDEF").getD k 0 = (text "0123456789ABCDEF").getD k' 0 →
        k = k' := by decide
    obtain ⟨hhigh,hcons⟩ := ih (by rw [List.length_cons,List.length_cons,hlength]) h
    obtain ⟨hdigit,hdst⟩ := List.cons.inj hcons
    have hlow := hdigits _ (Nat.mod_lt v (by decide)) _ (Nat.mod_lt v' (by decide)) hdigit
    have hhigh' : v/16%16^i = v'/16%16^i := hhigh
    refine ⟨?_,hdst⟩
    rw [Nat.pow_succ',Nat.mod_mul,Nat.mod_mul,hlow,hhigh']

theorem length_hexLoop (i v : ℕ) (dst : List Byte) : (hexLoop i v dst).length = i+dst.length := by
  induction i generalizing v dst with
  | zero => exact (Nat.zero_add _).symm
  | succ i ih =>
    rw [hexLoop,ih,List.length_cons]
    omega

theorem printNan_inj (h : printNan u = printNan v) : u = v := by
  rw [printNan,printNan,List.append_assoc,List.append_assoc,List.append_cancel_left_eq,List.append_left_inj] at h
  have hsame := (hexLoop_inj rfl h).1
  have hu := u.toNat_lt
  have hv := v.toNat_lt
  exact UInt64.toNat_inj.mp (by omega)

theorem minus_append_inj {s t : List Byte} (hs : ∃ c rest, s = c::rest ∧ c ≠ 45) (ht : ∃ c rest, t = c::rest ∧ c ≠ 45)
    (h : minus u++s = minus v++t) : (u.toNat < 2^63 ↔ v.toNat < 2^63) ∧ s = t := by
  obtain ⟨c,s,rfl,hc⟩ := hs
  obtain ⟨d,t,rfl,hd⟩ := ht
  rw [minus,minus] at h
  simp only [ne_eq,sign_eq_zero_iff,ite_not] at h
  by_cases hu : u.toNat < 2^63
  · by_cases hv : v.toNat < 2^63
    · rw [if_pos hu,if_pos hv] at h
      exact ⟨iff_of_true hu hv,h⟩
    · rw [if_pos hu,if_neg hv] at h
      exact absurd (List.cons.inj h).1 hc
  · by_cases hv : v.toNat < 2^63
    · rw [if_neg hu,if_pos hv] at h
      exact absurd (List.cons.inj h).1.symm hd
    · rw [if_neg hu,if_neg hv] at h
      exact ⟨iff_of_false hu hv,(List.cons.inj h).2⟩

theorem eq_of_magnitude (hsign : u.toNat < 2^63 ↔ v.toNat < 2^63) (h : magnitude u = magnitude v) : u = v := by
  rw [← UInt64.toNat_inj,toNat_magnitude,toNat_magnitude] at h
  have hu := u.toNat_lt
  have hv := v.toNat_lt
  exact UInt64.toNat_inj.mp (by omega)

theorem printDouble_signed (sprintf : Double → List Byte) (hsettles : Settles v) (hv : ¬ v <<< 1 > 0xFFE0000000000000) :
    ∃ s, printDouble sprintf v = some (minus v++s) ∧
      ((magnitude v = D64_EXP_MASK ∧ s = text "inf") ∨ IsFinite v ∧ ∃ x, Body v s x) := by
  by_cases hfinite : IsFinite v
  · obtain ⟨s,x,hprint,hbody⟩ := printDouble_body sprintf hfinite hsettles
    exact ⟨s,hprint,.inr ⟨hfinite,x,hbody⟩⟩
  · have hm := toNat_magnitude v
    have hinf : magnitude v = D64_EXP_MASK := by
      rw [isNan_iff] at hv
      rw [IsFinite,not_not,expField] at hfinite
      rw [← UInt64.toNat_inj,hm]
      show _ = 2047*2^52
      omega
    have hzero : magnitude v ≠ 0 := by
      rw [hinf]
      decide
    refine ⟨text "inf",?_,.inl ⟨hinf,rfl⟩⟩
    rw [printDouble,if_neg hv,if_neg hzero,if_pos hinf]

theorem Body.eq {s : List Byte} {x y : ℚ} (hu : Body u s x) (hv : Body v s y) :
    toRat (magnitude u) = toRat (magnitude v) := by
  have hsame : x = y := Option.some.inj (hu.reads.symm.trans hv.reads)
  rw [← hsame] at hv
  by_contra hne
  have hcloser := hu.nearest (magnitude v) (Ne.symm hne)
  have hcloser' := hv.nearest (magnitude u) hne
  exact lt_asymm hcloser hcloser'

theorem head_of_signed {s : List Byte}
    (h : (magnitude v = D64_EXP_MASK ∧ s = text "inf") ∨ IsFinite v ∧ ∃ x, Body v s x) :
    ∃ c rest, s = c::rest ∧ c ≠ 45 ∧ c ≠ 78 := by
  rcases h with ⟨-,rfl⟩ | ⟨-,x,hbody⟩
  · exact ⟨105,text "nf",rfl,by decide,by decide⟩
  · obtain ⟨c,rest,rfl,hc⟩ := hbody.head
    refine ⟨c,rest,rfl,?_,?_⟩
    all_goals
      rintro rfl
      exact absurd hc (by decide)

theorem printNan_ne {s : List Byte} (hs : ∃ c rest, s = c::rest ∧ c ≠ 45 ∧ c ≠ 78) : printNan u ≠ minus v++s := by
  obtain ⟨c,rest,rfl,-,hc⟩ := hs
  rw [minus]
  split
  · exact fun h => absurd (List.cons.inj h).1 (by decide)
  · exact fun h => hc (List.cons.inj h).1.symm

theorem magnitude_inj (hu : IsFinite u) (hv : IsFinite v) (h : toRat (magnitude u) = toRat (magnitude v)) :
    magnitude u = magnitude v := by
  by_contra hne
  rcases printDouble_finite (fun _ => []) hv with ⟨hzero,-⟩ | ⟨hpos,-⟩
  · rcases printDouble_finite (fun _ => []) hu with ⟨hzero',-⟩ | ⟨hpos',-⟩
    · exact hne (hzero'.trans hzero.symm)
    · exact hpos'.toRat_ne (Ne.symm hne) h.symm
  · exact hpos.toRat_ne hne h

/-- No two doubles are printed alike, the zeros and the NaNs included. -/
theorem printDouble_injective (sprintf : Double → List Byte) (hu : Settles u) (hv : Settles v)
    (h : printDouble sprintf u = printDouble sprintf v) : u = v := by
  by_cases hnan : u <<< 1 > 0xFFE0000000000000
  · rw [printDouble,if_pos hnan] at h
    by_cases hnan' : v <<< 1 > 0xFFE0000000000000
    · rw [printDouble,if_pos hnan',Option.some.injEq] at h
      exact printNan_inj h
    · obtain ⟨t,hprint,ht⟩ := printDouble_signed sprintf hv hnan'
      rw [hprint,Option.some.injEq] at h
      exact absurd h (printNan_ne (head_of_signed ht))
  · obtain ⟨s,hprint,hs⟩ := printDouble_signed sprintf hu hnan
    obtain ⟨c,rest,hcons,hminus,-⟩ := head_of_signed hs
    rw [hprint] at h
    by_cases hnan' : v <<< 1 > 0xFFE0000000000000
    · rw [printDouble,if_pos hnan',Option.some.injEq] at h
      exact absurd h.symm (printNan_ne (head_of_signed hs))
    · obtain ⟨t,hprint',ht⟩ := printDouble_signed sprintf hv hnan'
      obtain ⟨c',rest',hcons',hminus',-⟩ := head_of_signed ht
      rw [hprint',Option.some.injEq] at h
      obtain ⟨hsign,rfl⟩ := minus_append_inj ⟨c,rest,hcons,hminus⟩ ⟨c',rest',hcons',hminus'⟩ h
      refine eq_of_magnitude hsign ?_
      rcases hs with ⟨hinf,rfl⟩ | ⟨hfinite,x,hbody⟩
      · rcases ht with ⟨hinf',-⟩ | ⟨-,y,hbody'⟩
        · rw [hinf,hinf']
        · obtain ⟨d,tail,heq,hd⟩ := hbody'.head
          rw [← (List.cons.inj heq).1] at hd
          exact absurd hd (by decide)
      · rcases ht with ⟨-,rfl⟩ | ⟨hfinite',y,hbody'⟩
        · obtain ⟨d,tail,heq,hd⟩ := hbody.head
          rw [← (List.cons.inj heq).1] at hd
          exact absurd hd (by decide)
        · exact magnitude_inj hfinite hfinite' (hbody.eq hbody')

theorem settles_fifth : Settles 0x3FC999999999999A := by
  have hrun : grisu3 (magnitude 0x3FC999999999999A) = some (⟨true,[50],3⟩,-1) := by decide +kernel
  intro _ r d_exp h
  rw [hrun,Option.some.injEq,Prod.mk.injEq] at h
  rw [← h.1]

theorem printDouble_injective_tenth :
    printDouble (fun _ => []) 0x3FB999999999999A ≠ printDouble (fun _ => []) 0x3FC999999999999A :=
  fun h => absurd (printDouble_injective (fun _ => []) settles_tenth settles_fifth h) (by decide)

end Print

/-! ## The stream -/

def GRISU3_PRINT_MAX : ℕ := 30

/-- What `sprintf` writes for `"%.17g"`: a sign, 17 digits with a point, and an exponent of three digits. -/
structure Sprintf where
  text : Double → List Byte
  short : ∀ v, (text v).length ≤ 24

theorem length_minus_le (v : Double) : (minus v).length ≤ 1 := by
  rw [minus]
  split
  · exact Nat.le_refl 1
  · exact Nat.zero_le 1

/-- `grisu3_print_double` ends, with a text that fits into its buffer together with the byte behind it. -/
theorem printDouble_some (sprintf : Sprintf) (v : Double) :
    ∃ s, printDouble sprintf.text v = some s ∧ s.length < GRISU3_PRINT_MAX := by
  have hminus := length_minus_le v
  by_cases hfinite : IsFinite v
  · rcases printDouble_finite sprintf.text hfinite with ⟨-,hprint⟩ | ⟨hpos,hprint⟩
    · refine ⟨_,hprint,?_⟩
      have hzero : (text "0").length = 1 := rfl
      rw [List.length_append,GRISU3_PRINT_MAX]
      omega
    · obtain ⟨r,d_exp,hrun,hlength,hdigits,hdecimal⟩ := grisu3_eq hpos
      rw [hrun,Option.map_some] at hprint
      refine ⟨_,hprint,?_⟩
      have hshort := sprintf.short (magnitude v)
      rw [List.length_append,GRISU3_PRINT_MAX]
      split
      · rename_i hsuccess
        have hlayout := length_layout_le hlength ((hdecimal hsuccess).d_exp_range hpos hlength hdigits)
        omega
      · omega
  · by_cases hnan : v <<< 1 > 0xFFE0000000000000
    · refine ⟨_,if_pos hnan,?_⟩
      have hname : (text "NaN(").length = 4 ∧ (text ")").length = 1 := ⟨rfl,rfl⟩
      rw [printNan,List.length_append,List.length_append,length_hexLoop,List.length_nil,GRISU3_PRINT_MAX]
      omega
    · obtain ⟨s,hprint,hs⟩ := printDouble_signed sprintf.text (fun h => absurd h hfinite) hnan
      rcases hs with ⟨-,rfl⟩ | ⟨h,-⟩
      · refine ⟨_,hprint,?_⟩
        have hinf : (text "inf").length = 3 := rfl
        rw [List.length_append,GRISU3_PRINT_MAX]
        omega
      · exact absurd h hfinite

theorem length_printed_le (sprintf : Sprintf) (v : Double) :
    ((printDouble sprintf.text v).getD []).length ≤ LogStream.kMaxNumericSize := by
  obtain ⟨s,hprint,hlength⟩ := printDouble_some sprintf v
  rw [hprint,Option.getD_some]
  exact Nat.le_trans hlength.le (by decide)

/-- What `operator<<(double)` adds to the buffer. -/
def Sprintf.printed (sprintf : Sprintf) (v : Double) : LogStream.Printed :=
  ⟨(printDouble sprintf.text v).getD [],length_printed_le sprintf v⟩

/-- A double is streamed as its whole text, with room for the byte behind it, or left out where the room is short. -/
theorem stream_double (sprintf : Sprintf) (s : LogStream) (v : Double) :
    ∃ t, printDouble sprintf.text v = some t ∧
      (s.stream (.double (sprintf.printed v))).buffer.data =
        (if LogStream.kMaxNumericSize ≤ s.buffer.avail then s.buffer.data++t else s.buffer.data) ∧
      (LogStream.kMaxNumericSize ≤ s.buffer.avail → s.buffer.data.length+t.length+1 ≤ FixedBuffer.kSmallBuffer) := by
  obtain ⟨t,hprint,hlength⟩ := printDouble_some sprintf v
  have htext : (sprintf.printed v).text = t := by
    show (printDouble sprintf.text v).getD [] = t
    rw [hprint,Option.getD_some]
  have hroom : LogStream.kMaxNumericSize ≤ s.buffer.avail →
      s.buffer.data.length+t.length+1 ≤ FixedBuffer.kSmallBuffer := by
    intro h
    have hlarge : GRISU3_PRINT_MAX+1 ≤ LogStream.kMaxNumericSize := by decide
    have havail : s.buffer.avail = FixedBuffer.kSmallBuffer-s.buffer.data.length := rfl
    omega
  refine ⟨t,hprint,?_,hroom⟩
  rw [LogStream.stream]
  split
  · rename_i h
    rw [LogStream.formatDouble_data h,htext,List.take_of_length_le]
    have := hroom h
    rw [List.length_append]
    omega
  · rename_i h
    rw [LogStream.formatDouble,dif_neg h]

/-! ## The text of `sprintf` -/

/-- A finite double without its sign, as a fraction. -/
def fraction (v : Double) : ℕ × ℕ := (significand v*2^(exponent v-1075),2^(1075-exponent v))

def digit (n : ℕ) : Byte := 48+(n%10).toUInt8

/-- The 17 digits of a fraction, rounded half to even, and the exponent of the first. -/
def seventeenDigits (a b : ℕ) : List Byte × ℤ :=
  let exponent : ℤ := if b ≤ a then Nat.log 10 (a/b) else -Nat.clog 10 ((b+a-1)/a)
  let num := a*10^(16-exponent).toNat
  let den := b*10^(exponent-16).toNat
  let q := if den < 2*(num%den) ∨ den = 2*(num%den) ∧ num/den%2 = 1 then num/den+1 else num/den
  let (q,exponent) := if q < 10^17 then (q,exponent) else (q/10,exponent+1)
  ((List.range 17).map fun i => digit (q/10^(16-i)),exponent)

def withoutZeros (digits : List Byte) : List Byte := (digits.reverse.dropWhile (· = 48)).reverse

def withPoint (front rest : List Byte) : List Byte := if rest = [] then front else front++text "."++rest

/-- `"%.17g"` of the C library for a positive double. -/
def percentG (v : Double) : List Byte :=
  let (digits,exponent) := seventeenDigits (fraction v).1 (fraction v).2
  if exponent < -4 ∨ 17 ≤ exponent then
    let n := exponent.natAbs
    withPoint (digits.take 1) (withoutZeros (digits.drop 1))++(text "e"++(text (if exponent < 0 then "-" else "+")++
      ((if 100 ≤ n then [digit (n/100)] else [])++[digit (n/10),digit n])))
  else if exponent < 0 then text "0."++List.replicate (-exponent-1).toNat 48++withoutZeros digits
  else withPoint (digits.take (exponent+1).toNat) (withoutZeros (digits.drop (exponent+1).toNat))

theorem length_withoutZeros_le (digits : List Byte) : (withoutZeros digits).length ≤ digits.length := by
  rw [withoutZeros,List.length_reverse]
  exact (List.dropWhile_suffix _).length_le.trans_eq List.length_reverse

theorem length_withPoint_le (front rest : List Byte) : (withPoint front rest).length ≤ front.length+rest.length+1 := by
  rw [withPoint]
  split
  · omega
  · simp [text]
    omega

theorem length_percentG_le (v : Double) : (percentG v).length ≤ 24 := by
  rw [percentG]
  have hdigits : (seventeenDigits (fraction v).1 (fraction v).2).1.length = 17 := by simp [seventeenDigits]
  split
  rename_i digits exponent hfraction
  rw [hfraction] at hdigits
  dsimp only at hdigits
  have htext : (text "e").length = 1 ∧ (text (if exponent < 0 then "-" else "+")).length = 1 ∧
      (text "0.").length = 2 := by
    refine ⟨rfl,?_,rfl⟩
    split <;> rfl
  have hhundreds : (if 100 ≤ exponent.natAbs then [digit (exponent.natAbs/100)] else []).length ≤ 1 := by
    split <;> simp
  split
  · have hpoint := length_withPoint_le (digits.take 1) (withoutZeros (digits.drop 1))
    have hzeros := length_withoutZeros_le (digits.drop 1)
    simp only [List.length_append,List.length_take,List.length_drop,List.length_cons,List.length_nil,hdigits]
      at hpoint hzeros ⊢
    omega
  · split
    · have hzeros := length_withoutZeros_le digits
      simp only [List.length_append,List.length_replicate]
      omega
    · have hpoint := length_withPoint_le (digits.take (exponent+1).toNat)
        (withoutZeros (digits.drop (exponent+1).toNat))
      have hzeros := length_withoutZeros_le (digits.drop (exponent+1).toNat)
      simp only [List.length_take,List.length_drop,hdigits] at hpoint hzeros
      omega

def Sprintf.library : Sprintf := ⟨percentG,length_percentG_le⟩

/-- `1e23`, on which `grisu3` gives up. -/
theorem stream_double_sprintf :
    (grisu3 0x44B52D02C7E14AF6).map (·.1.success) = some false ∧
      (LogStream.create.stream (.double (Sprintf.library.printed 0x44B52D02C7E14AF6))).buffer.data =
        text "9.9999999999999992e+22" := by
  obtain ⟨t,hprint,hdata,-⟩ := stream_double Sprintf.library .create 0x44B52D02C7E14AF6
  have htext : printDouble Sprintf.library.text 0x44B52D02C7E14AF6 = some (text "9.9999999999999992e+22") := by
    decide +kernel
  refine ⟨by decide +kernel,?_⟩
  rw [hdata,if_pos (by decide),← Option.some.inj (htext.symm.trans hprint)]
  rfl

end Grisu
end GgLib
