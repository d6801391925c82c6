import GgLib.PositionalNumeral
import Mathlib.Algebra.Order.Field.Power
import Mathlib.Data.Rat.Cast.Order
import Mathlib.Tactic.Ring

/-! Decimal texts: a sign, digits with a point among them, and an exponent. -/
namespace DecimalText

def isDigit (c : UInt8) : Bool := decide (48 ≤ c.toNat) && decide (c.toNat ≤ 57)

def number (digits : List UInt8) : ℕ := PositionalNumeral.value 10 (digits.map fun c => c.toNat-48)

/-- A minus in front, and what is behind it. -/
def splitMinus : List UInt8 → ℤ × List UInt8
  | 45::s => (-1,s)
  | s => (1,s)

def splitFraction : List UInt8 → List UInt8 × List UInt8
  | 46::s => s.span isDigit
  | s => ([],s)

def exponent : List UInt8 → Option ℤ
  | [] => some 0
  | 101::s =>
    let (sign,digits) := splitMinus s
    if digits ≠ [] ∧ digits.all isDigit then some (sign*number digits) else none
  | _ => none

def readParts (sign : ℤ) (whole fraction s : List UInt8) : Option ℚ :=
  if whole = [] then none
  else (exponent s).map fun (e : ℤ) => (sign : ℚ)*(number (whole++fraction)*10^(e-fraction.length))

def readDigits (sign : ℤ) (s : List UInt8) : Option ℚ :=
  let p := s.span isDigit
  let q := splitFraction p.2
  readParts sign p.1 q.1 q.2

def read (s : List UInt8) : Option ℚ := readDigits (splitMinus s).1 (splitMinus s).2

theorem isDigit_iff {c : UInt8} : isDigit c = true ↔ 48 ≤ c.toNat ∧ c.toNat ≤ 57 := by
  rw [isDigit,Bool.and_eq_true,decide_eq_true_eq,decide_eq_true_eq]

variable {s digits whole fraction : List UInt8} {c : UInt8} {d : ℕ} {e : ℤ}

theorem number_snoc (digits : List UInt8) (hc : c.toNat = 48+d) : number (digits++[c]) = 10*number digits+d := by
  rw [number,List.map_append,List.map_singleton,PositionalNumeral.value_snoc,hc,Nat.add_sub_cancel_left]
  rfl

theorem number_zeros (k : ℕ) (digits : List UInt8) : number (List.replicate k 48++digits) = number digits := by
  rw [number,List.map_append,List.map_replicate]
  exact PositionalNumeral.value_zeros 10 k _

theorem number_append_zeros (digits : List UInt8) (k : ℕ) :
    number (digits++List.replicate k 48) = number digits*10^k := by
  induction k with
  | zero => simp
  | succ k ih =>
    rw [List.replicate_succ',← List.append_assoc,number_snoc _ (show (48 : UInt8).toNat = 48+0 from rfl),ih]
    ring

theorem number_lt (hdigits : ∀ c ∈ digits, isDigit c = true) : number digits < 10^digits.length := by
  rw [number,PositionalNumeral.value_eq,← List.length_map (fun c : UInt8 => c.toNat-48),← List.length_reverse]
  refine Nat.ofDigits_lt_base_pow_length (by decide) fun d hd => ?_
  obtain ⟨c,hc,rfl⟩ := List.mem_map.mp (List.mem_reverse.mp hd)
  have hdigit := isDigit_iff.mp (hdigits c hc)
  omega

theorem splitMinus_of_digit (hc : isDigit c = true) (s : List UInt8) : splitMinus (c::s) = (1,c::s) := by
  rw [isDigit_iff] at hc
  rw [splitMinus]
  rintro t heq
  rw [(List.cons.inj heq).1] at hc
  exact absurd hc.1 (by decide)

theorem span_digits (hdigits : ∀ c ∈ digits, isDigit c = true) (hs : ∀ c ∈ s.head?, isDigit c = false) :
    (digits++s).span isDigit = (digits,s) := by
  rw [List.span_eq_takeWhile_dropWhile,List.takeWhile_append_of_pos hdigits,List.dropWhile_append_of_pos hdigits]
  cases s with
  | nil => simp
  | cons c s =>
    have hc := hs c rfl
    rw [List.takeWhile_cons_of_neg (by simp [hc]),List.dropWhile_cons_of_neg (by simp [hc]),List.append_nil]

theorem head_of_exponent (h : exponent s = some e) : s = [] ∨ ∃ t, s = 101::t := by
  unfold exponent at h
  split at h
  · exact .inl rfl
  · exact .inr ⟨_,rfl⟩
  · exact absurd h nofun

theorem head_not_digit (h : exponent s = some e) : ∀ c ∈ s.head?, isDigit c = false := by
  rcases head_of_exponent h with rfl | ⟨t,rfl⟩
  · exact nofun
  · intro c hc
    rw [List.head?_cons,Option.mem_some_iff] at hc
    rw [← hc]
    rfl

theorem readParts_neg (sign : ℤ) (whole fraction s : List UInt8) :
    readParts (-sign) whole fraction s = (readParts sign whole fraction s).map (-·) := by
  rw [readParts,readParts]
  split
  · rfl
  · rw [Option.map_map]
    congr 1
    funext e
    simp

theorem read_minus (s : List UInt8) (hs : ∀ c ∈ s.head?, isDigit c = true) : read (45::s) = (read s).map (-·) := by
  cases s with
  | nil => rfl
  | cons c s =>
    rw [read,read,splitMinus_of_digit (hs c rfl)]
    exact readParts_neg 1 _ _ _

theorem read_append (hwhole : whole ≠ []) (hdigits : ∀ c ∈ whole, isDigit c = true)
    (hs : ∀ c ∈ s.head?, isDigit c = false) :
    read (whole++s) = readParts 1 whole (splitFraction s).1 (splitFraction s).2 := by
  have hminus : splitMinus (whole++s) = (1,whole++s) := by
    obtain ⟨c,rest,rfl⟩ := List.exists_cons_of_ne_nil hwhole
    exact splitMinus_of_digit (hdigits c List.mem_cons_self) _
  rw [read,hminus]
  simp only [readDigits,span_digits hdigits hs]

theorem read_whole (hwhole : whole ≠ []) (hdigits : ∀ c ∈ whole, isDigit c = true) (hs : exponent s = some e) :
    read (whole++s) = some (number whole*(10 : ℚ)^e) := by
  have hfraction : splitFraction s = ([],s) := by
    rcases head_of_exponent hs with rfl | ⟨t,rfl⟩ <;> rfl
  rw [read_append hwhole hdigits (head_not_digit hs),hfraction]
  simp only [readParts,if_neg hwhole,hs,Option.map_some]
  simp

theorem read_fraction (hwhole : whole ≠ []) (hdigits : ∀ c ∈ whole, isDigit c = true)
    (hfraction : ∀ c ∈ fraction, isDigit c = true) (hs : exponent s = some e) :
    read (whole++46::(fraction++s)) = some (number (whole++fraction)*(10 : ℚ)^(e-fraction.length)) := by
  have hpoint : ∀ c ∈ (46::(fraction++s) : List UInt8).head?, isDigit c = false := by
    intro c hc
    rw [List.head?_cons,Option.mem_some_iff] at hc
    rw [← hc]
    rfl
  rw [read_append hwhole hdigits hpoint,splitFraction,span_digits hfraction (head_not_digit hs)]
  simp only [readParts,if_neg hwhole,hs,Option.map_some]
  simp

end DecimalText
