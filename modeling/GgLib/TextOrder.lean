import GgLib.PositionalNumeral

/-! The lexicographic order of texts: numerals of one length compare as their numbers, and lines of fields of fixed
width as the lists of their fields. -/
namespace TextOrder

open PositionalNumeral

variable {α : Type*} [LT α]

theorem append_lt_append {a b : List α} (hlen : a.length = b.length) (h : a < b) (x y : List α) : a++x < b++y := by
  induction a generalizing b with
  | nil =>
    cases b with
    | nil => cases h
    | cons c b => cases hlen
  | cons c a ih =>
    cases b with
    | nil => cases hlen
    | cons d b =>
      cases h with
      | rel hcd => exact .rel hcd
      | cons hab => exact .cons (ih (Nat.succ.inj hlen) hab)

theorem value_cons (base d : ℕ) (digits : List ℕ) :
    value base (d::digits) = d*base^digits.length+value base digits := by
  rw [value_eq,value_eq,List.reverse_cons,Nat.ofDigits_append,List.length_reverse,Nat.ofDigits_singleton,Nat.mul_comm,
    Nat.add_comm]

theorem value_lt {base : ℕ} (hbase : 1 < base) (digits : List ℕ) (h : ∀ d ∈ digits, d < base) :
    value base digits < base^digits.length := by
  have hlt := Nat.ofDigits_lt_base_pow_length hbase (l:=digits.reverse) fun d hd => h d (List.mem_reverse.mp hd)
  rwa [List.length_reverse,← value_eq] at hlt

theorem lt_of_value_lt {base : ℕ} (hbase : 1 < base) {g : α → ℕ} {as bs : List α} (hlen : as.length = bs.length)
    (has : ∀ a ∈ as, g a < base) (hbs : ∀ b ∈ bs, g b < base) (hlt : ∀ a ∈ as, ∀ b ∈ bs, g a < g b → a < b)
    (hinj : ∀ a ∈ as, ∀ b ∈ bs, g a = g b → a = b) (h : value base (as.map g) < value base (bs.map g)) : as < bs := by
  induction as generalizing bs with
  | nil =>
    cases bs with
    | nil => exact absurd h (Nat.lt_irrefl _)
    | cons b bs => cases hlen
  | cons a as ih =>
    cases bs with
    | nil => cases hlen
    | cons b bs =>
      have hlen' : as.length = bs.length := Nat.succ.inj hlen
      rw [List.map_cons,List.map_cons,value_cons,value_cons,List.length_map,List.length_map,hlen'] at h
      have hrest : value base (as.map g) < base^bs.length := by
        have := value_lt hbase (as.map g) (List.forall_mem_map.mpr fun a ha => has a (.tail _ ha))
        rwa [List.length_map,hlen'] at this
      rcases Nat.lt_trichotomy (g a) (g b) with hab | hab | hab
      · exact .rel (hlt a (.head _) b (.head _) hab)
      · rw [hinj a (.head _) b (.head _) hab]
        refine .cons (ih hlen' (fun a ha => has a (.tail _ ha)) (fun b hb => hbs b (.tail _ hb))
          (fun a ha b hb => hlt a (.tail _ ha) b (.tail _ hb)) (fun a ha b hb => hinj a (.tail _ ha) b (.tail _ hb)) ?_)
        rw [hab] at h
        omega
      · have hle : (g b+1)*base^bs.length ≤ g a*base^bs.length := Nat.mul_le_mul_right _ hab
        have hrest' := value_lt hbase (bs.map g) (List.forall_mem_map.mpr fun b hb => hbs b (.tail _ hb))
        rw [List.length_map] at hrest'
        rw [Nat.add_mul,Nat.one_mul] at hle
        omega

/-- Numerals of a fixed width. -/
structure FixedWidth (field : ℕ → ℤ → List α) : Prop where
  length : ∀ w n, 0 < w → 0 ≤ n → n < 10^w → (field w n).length = w
  lt : ∀ w m n, 0 < w → 0 ≤ m → m < n → n < 10^w → field w m < field w n

/-- The fields of a line, each behind what stands in front of it and with its width. -/
def line (field : ℕ → ℤ → List α) : List (List α × ℕ) → List ℤ → List α
  | (separator,w)::format, n::ns => separator++field w n++line field format ns
  | _, _ => []

def Fits (format : List (List α × ℕ)) (ns : List ℤ) : Prop :=
  List.Forall₂ (fun p n => 0 < p.2 ∧ 0 ≤ n ∧ n < 10^p.2) format ns

omit [LT α] in
theorem fits_cons {separator : List α} {w : ℕ} {n : ℤ} {format : List (List α × ℕ)} {ns : List ℤ} (hw : 0 < w)
    (hlow : 0 ≤ n) (hhigh : n < 10^w) (h : Fits format ns) : Fits ((separator,w)::format) (n::ns) :=
  .cons ⟨hw,hlow,hhigh⟩ h

theorem line_lt {field : ℕ → ℤ → List α} (hfield : FixedWidth field) {format : List (List α × ℕ)} {ms ns : List ℤ}
    (hms : Fits format ms) (hns : Fits format ns) (h : ms < ns) (x y : List α) :
    line field format ms++x < line field format ns++y := by
  induction hms generalizing ns with
  | nil =>
    cases hns
    cases h
  | @cons p m format ms hm _ ih =>
    cases hns with
    | @cons _ n _ ns hn hns =>
      obtain ⟨separator,w⟩ := p
      simp only [line,List.append_assoc]
      apply List.append_left_lt
      cases h with
      | rel hmn =>
        apply append_lt_append
        · rw [hfield.length w m hm.1 hm.2.1 hm.2.2,hfield.length w n hn.1 hn.2.1 hn.2.2]
        · exact hfield.lt w m n hm.1 hm.2.1 hmn hn.2.2
      | cons hrest =>
        apply List.append_left_lt
        exact ih hns hrest

theorem length_line {field : ℕ → ℤ → List α} (hfield : FixedWidth field) {format : List (List α × ℕ)} {ns : List ℤ}
    (h : Fits format ns) : (line field format ns).length = (format.map fun p => p.1.length+p.2).sum := by
  induction h with
  | nil => rfl
  | @cons p n format ns hn _ ih =>
    obtain ⟨separator,w⟩ := p
    rw [line,List.length_append,List.length_append,hfield.length w n hn.1 hn.2.1 hn.2.2,ih,List.map_cons,List.sum_cons]

end TextOrder
