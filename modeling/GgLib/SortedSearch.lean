import Mathlib.Data.List.Sort
import Mathlib.Order.Defs.LinearOrder

/-! Searches in a list that is sorted by a key: the first element that is not less than a value,
and the last one whose key is at most a bound. -/
namespace SortedSearch

variable {α K : Type*}

/-- `std::lower_bound`: the position of the first element that is not less than `value`, or the
length. -/
def lowerBound (less : α → α → Bool) (value : α) (l : List α) : ℕ := l.findIdx fun x => !less x value

def lastUpTo [LinearOrder K] (key : α → K) (k : K) (l : List α) : Option α :=
  (l.filter fun x => decide (key x ≤ k)).getLast?

variable [LinearOrder K] {key : α → K} {less : α → α → Bool} {value : α} {k : K} {l : List α}

theorem lowerBound_cons {x : α} (h : less x value = true) (l : List α) :
    lowerBound less value (x::l) = lowerBound less value l+1 := by
  simp [lowerBound,List.findIdx_cons,h]

theorem lastUpTo_eq_none : lastUpTo key k l = none ↔ ∀ x ∈ l, k < key x := by
  simp [lastUpTo]

theorem mem_of_lastUpTo {x : α} (h : lastUpTo key k l = some x) : x ∈ l ∧ key x ≤ k := by
  simpa using List.mem_filter.mp (List.mem_of_getLast? h)

theorem lastUpTo_eq_some {x : α} :
    lastUpTo key k l = some x ↔ ∃ front back, l = front++x::back ∧ key x ≤ k ∧ ∀ y ∈ back, k < key y := by
  simp only [lastUpTo,List.getLast?_eq_some_iff,List.filter_eq_append_iff,List.filter_eq_cons_iff,
    List.filter_eq_nil_iff,decide_eq_true_iff,not_le]
  constructor
  · rintro ⟨-,front,-,rfl,-,skipped,back,rfl,-,hx,hback⟩
    exact ⟨front++skipped,back,(List.append_assoc _ _ _).symm,hx,hback⟩
  · rintro ⟨front,back,rfl,hx,hback⟩
    exact ⟨_,front,x::back,rfl,rfl,[],back,rfl,by simp,hx,hback⟩

/-- Before the position of `lowerBound` the elements are less, and the one there is not. -/
theorem exists_lowerBound (hless : ∀ x y, less x y = true ↔ key x < key y) (value : α) (l : List α) :
    ∃ front back, l = front++back ∧ front.length = lowerBound less value l ∧ (∀ x ∈ front, key x < key value) ∧
      ∀ x ∈ back.head?, key value ≤ key x := by
  induction l with
  | nil => exact ⟨[],[],rfl,rfl,by simp,by simp⟩
  | cons y l ih =>
    rcases hy : less y value with _ | _
    · refine ⟨[],y::l,rfl,?_,by simp,fun x hx => ?_⟩
      · simp [lowerBound,List.findIdx_cons,hy]
      · obtain rfl : y = x := by simpa using hx
        rw [← not_lt,← hless,hy]
        exact Bool.false_ne_true
    · obtain ⟨front,back,rfl,hlen,hfront,hback⟩ := ih
      refine ⟨y::front,back,rfl,?_,fun x hx => ?_,hback⟩
      · rw [lowerBound_cons hy,← hlen,List.length_cons]
      · rcases List.mem_cons.mp hx with rfl | hx
        · exact (hless _ _).mp hy
        · exact hfront x hx

/-- In a sorted list the last element up to a value is the one found, if it has the same key,
and else the one before it. -/
theorem lastUpTo_eq_lowerBound (hless : ∀ x y, less x y = true ↔ key x < key y)
    (hsorted : l.Pairwise fun x y => key x < key y) (value : α) :
    lastUpTo key (key value) l =
      match l[lowerBound less value l]? with
      | some x =>
        if key x = key value then some x
        else if lowerBound less value l = 0 then none
        else l[lowerBound less value l-1]?
      | none => l.getLast? := by
  obtain ⟨front,back,rfl,hlen,hfront,hback⟩ := exists_lowerBound hless value l
  have hall : front.filter (fun x => decide (key x ≤ key value)) = front :=
    List.filter_eq_self.mpr fun x hx => decide_eq_true (le_of_lt (hfront x hx))
  rw [lastUpTo,List.filter_append,hall,← hlen,List.getElem?_append_right (Nat.le_refl _),Nat.sub_self]
  cases back with
  | nil => simp
  | cons y back =>
    have hy := hback y rfl
    have hrest : back.filter (fun x => decide (key x ≤ key value)) = [] := by
      refine List.filter_eq_nil_iff.mpr fun x hx => ?_
      have hlt := (List.pairwise_cons.mp (List.pairwise_append.mp hsorted).2.1).1 x hx
      simpa using lt_of_le_of_lt hy hlt
    simp only [List.getElem?_cons_zero,List.filter_cons,hrest]
    by_cases heq : key y = key value
    · simp [heq]
    · have hgt := not_le.mpr (lt_of_le_of_ne hy (Ne.symm heq))
      have hbefore : (if front.length = 0 then none else (front++y::back)[front.length-1]?) = front.getLast? := by
        rw [List.getLast?_eq_getElem?]
        split
        · rename_i hzero
          simp [List.length_eq_zero_iff.mp hzero]
        · exact List.getElem?_append_left (by omega)
      simp only [if_neg heq,hbefore,hgt,decide_false,Bool.false_eq_true,if_false,List.append_nil]

end SortedSearch
