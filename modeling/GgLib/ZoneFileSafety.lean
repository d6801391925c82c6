import GgLib.ZoneFile

/-! Which files are rejected or safe to use. The counts and indices of a file are taken as they
are, so the zone is only as good as the file. -/
namespace GgLib

open SortedSearch FixedRecord

namespace TimeZone

open ReadFile

/-- A search with valid indices finds a type, in whatever order the transitions are. -/
theorem findLocalTime_isSome {data : Data} (h : data.Indexed) (sentry : Transition) (comp : Comp) :
    (findLocalTime data sentry comp).isSome = true := by
  have hhead : data.localtimes.head?.isSome = true := by
    rw [List.head?_eq_some_head h.front]
    rfl
  have htype : ∀ transition ∈ data.transitions, (data.localtimes[transition.localtimeIdx]?).isSome = true := by
    intro transition hmem
    rw [List.getElem?_eq_getElem (h.types transition hmem)]
    rfl
  rw [findLocalTime]
  split
  · exact hhead
  rename_i front rest htransitions
  rw [htransitions] at htype ⊢
  by_cases hless : comp.less sentry front = true
  · rw [if_pos hless]
    exact hhead
  rw [if_neg hless]
  simp only []
  cases hfound : (front::rest)[lowerBound comp.less sentry (front::rest)]? with
  | none =>
    simp only [List.getLast?_eq_some_getLast (List.cons_ne_nil front rest),Option.bind_some]
    exact htype _ (List.getLast_mem _)
  | some transition =>
    by_cases hequal : comp.equal sentry transition = true
    · simp only [if_pos hequal]
      exact htype _ (List.mem_of_getElem? hfound)
    · obtain ⟨hpos,hlt⟩ := lowerBound_behind_front hless hfound hequal
      simp only [if_neg hequal,if_neg hpos,List.getElem?_eq_getElem hlt,Option.bind_some]
      exact htype _ (List.getElem_mem hlt)

theorem makeTransitions_of_lt {localtimes : List Localtime} {ps : List (ℤ × Byte)}
    (h : ∀ p ∈ ps, p.2.toNat < localtimes.length) :
    ∃ transitions, makeTransitions localtimes ps = .ok transitions ∧
      transitions.map (fun t => t.gmttime) = ps.map (fun p => p.1) ∧
      transitions.map (fun t => t.localtimeIdx) = ps.map (fun p => p.2.toNat) := by
  induction ps with
  | nil => exact ⟨[],rfl,rfl,rfl⟩
  | cons p ps ih =>
    obtain ⟨transitions,hmake,htimes,hidx⟩ := ih fun q hq => h q (.tail _ hq)
    have hlt := h p (.head _)
    have hget := List.getElem?_eq_getElem hlt
    refine ⟨⟨p.1,p.1+localtimes[p.2.toNat].gmtOffset,p.2.toNat⟩::transitions,?_,?_,?_⟩
    · simp only [makeTransitions,hget,hmake]
      rfl
    · rw [List.map_cons,List.map_cons,htimes]
    · rw [List.map_cons,List.map_cons,hidx]

theorem makeTransitions_of_le {localtimes : List Localtime} {ps : List (ℤ × Byte)}
    (h : ∃ p ∈ ps, localtimes.length ≤ p.2.toNat) : makeTransitions localtimes ps = .error .outOfRange := by
  induction ps with
  | nil =>
    obtain ⟨p,hp,-⟩ := h
    cases hp
  | cons q ps ih =>
    obtain ⟨p,hp,hle⟩ := h
    cases hget : localtimes[q.2.toNat]? with
    | none => simp only [makeTransitions,hget]
    | some localtime =>
      have hrest : ∃ p ∈ ps, localtimes.length ≤ p.2.toNat := by
        rcases List.mem_cons.mp hp with rfl | hp
        · obtain ⟨hlt,-⟩ := List.getElem?_eq_some_iff.mp hget
          omega
        · exact ⟨p,hp,hle⟩
      simp only [makeTransitions,hget,ih hrest]
      rfl

/-- The indices are valid, and the transitions in order. -/
structure Data.Usable (data : Data) : Prop where
  indexed : data.Indexed
  sorted : data.transitions.Pairwise fun s t => s.gmttime ≤ t.gmttime
  abbreviations : ∀ localtime ∈ data.localtimes, localtime.arrbIdx < data.abbreviation.length

/-- With valid indices only the types, the order of the times and the abbreviation indices matter. -/
theorem usable_iff {localtimes : List Localtime} {ps : List (ℤ × Byte)} {transitions : List Transition}
    {abbreviation : List Byte} (hidx : ∀ p ∈ ps, p.2.toNat < localtimes.length)
    (htimes : transitions.map (fun t => t.gmttime) = ps.map (fun p => p.1))
    (hlocaltimeIdx : transitions.map (fun t => t.localtimeIdx) = ps.map (fun p => p.2.toNat)) :
    Data.Usable ⟨transitions,localtimes,abbreviation,[]⟩ ↔
      localtimes ≠ [] ∧ (ps.map (fun p => p.1)).Pairwise (· ≤ ·) ∧
        ∀ localtime ∈ localtimes, localtime.arrbIdx < abbreviation.length := by
  rw [← htimes,List.pairwise_map]
  constructor
  · rintro ⟨hindexed,hsorted,habbr⟩
    exact ⟨hindexed.front,hsorted,habbr⟩
  · rintro ⟨hne,hsorted,habbr⟩
    refine ⟨⟨hne,fun t ht => ?_⟩,hsorted,habbr⟩
    have hmem : t.localtimeIdx ∈ transitions.map (fun t => t.localtimeIdx) := List.mem_map_of_mem ht
    rw [hlocaltimeIdx] at hmem
    obtain ⟨p,hp,heq⟩ := List.mem_map.mp hmem
    rw [← heq]
    exact hidx p hp

/-- Rejected, or read without an index out of range and with a zone whose searches never use
one. -/
def Safe (result : Except Failure Data) : Prop :=
  match result with
  | .error e => Caught e
  | .ok data => data.Usable ∧ ∀ sentry comp, (findLocalTime data sentry comp).isSome = true

/-- The type indices are below the number of types; and the abbreviations are short, which
rejects the file, or there is a type, the times are in order and the abbreviation indices
are below the number of bytes. -/
structure Wellformed (file : ReadFile) : Prop where
  idx : ∀ i ∈ (tables file).idx, i.toNat < (tables file).localtimes.length
  rest : (header file).charcnt < 0 ∨ (behindTables file).length < (header file).charcnt ∨
    (tables file).localtimes ≠ [] ∧ (tables file).transTimes.Pairwise (· ≤ ·) ∧
      ∀ localtime ∈ (tables file).localtimes, localtime.arrbIdx < (header file).charcnt

/-- A file is rejected or safe exactly if its header or its tables are missing, or it is well formed. -/
theorem readTimeZoneFile_safe_iff (file : ReadFile) :
    Safe (readTimeZoneFile file) ↔ ¬ Tabled file ∨ Wellformed file := by
  by_cases htabled : Tabled file
  swap
  · obtain ⟨e,he,heq⟩ := readTimeZoneFile_of_not_tabled htabled
    rw [heq]
    exact iff_of_true he (.inl htabled)
  rw [readTimeZoneFile_of_tabled htabled]
  have hlen : (tables file).transTimes.length = (tables file).idx.length := by simp [tables,tablesOf]
  have hfst : ((tables file).transTimes.zip (tables file).idx).map (fun p => p.1) = (tables file).transTimes :=
    List.map_fst_zip (Nat.le_of_eq hlen)
  have hsnd : ((tables file).transTimes.zip (tables file).idx).map (fun p => p.2) = (tables file).idx :=
    List.map_snd_zip (Nat.le_of_eq hlen.symm)
  by_cases hidx : ∀ i ∈ (tables file).idx, i.toNat < (tables file).localtimes.length
  swap
  · have hout : ∃ p ∈ (tables file).transTimes.zip (tables file).idx, (tables file).localtimes.length ≤ p.2.toNat := by
      push Not at hidx
      obtain ⟨i,hi,hle⟩ := hidx
      rw [← hsnd] at hi
      obtain ⟨p,hp,rfl⟩ := List.mem_map.mp hi
      exact ⟨p,hp,hle⟩
    rw [makeTransitions_of_le hout]
    refine iff_of_false (fun hsafe => hsafe rfl) ?_
    rintro (hnot | hwell)
    · exact hnot htabled
    · exact hidx hwell.idx
  have hall : ∀ p ∈ (tables file).transTimes.zip (tables file).idx, p.2.toNat < (tables file).localtimes.length := by
    intro p hp
    refine hidx p.2 ?_
    rw [← hsnd]
    exact List.mem_map_of_mem hp
  obtain ⟨transitions,hmake,htimes,hlocaltimeIdx⟩ := makeTransitions_of_lt hall
  rw [hmake]
  show Safe ((readBytes (header file).charcnt (behindTables file)).bind _) ↔ _
  by_cases hshort : (header file).charcnt < 0 ∨ (behindTables file).length < (header file).charcnt
  · obtain ⟨e,he,heq⟩ := readBytes_of_short hshort
    rw [heq]
    exact iff_of_true he (.inr ⟨hidx,or_assoc.mp (.inl hshort)⟩)
  rw [readBytes_of_enough hshort]
  show (Data.Usable ⟨transitions,(tables file).localtimes,(behindTables file).take (header file).charcnt.toNat,
    []⟩ ∧ _) ↔ _
  have hsize (i : ℕ) : i < ((behindTables file).take (header file).charcnt.toNat).length ↔
      i < (header file).charcnt := by
    rw [List.length_take]
    omega
  have husable : Data.Usable ⟨transitions,(tables file).localtimes,
      (behindTables file).take (header file).charcnt.toNat,[]⟩ ↔ _ := usable_iff hall htimes hlocaltimeIdx
  simp only [hfst,hsize] at husable
  constructor
  · rintro ⟨hu,-⟩
    exact .inr ⟨hidx,.inr (.inr (husable.mp hu))⟩
  · rintro (hnot | hwell)
    · exact absurd htabled hnot
    have hu := husable.mpr ((or_assoc.mpr hwell.rest).resolve_left hshort)
    exact ⟨hu,findLocalTime_isSome hu.indexed⟩

def noTypes : ReadFile := text "TZif"++List.replicate 40 0

theorem readTimeZoneFile_unsafe : ¬ ∀ file : ReadFile, Safe (readTimeZoneFile file) := by
  intro h
  have hread : readTimeZoneFile noTypes = .ok ⟨[],[],[],[]⟩ := rfl
  have hsafe := h noTypes
  rw [hread] at hsafe
  exact hsafe.1.indexed.front rfl

end TimeZone
end GgLib
