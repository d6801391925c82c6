import GgLib.ZoneFileSafety
import GgLib.BigEndian

/-! `readTimeZoneFile` undoes the layout of a zone file, as far as its counts are those of an
`int32_t`. -/
namespace GgLib

open FixedRecord

namespace TimeZone

open ReadFile

def FitsInt32 (z : ℤ) : Prop := -0x80000000 ≤ z ∧ z < 0x80000000

structure ZoneType where
  gmtoff : ℤ
  isdst : Bool
  abbrind : Byte
  gmtoff_fits : FitsInt32 gmtoff

/-- A transition between types of which there are `typecnt`. -/
structure ZoneTransition (typecnt : ℕ) where
  time : ℤ
  idx : Byte
  time_fits : FitsInt32 time
  idx_lt : idx.toNat < typecnt

/-- What a zone file holds; each count fits its four bytes. -/
structure ZoneData where
  types : List ZoneType
  transitions : List (ZoneTransition types.length)
  abbreviation : List Byte
  types_lt : types.length < 0x100000000
  transitions_lt : transitions.length < 0x100000000
  abbreviation_lt : abbreviation.length < 0x100000000

/-- What the reader passes over. -/
structure Passed where
  version : Byte
  reserved : List Byte
  isgmtcnt : ℕ
  isstdcnt : ℕ
  leapcnt : ℕ
  trailing : List Byte
  reserved_length : reserved.length = 15

def htobe32 (z : ℤ) : List Byte := BigEndian.bytes 4 (z%0x100000000).toNat

def ZoneType.bytes (t : ZoneType) : List Byte := htobe32 t.gmtoff++[if t.isdst then 1 else 0,t.abbrind]

namespace ZoneData

def front (z : ZoneData) (p : Passed) : List Byte :=
  text "TZif"++p.version::p.reserved++BigEndian.bytes 4 p.isgmtcnt++BigEndian.bytes 4 p.isstdcnt++
    BigEndian.bytes 4 p.leapcnt++BigEndian.bytes 4 z.transitions.length++BigEndian.bytes 4 z.types.length++
    BigEndian.bytes 4 z.abbreviation.length

/-- The layout of a file of version 1. -/
def bytes (z : ZoneData) (p : Passed) : ReadFile :=
  z.front p++(z.transitions.flatMap (fun t => htobe32 t.time)++(z.transitions.flatMap (fun t => [t.idx])++
    (z.types.flatMap ZoneType.bytes++(z.abbreviation++p.trailing))))

/-- The zone. -/
def data (z : ZoneData) : Data where
  transitions := z.transitions.map fun t =>
    ⟨t.time,t.time+(z.types.get ⟨t.idx.toNat,t.idx_lt⟩).gmtoff,t.idx.toNat⟩
  localtimes := z.types.map fun t => ⟨t.gmtoff,t.isdst,t.abbrind.toNat⟩
  abbreviation := z.abbreviation
  zoneAbbr := []

end ZoneData

theorem be32toh_bytes {n : ℕ} (h : n < 0x100000000) :
    be32toh (BigEndian.bytes 4 n) = if n < 0x80000000 then (n : ℤ) else (n : ℤ)-0x100000000 := by
  have hvalue : BigEndian.value (BigEndian.bytes 4 n) = n := by
    rw [BigEndian.value_bytes]
    exact Nat.mod_eq_of_lt h
  show (if BigEndian.value (BigEndian.bytes 4 n) < 0x80000000 then (BigEndian.value (BigEndian.bytes 4 n) : ℤ)
    else (BigEndian.value (BigEndian.bytes 4 n) : ℤ)-0x100000000) = _
  rw [hvalue]

theorem be32toh_htobe32 {z : ℤ} (h : FitsInt32 z) : be32toh (htobe32 z) = z := by
  obtain ⟨hlow,hhigh⟩ := h
  rw [htobe32,be32toh_bytes (by omega)]
  split <;> omega

theorem length_htobe32 (z : ℤ) : (htobe32 z).length = 4 := BigEndian.length_bytes 4 _

theorem countAt_append {front bs rest : List Byte} {k : ℕ} (hk : front.length = k) (hbs : bs.length = 4) :
    countAt (front++(bs++rest)) k = be32toh bs := by
  rw [countAt,List.drop_left' hk,List.take_left' hbs]

theorem typeOf_bytes (t : ZoneType) (rest : List Byte) :
    typeOf (t.bytes++rest) = ⟨t.gmtoff,t.isdst,t.abbrind.toNat⟩ := by
  have hlen := length_htobe32 t.gmtoff
  have hcount : countAt (t.bytes++rest) 0 = t.gmtoff := by
    rw [ZoneType.bytes,List.append_assoc]
    exact (countAt_append (show ([] : List Byte).length = 0 from rfl) hlen).trans (be32toh_htobe32 t.gmtoff_fits)
  have hbehind (i : ℕ) : (t.bytes++rest)[4+i]? = ([if t.isdst then 1 else 0,t.abbrind]++rest)[i]? := by
    rw [ZoneType.bytes,List.append_assoc,List.getElem?_append_right (by omega),hlen,Nat.add_sub_cancel_left]
  rw [typeOf,hcount,hbehind 0,hbehind 1]
  cases t.isdst <;> rfl

namespace ZoneData

variable (z : ZoneData) (p : Passed)

theorem length_front : (z.front p).length = 44 := by
  have hhead : (text "TZif").length = 4 := rfl
  simp [front,hhead,p.reserved_length]

theorem head : (z.bytes p).take 4 = text "TZif" := rfl

/-- The counts in the header are those of the file, as values of an `int32_t`. -/
theorem header_counts : (header (z.bytes p)).timecnt = be32toh (BigEndian.bytes 4 z.transitions.length) ∧
    (header (z.bytes p)).typecnt = be32toh (BigEndian.bytes 4 z.types.length) ∧
    (header (z.bytes p)).charcnt = be32toh (BigEndian.bytes 4 z.abbreviation.length) := by
  have hreserved := p.reserved_length
  let passed := p.version::p.reserved++BigEndian.bytes 4 p.isgmtcnt++BigEndian.bytes 4 p.isstdcnt++
    BigEndian.bytes 4 p.leapcnt
  obtain ⟨body,hbody⟩ : ∃ body, z.bytes p = z.front p++body := ⟨_,rfl⟩
  have hfile : (z.bytes p).drop 4 = passed++(BigEndian.bytes 4 z.transitions.length++
      (BigEndian.bytes 4 z.types.length++(BigEndian.bytes 4 z.abbreviation.length++body))) := by
    simp only [hbody,front,passed,List.append_assoc]
    exact List.drop_left' rfl
  refine ⟨?_,?_,?_⟩ <;> rw [header,hfile,headerOf] <;> dsimp only
  · exact countAt_append (by simp [passed,hreserved]) (BigEndian.length_bytes 4 _)
  · rw [← List.append_assoc]
    exact countAt_append (by simp [passed,hreserved]) (BigEndian.length_bytes 4 _)
  · rw [← List.append_assoc,← List.append_assoc]
    exact countAt_append (by simp [passed,hreserved]) (BigEndian.length_bytes 4 _)

theorem length_times : (z.transitions.flatMap fun t => htobe32 t.time).length = z.transitions.length*4 :=
  length_flatMap fun t _ => length_htobe32 t.time

theorem length_idx : (z.transitions.flatMap fun t => [t.idx]).length = z.transitions.length*1 :=
  length_flatMap fun _ _ => rfl

theorem length_types : (z.types.flatMap ZoneType.bytes).length = z.types.length*6 :=
  length_flatMap fun t _ => by rw [ZoneType.bytes,List.length_append,length_htobe32]; rfl

/-- Each count is one that an `int32_t` holds. -/
structure Countable : Prop where
  transitions : z.transitions.length < 0x80000000
  types : z.types.length < 0x80000000
  abbreviation : z.abbreviation.length < 0x80000000

variable {z}

theorem Countable.header (h : z.Countable) : (header (z.bytes p)).timecnt = z.transitions.length ∧
    (header (z.bytes p)).typecnt = z.types.length ∧ (header (z.bytes p)).charcnt = z.abbreviation.length := by
  obtain ⟨htime,htype,hchar⟩ := z.header_counts p
  rw [htime,htype,hchar,be32toh_bytes z.transitions_lt,be32toh_bytes z.types_lt,be32toh_bytes z.abbreviation_lt]
  exact ⟨if_pos h.transitions,if_pos h.types,if_pos h.abbreviation⟩

theorem Countable.tables (h : z.Countable) : tables (z.bytes p) =
    ⟨z.transitions.map fun t => t.time,z.transitions.map fun t => t.idx,
      z.types.map fun t => ⟨t.gmtoff,t.isdst,t.abbrind.toNat⟩⟩ := by
  obtain ⟨htime,htype,-⟩ := h.header p
  have hbody : (z.bytes p).drop 44 = z.transitions.flatMap (fun t => htobe32 t.time)++
      (z.transitions.flatMap (fun t => [t.idx])++(z.types.flatMap ZoneType.bytes++(z.abbreviation++p.trailing))) :=
    List.drop_left' (z.length_front p)
  have hidx : ((z.bytes p).drop 44).drop (z.transitions.length*4) =
      z.transitions.flatMap (fun t => [t.idx])++(z.types.flatMap ZoneType.bytes++(z.abbreviation++p.trailing)) := by
    rw [hbody]
    exact List.drop_left' z.length_times
  have htypes : ((z.bytes p).drop 44).drop (z.transitions.length*5) =
      z.types.flatMap ZoneType.bytes++(z.abbreviation++p.trailing) := by
    have hfive : z.transitions.length*5 = z.transitions.length*4+z.transitions.length*1 := by omega
    rw [hfive,← List.drop_drop,hidx]
    exact List.drop_left' z.length_idx
  have hmk : ∀ {as as' bs bs' cs cs'}, as = as' → bs = bs' → cs = cs' → Tables.mk as bs cs = Tables.mk as' bs' cs' := by
    rintro as _ bs _ cs _ rfl rfl rfl
    rfl
  rw [TimeZone.tables,tablesOf,htime,htype,Int.toNat_natCast,Int.toNat_natCast,hidx,htypes,hbody]
  refine hmk ?_ ?_ ?_
  · refine table_flatMap _ (fun t _ => length_htobe32 t.time) fun t _ rest => ?_
    exact (countAt_append (show ([] : List Byte).length = 0 from rfl) (length_htobe32 _)).trans
      (be32toh_htobe32 t.time_fits)
  · exact table_flatMap _ (fun _ _ => rfl) fun _ _ _ => rfl
  · refine table_flatMap _ (fun t _ => ?_) fun t _ rest => typeOf_bytes t rest
    rw [ZoneType.bytes,List.length_append,length_htobe32]
    rfl

theorem Countable.behindTables (h : z.Countable) : behindTables (z.bytes p) = z.abbreviation++p.trailing := by
  obtain ⟨htime,htype,-⟩ := h.header p
  rw [TimeZone.behindTables,Header.tablesSize,htime,htype,Int.toNat_natCast,Int.toNat_natCast,bytes,
    ← List.append_assoc,← List.append_assoc,← List.append_assoc]
  refine List.drop_left' ?_
  simp only [List.length_append,z.length_front,z.length_times,z.length_idx,z.length_types]
  omega

theorem Countable.tabled (h : z.Countable) : Tabled (z.bytes p) := by
  obtain ⟨htime,htype,-⟩ := h.header p
  refine ⟨z.head p,by omega,?_⟩
  rw [Header.tablesSize,htime,htype,Int.toNat_natCast,Int.toNat_natCast,bytes]
  simp only [List.length_append,z.length_front,z.length_times,z.length_idx,z.length_types]
  omega

end ZoneData

theorem makeTransitions_map {types : List ZoneType} (transitions : List (ZoneTransition types.length)) :
    makeTransitions (types.map fun t => ⟨t.gmtoff,t.isdst,t.abbrind.toNat⟩)
        ((transitions.map fun t => t.time).zip (transitions.map fun t => t.idx)) =
      .ok (transitions.map fun t => ⟨t.time,t.time+(types.get ⟨t.idx.toNat,t.idx_lt⟩).gmtoff,t.idx.toNat⟩) := by
  induction transitions with
  | nil => rfl
  | cons t transitions ih =>
    have hget : (types.map fun t => (⟨t.gmtoff,t.isdst,t.abbrind.toNat⟩ : Localtime))[t.idx.toNat]? =
        some ⟨(types.get ⟨t.idx.toNat,t.idx_lt⟩).gmtoff,(types.get ⟨t.idx.toNat,t.idx_lt⟩).isdst,
          (types.get ⟨t.idx.toNat,t.idx_lt⟩).abbrind.toNat⟩ := by
      rw [List.getElem?_map,List.getElem?_eq_getElem t.idx_lt]
      rfl
    rw [List.map_cons,List.map_cons,List.zip_cons_cons,makeTransitions,hget,ih]
    rfl

theorem readTimeZoneFile_bytes {z : ZoneData} (h : z.Countable) (p : Passed) :
    readTimeZoneFile (z.bytes p) = .ok z.data := by
  obtain ⟨-,-,hchar⟩ := h.header p
  rw [readTimeZoneFile_of_tabled (h.tabled p),h.tables p,h.behindTables p,hchar]
  dsimp only
  rw [makeTransitions_map,readBytes_of_enough (by rw [List.length_append]; omega),Int.toNat_natCast]
  show Except.ok (Data.mk _ _ ((z.abbreviation++p.trailing).take z.abbreviation.length) []) = _
  rw [List.take_left]
  rfl

/-- A file that is read has no negative count, but for that of the types, which are then none. -/
theorem counts_of_ok {file : ReadFile} {data : Data} (h : readTimeZoneFile file = .ok data) :
    0 ≤ (header file).timecnt ∧ data.localtimes.length = (header file).typecnt.toNat ∧
      0 ≤ (header file).charcnt := by
  by_cases htabled : Tabled file
  swap
  · obtain ⟨e,-,herror⟩ := readTimeZoneFile_of_not_tabled htabled
    rw [herror] at h
    cases h
  rw [readTimeZoneFile_of_tabled htabled] at h
  cases hmake : makeTransitions (tables file).localtimes ((tables file).transTimes.zip (tables file).idx) with
  | error e =>
    rw [hmake] at h
    cases h
  | ok transitions =>
    rw [hmake] at h
    by_cases hshort : (header file).charcnt < 0 ∨ (behindTables file).length < (header file).charcnt
    · obtain ⟨e,-,herror⟩ := readBytes_of_short hshort
      change (readBytes (header file).charcnt (behindTables file)).bind _ = _ at h
      rw [herror] at h
      cases h
    · change (readBytes (header file).charcnt (behindTables file)).bind _ = _ at h
      rw [readBytes_of_enough hshort] at h
      cases h
      exact ⟨htabled.timecnt,length_table ..,by omega⟩

theorem countable_of_ok {z : ZoneData} {p : Passed} (h : readTimeZoneFile (z.bytes p) = .ok z.data) :
    z.Countable := by
  obtain ⟨htime,htype,hchar⟩ := z.header_counts p
  obtain ⟨htimes,htypes,hchars⟩ := counts_of_ok h
  rw [htime,be32toh_bytes z.transitions_lt] at htimes
  rw [htype,be32toh_bytes z.types_lt,ZoneData.data,List.length_map] at htypes
  rw [hchar,be32toh_bytes z.abbreviation_lt] at hchars
  have htransitions_lt := z.transitions_lt
  have htypes_lt := z.types_lt
  have habbreviation_lt := z.abbreviation_lt
  refine ⟨?_,?_,?_⟩
  · by_contra hlarge
    rw [if_neg hlarge] at htimes
    omega
  · by_contra hlarge
    rw [if_neg hlarge] at htypes
    omega
  · by_contra hlarge
    rw [if_neg hlarge] at hchars
    omega

/-- For every zone, whatever stands in the bytes that are passed over: its file is read as exactly
its types, abbreviations and transitions if and only if each of its counts is one that an
`int32_t` holds. -/
theorem readTimeZoneFile_bytes_iff (z : ZoneData) (p : Passed) :
    readTimeZoneFile (z.bytes p) = .ok z.data ↔ z.Countable :=
  ⟨countable_of_ok,fun h => readTimeZoneFile_bytes h p⟩

/-- As many abbreviation bytes as make the count negative. -/
def longAbbreviation : ZoneData where
  types := []
  transitions := []
  abbreviation := List.replicate 0x80000000 0
  types_lt := by decide
  transitions_lt := by decide
  abbreviation_lt := by
    rw [List.length_replicate]
    decide

theorem readTimeZoneFile_rejects : ¬ ∀ (z : ZoneData) (p : Passed), readTimeZoneFile (z.bytes p) = .ok z.data := by
  intro h
  have hcountable := countable_of_ok (h longAbbreviation ⟨0,List.replicate 15 0,0,0,0,[],rfl⟩)
  have hlt := hcountable.abbreviation
  rw [longAbbreviation,List.length_replicate] at hlt
  exact absurd hlt (by decide)

end TimeZone
end GgLib
