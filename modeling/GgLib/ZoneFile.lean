import GgLib.TimeZone
import GgLib.FixedRecord

/-! `readTimeZoneFile`: six counts, the times and the type index of each transition, the types
and the abbreviations. -/
namespace GgLib

open FixedRecord

namespace TimeZone

/-- What ends the reading: a `std::logic_error` of its own, the `std::length_error` of a negative
size, which is caught as well, or an index outside of `localtimes`. -/
inductive Failure
  | logicError (what : String)
  | lengthError
  | outOfRange
  deriving DecidableEq, Repr

abbrev ReadFile := List Byte

namespace ReadFile

def passBytes (n : ℕ) (f : ReadFile) : ReadFile := f.drop n

def readBytes (n : ℤ) (f : ReadFile) : Except Failure (List Byte × ReadFile) :=
  if n < 0 then .error .lengthError
  else if n.toNat ≤ f.length then .ok (f.take n.toNat,f.drop n.toNat)
  else .error (.logicError "no enough data")

/-- The four bytes as they are in memory. -/
def readInt32 (f : ReadFile) : Except Failure (List Byte × ReadFile) :=
  if 4 ≤ f.length then .ok (f.take 4,f.drop 4) else .error (.logicError "bad int32_t data")

def readUInt8 : ReadFile → Except Failure (Byte × ReadFile)
  | x::f => .ok (x,f)
  | [] => .error (.logicError "bad uint8_t data")

end ReadFile

open ReadFile

def be32toh (x : List Byte) : ℤ :=
  let n : ℕ := x.foldl (fun n b => 256*n+b.toNat) 0
  if n < 0x80000000 then (n : ℤ) else (n : ℤ)-0x100000000

structure Header where
  isgmtcnt : ℤ
  isstdcnt : ℤ
  leapcnt : ℤ
  timecnt : ℤ
  typecnt : ℤ
  charcnt : ℤ
  deriving DecidableEq, Repr

/-- Behind the four bytes of `head`. -/
def readHeader (f : ReadFile) : Except Failure (Header × ReadFile) := do
  let (_,f) ← readBytes 1 f
  let f := passBytes 15 f
  let (isgmtcnt,f) ← readInt32 f
  let (isstdcnt,f) ← readInt32 f
  let (leapcnt,f) ← readInt32 f
  let (timecnt,f) ← readInt32 f
  let (typecnt,f) ← readInt32 f
  let (charcnt,f) ← readInt32 f
  return (⟨be32toh isgmtcnt,be32toh isstdcnt,be32toh leapcnt,be32toh timecnt,be32toh typecnt,be32toh charcnt⟩,f)

def readTime (f : ReadFile) : Except Failure (ℤ × ReadFile) := do
  let (x,f) ← readInt32 f
  return (be32toh x,f)

def readType (f : ReadFile) : Except Failure (Localtime × ReadFile) := do
  let (gmtoff,f) ← readInt32 f
  let (isdst,f) ← readUInt8 f
  let (abbrind,f) ← readUInt8 f
  return (⟨be32toh gmtoff,decide (isdst ≠ 0),abbrind.toNat⟩,f)

/-- `trans`, the type index of each, and `data->localtimes`. -/
structure Tables where
  transTimes : List ℤ
  idx : List Byte
  localtimes : List Localtime
  deriving DecidableEq, Repr

/-- The first three loops. -/
def readTables (header : Header) (f : ReadFile) : Except Failure (Tables × ReadFile) := do
  let (transTimes,f) ← times readTime header.timecnt.toNat f
  let (idx,f) ← times readUInt8 header.timecnt.toNat f
  let (localtimes,f) ← times readType header.typecnt.toNat f
  return (⟨transTimes,idx,localtimes⟩,f)

/-- The loop that fills `transitions`. -/
def makeTransitions (localtimes : List Localtime) : List (ℤ × Byte) → Except Failure (List Transition)
  | [] => .ok []
  | (time,localIdx)::rest =>
    match localtimes[localIdx.toNat]? with
    | some localtime => do
      let transitions ← makeTransitions localtimes rest
      return ⟨time,time+localtime.gmtOffset,localIdx.toNat⟩::transitions
    | none => .error .outOfRange

def readTimeZoneFile (f : ReadFile) : Except Failure Data := do
  let (head,f) ← readBytes 4 f
  if head ≠ text "TZif" then .error (.logicError "bad head")
  else
    let (header,f) ← readHeader f
    -- the `reserve` of a negative size throws
    if header.timecnt < 0 then .error .lengthError
    else
      let (tables,f) ← readTables header f
      let transitions ← makeTransitions tables.localtimes (tables.transTimes.zip tables.idx)
      let (abbreviation,_) ← readBytes header.charcnt f
      return ⟨transitions,tables.localtimes,abbreviation,[]⟩

/-- Every failure but that one makes `readTimeZoneFile` return false. -/
def Caught (e : Failure) : Prop := e ≠ .outOfRange

def countAt (f : ReadFile) (k : ℕ) : ℤ := be32toh ((f.drop k).take 4)

def headerOf (f : ReadFile) : Header :=
  ⟨countAt f 16,countAt f 20,countAt f 24,countAt f 28,countAt f 32,countAt f 36⟩

def typeOf (f : ReadFile) : Localtime := ⟨countAt f 0,decide (f[4]?.getD 0 ≠ 0),(f[5]?.getD 0).toNat⟩

theorem readInt32_reads : Reads Caught 4 (fun f => f.take 4) readInt32 where
  enough f hf := if_pos hf
  short f hf := ⟨_,by simp [Caught],if_neg (Nat.not_le.mpr hf)⟩

theorem readUInt8_reads : Reads Caught 1 (fun f => f[0]?.getD 0) readUInt8 where
  enough f hf := by
    cases f with
    | nil => cases hf
    | cons x f => rfl
  short f hf := by
    rw [List.length_eq_zero_iff.mp (Nat.lt_one_iff.mp hf)]
    exact ⟨_,by simp [Caught],rfl⟩

theorem readBytes_of_short {n : ℤ} {f : ReadFile} (h : n < 0 ∨ f.length < n) :
    ∃ e, Caught e ∧ readBytes n f = .error e := by
  rw [readBytes]
  split
  · exact ⟨_,by simp [Caught],rfl⟩
  · rw [if_neg (by omega)]
    exact ⟨_,by simp [Caught],rfl⟩

theorem readBytes_of_enough {n : ℤ} {f : ReadFile} (h : ¬ (n < 0 ∨ f.length < n)) :
    readBytes n f = .ok (f.take n.toNat,f.drop n.toNat) := by
  rw [readBytes,if_neg (by omega),if_pos (by omega)]

theorem readBytes_reads (n : ℕ) : Reads Caught n (fun f => f.take n) (readBytes n) where
  enough f hf := readBytes_of_enough (by omega)
  short f hf := readBytes_of_short (.inr (by omega))

theorem readTime_reads : Reads Caught 4 (fun f => countAt f 0) readTime := readInt32_reads.map be32toh

theorem readHeader_reads : Reads Caught 40 headerOf readHeader := by
  have h := (readBytes_reads 1).bind fun _ => ((readInt32_reads.bind fun isgmtcnt =>
    readInt32_reads.bind fun isstdcnt => readInt32_reads.bind fun leapcnt =>
      readInt32_reads.bind fun timecnt => readInt32_reads.bind fun typecnt => readInt32_reads.map fun charcnt =>
        (⟨be32toh isgmtcnt,be32toh isstdcnt,be32toh leapcnt,be32toh timecnt,be32toh typecnt,
          be32toh charcnt⟩ : Header)).pass (by decide) 15)
  simp only [List.drop_drop,Nat.reduceAdd] at h
  exact h

theorem readType_reads : Reads Caught 6 typeOf readType := by
  have h := readInt32_reads.bind fun gmtoff => readUInt8_reads.bind fun isdst =>
    readUInt8_reads.map fun abbrind => (⟨be32toh gmtoff,decide (isdst ≠ 0),abbrind.toNat⟩ : Localtime)
  simp only [List.drop_drop,List.getElem?_drop,Nat.reduceAdd] at h
  exact h

def Header.tablesSize (header : Header) : ℕ :=
  header.timecnt.toNat*4+(header.timecnt.toNat*1+header.typecnt.toNat*6)

def tablesOf (header : Header) (f : ReadFile) : Tables where
  transTimes := table 4 (fun f => countAt f 0) header.timecnt.toNat f
  idx := table 1 (fun f => f[0]?.getD 0) header.timecnt.toNat (f.drop (header.timecnt.toNat*4))
  localtimes := table 6 typeOf header.typecnt.toNat (f.drop (header.timecnt.toNat*5))

theorem readTables_reads (header : Header) : Reads Caught header.tablesSize (tablesOf header) (readTables header) := by
  have h := (readTime_reads.times header.timecnt.toNat).bind fun transTimes =>
    (readUInt8_reads.times header.timecnt.toNat).bind fun idx =>
      (readType_reads.times header.typecnt.toNat).map fun localtimes => (⟨transTimes,idx,localtimes⟩ : Tables)
  have hfive : header.timecnt.toNat*4+header.timecnt.toNat*1 = header.timecnt.toNat*5 := by omega
  simp only [List.drop_drop,hfive] at h
  exact h

def header (file : ReadFile) : Header := headerOf (file.drop 4)

def tables (file : ReadFile) : Tables := tablesOf (header file) (file.drop 44)

def behindTables (file : ReadFile) : ReadFile := file.drop (44+(header file).tablesSize)

/-- The header and the tables are read. -/
structure Tabled (file : ReadFile) : Prop where
  head : file.take 4 = text "TZif"
  timecnt : 0 ≤ (header file).timecnt
  long : 44+(header file).tablesSize ≤ file.length

theorem readTimeZoneFile_of_not_tabled {file : ReadFile} (h : ¬ Tabled file) :
    ∃ e, Caught e ∧ readTimeZoneFile file = .error e := by
  by_cases hfour : file.length < 4
  · obtain ⟨e,he,heq⟩ := (readBytes_reads 4).short file hfour
    refine ⟨e,he,?_⟩
    rw [readTimeZoneFile,show readBytes 4 file = _ from heq]
    rfl
  rw [readTimeZoneFile,show readBytes 4 file = _ from (readBytes_reads 4).enough file (by omega)]
  show ∃ e, Caught e ∧ (if file.take 4 ≠ text "TZif" then _ else _) = _
  by_cases hhead : file.take 4 = text "TZif"
  swap
  · exact ⟨_,by simp [Caught],if_pos hhead⟩
  rw [if_neg (not_not.mpr hhead)]
  have hdrop : (file.drop 4).length = file.length-4 := List.length_drop
  by_cases hheader : (file.drop 4).length < 40
  · obtain ⟨e,he,heq⟩ := readHeader_reads.short _ hheader
    refine ⟨e,he,?_⟩
    rw [heq]
    rfl
  rw [readHeader_reads.enough _ (by omega),List.drop_drop]
  show ∃ e, Caught e ∧ (if (header file).timecnt < 0 then _ else _) = _
  by_cases htimecnt : (header file).timecnt < 0
  · exact ⟨_,by simp [Caught],if_pos htimecnt⟩
  rw [if_neg htimecnt]
  have hshort : (file.drop 44).length < (header file).tablesSize := by
    by_contra hlong
    refine h ⟨hhead,by omega,?_⟩
    rw [List.length_drop] at hlong
    omega
  obtain ⟨e,he,heq⟩ := (readTables_reads (header file)).short _ hshort
  refine ⟨e,he,?_⟩
  rw [show readTables (headerOf (file.drop 4)) (file.drop (4+40)) = _ from heq]
  rfl

theorem readTimeZoneFile_of_tabled {file : ReadFile} (h : Tabled file) :
    readTimeZoneFile file = (do
      let transitions ← makeTransitions (tables file).localtimes ((tables file).transTimes.zip (tables file).idx)
      let (abbreviation,_) ← readBytes (header file).charcnt (behindTables file)
      return ⟨transitions,(tables file).localtimes,abbreviation,[]⟩) := by
  have hlong := h.long
  have hdrop : (file.drop 4).length = file.length-4 := List.length_drop
  have hdrop' : (file.drop 44).length = file.length-44 := List.length_drop
  rw [readTimeZoneFile,show readBytes 4 file = _ from (readBytes_reads 4).enough file (by omega)]
  show (if file.take 4 ≠ text "TZif" then _ else _) = _
  rw [if_neg (not_not.mpr h.head),readHeader_reads.enough _ (by omega),List.drop_drop]
  show (if (header file).timecnt < 0 then _ else _) = _
  rw [if_neg (Int.not_lt.mpr h.timecnt)]
  have htables := (readTables_reads (header file)).enough (file.drop 44) (by omega)
  rw [List.drop_drop] at htables
  rw [show readTables (headerOf (file.drop 4)) (file.drop (4+40)) = _ from htables]
  rfl

end TimeZone
end GgLib
