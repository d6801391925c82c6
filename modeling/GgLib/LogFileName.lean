import GgLib.CalendarTime
import GgLib.Logging
import GgLib.PositionalNumeral

/-! The names of log files. A name tells the second it was made for. -/
namespace GgLib

open CalendarTime PositionalNumeral

namespace LogFile

/-- What `strftime` writes for `.%Y%m%d-%H%M%S`. -/
def timebuf (tm : Tm) : List Byte :=
  text "."++padded 48 4 (tm.tm_year+1900)++padded 48 2 (tm.tm_mon+1)++padded 48 2 tm.tm_mday++text "-"++
    padded 48 2 tm.tm_hour++padded 48 2 tm.tm_min++padded 48 2 tm.tm_sec

/-- The name that `getLogFileName` makes in the process `pid` at `now`. -/
def fileName (basename : List Byte) (pid now : ℤ) : List Byte :=
  basename++timebuf (gmtime_r now)++(text "."++padded 32 0 pid)++text ".log"

def digitsOf (field : List Byte) : List ℕ := field.map fun b => b.toNat-48

theorem digitsOf_toString (n : ℕ) : value 10 (digitsOf (text (toString n))) = n := by
  have hdigit : ∀ d < 10, (UInt8.ofNat (Nat.digitChar d).toNat).toNat-48 = d := by decide
  obtain ⟨ds,hds,hchars⟩ := exists_canonical (by decide : 1 < 10) n
  have hmap : digitsOf (text (toString n)) = ds := by
    rw [text_toString,hchars,digitsOf,List.map_map,List.map_map]
    exact (List.map_congr_left fun d hd => hdigit d (hds.bounded d hd)).trans (List.map_id ds)
  rw [hmap,hds.exact]

theorem digitsOf_padded (width : ℕ) {n : ℤ} (h : 0 ≤ n) : value 10 (digitsOf (padded 48 width n)) = n := by
  have hzero : UInt8.toNat 48-48 = 0 := rfl
  rw [padded,if_pos rfl,if_neg (not_lt.mpr h),List.nil_append,digitsOf,List.map_append,List.map_replicate,hzero,
    value_zeros]
  exact (congrArg Nat.cast (digitsOf_toString n.natAbs)).trans (Int.natAbs_of_nonneg h)

theorem padded_inj {width : ℕ} {m n : ℤ} (hm : 0 ≤ m) (hn : 0 ≤ n) (h : padded 48 width m = padded 48 width n) :
    m = n := by
  rw [← digitsOf_padded width hm,h,digitsOf_padded width hn]

theorem length_padded {n : ℤ} (hlow : 0 ≤ n) (hhigh : n < 100) : (padded 48 2 n).length = 2 := by
  have hlen := (Nat.length_toDigits_le_iff (n:=n.natAbs) (by decide : 1 < 10) (by decide : 0 < 2)).mpr (by omega)
  rw [padded,if_pos rfl,if_neg (not_lt.mpr hlow),List.nil_append,List.length_append,List.length_replicate,
    text_toString,List.length_map,List.length_nil]
  omega

theorem civilDay_bounds (days : ℤ) : 1 ≤ civilDay days ∧ civilDay days ≤ 31 := by
  obtain ⟨hlow,hhigh⟩ := dayOfYear_bounds days
  rw [civilDay,monthOfYear]
  omega

theorem civilYear_nonneg {days : ℤ} (h : 0 ≤ days) : 0 ≤ civilYear days := by
  obtain ⟨hclow,-⟩ := century_bounds days
  obtain ⟨hqlow,-⟩ := quad_bounds days
  obtain ⟨hylow,-⟩ := yearOfQuad_bounds days
  rw [civilYear,yearOfEra]
  split <;> omega

/-- The fields that `timebuf` shows are not negative, and all but the year have two digits. -/
structure Fields (tm : Tm) : Prop where
  year : 0 ≤ tm.tm_year+1900
  mon : 0 ≤ tm.tm_mon+1 ∧ tm.tm_mon+1 < 100
  mday : 0 ≤ tm.tm_mday ∧ tm.tm_mday < 100
  hour : 0 ≤ tm.tm_hour ∧ tm.tm_hour < 100
  min : 0 ≤ tm.tm_min ∧ tm.tm_min < 100
  sec : 0 ≤ tm.tm_sec ∧ tm.tm_sec < 100

theorem fields_gmtime_r {now : ℤ} (h : 0 ≤ now) : Fields (gmtime_r now) := by
  have hday : kSecondsPerDay = 86400 := rfl
  obtain ⟨hmlow,hmhigh⟩ := civilMonth_bounds (now/kSecondsPerDay)
  obtain ⟨hdlow,hdhigh⟩ := civilDay_bounds (now/kSecondsPerDay)
  have hyear := civilYear_nonneg (show 0 ≤ now/kSecondsPerDay by rw [hday]; omega)
  have hof : 0 ≤ now%kSecondsPerDay ∧ now%kSecondsPerDay < 86400 := by
    rw [hday]
    omega
  constructor <;> simp only [gmtime_r] <;> omega

theorem timebuf_inj {tm tm' : Tm} (h : Fields tm) (h' : Fields tm') (heq : timebuf tm = timebuf tm') :
    tm.tm_year = tm'.tm_year ∧ tm.tm_mon = tm'.tm_mon ∧ tm.tm_mday = tm'.tm_mday ∧ tm.tm_hour = tm'.tm_hour ∧
      tm.tm_min = tm'.tm_min ∧ tm.tm_sec = tm'.tm_sec := by
  have peel {front front' : List Byte} {n n' : ℤ} (hn : 0 ≤ n ∧ n < 100) (hn' : 0 ≤ n' ∧ n' < 100)
      (heq : front++padded 48 2 n = front'++padded 48 2 n') : front = front' ∧ n = n' := by
    obtain ⟨hfront,hfield⟩ := List.append_inj' heq (by rw [length_padded hn.1 hn.2,length_padded hn'.1 hn'.2])
    exact ⟨hfront,padded_inj hn.1 hn'.1 hfield⟩
  rw [timebuf,timebuf] at heq
  obtain ⟨heq,hsec⟩ := peel h.sec h'.sec heq
  obtain ⟨heq,hmin⟩ := peel h.min h'.min heq
  obtain ⟨heq,hhour⟩ := peel h.hour h'.hour heq
  obtain ⟨heq,hmday⟩ := peel h.mday h'.mday (List.append_cancel_right heq)
  obtain ⟨heq,hmon⟩ := peel h.mon h'.mon heq
  have hyear := padded_inj h.year h'.year (List.append_cancel_left heq)
  exact ⟨by omega,by omega,hmday,hhour,hmin,hsec⟩

theorem fileName_inj {basename : List Byte} {pid now now' : ℤ} (h : 0 ≤ now) (h' : 0 ≤ now')
    (heq : fileName basename pid now = fileName basename pid now') : now = now' := by
  obtain ⟨hyear,hmon,hmday,hhour,hmin,hsec⟩ := timebuf_inj (fields_gmtime_r h) (fields_gmtime_r h')
    (List.append_cancel_left (List.append_cancel_right (List.append_cancel_right heq)))
  have hback (now : ℤ) : timegm (gmtime_r now) = now := timegm_gmtime_r now 0 0 (.literal (text "GMT"))
  rw [← hback now,← hback now',timegm,timegm,hyear,hmon,hmday,hhour,hmin,hsec]

end LogFile
end GgLib
