import GgLib.CheckedInt

/-! `Date`: Julian day numbers in `int` arithmetic, whose overflow is undefined. -/
namespace GgLib

abbrev CInt : Type := CheckedInt (-0x80000000) 0x7fffffff

abbrev TimeT : Type := CheckedInt (-0x8000000000000000) 0x7fffffffffffffff

def getJulianDay (year month day : CInt) : CInt :=
  let a := (14-month)/12
  let y := year+4800-a
  let m := month+12*a-3
  day+(153*m+2)/5+y*365+y/4-y/100+y/400-32045

structure YearMonthDay where
  year : CInt
  month : CInt
  day : CInt
  deriving DecidableEq

def getYearMonthDay (julianDay : CInt) : YearMonthDay :=
  let a := julianDay+32044
  let b := (4*a+3)/146097
  let c := a-b*146097/4
  let d := (4*c+3)/1461
  let e := c-1461*d/4
  let m := (5*e+2)/153
  let day := e-(153*m+2)/5+1
  let month := m+3-12*(m/10)
  let year := b*100+d-4800+m/10
  ⟨year,month,day⟩

structure Date where
  julianDay : CInt
  deriving DecidableEq

namespace Date

def kDaysPerWeek : CInt := 7
def kJulianDayOf1970_01_01 : CInt := getJulianDay 1970 1 1

def ofYearMonthDay (year month day : CInt) : Date := ⟨getJulianDay year month day⟩

def yearMonthDay (date : Date) : YearMonthDay := getYearMonthDay date.julianDay

def weekDay (date : Date) : CInt := (date.julianDay+1)%kDaysPerWeek

end Date

end GgLib
