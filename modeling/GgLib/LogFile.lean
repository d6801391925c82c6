import GgLib.LabelledSystem
import GgLib.LogFileName
import Mathlib.Data.List.Forall2

/-! `AppendFile` and `LogFile`: the records of a log in files that are rolled by size and by day. -/
namespace GgLib

open LabelledSystem

/-- The last two fields record when the file was opened and the bytes that its stream took. The 64 KiB of the stream's
own buffer are not modelled: `fflush` and `fclose` pass on what it took. -/
structure AppendFile where
  filename : List Byte
  err : ℤ
  writtenBytes : ℤ
  openedAt : ℤ
  content : List Byte
  deriving DecidableEq, Repr

namespace AppendFile

/-- The constructor, with the `errno` of an `fopen` that failed. -/
def create (filename : List Byte) (openedAt err : ℤ) : AppendFile := ⟨filename,err,0,openedAt,[]⟩

variable (f : AppendFile) (data : List Byte)

/-- The loop of `append`, with the results of `fwrite_unlocked` and of `ferror` behind it. -/
def appendLoop (f : AppendFile) (written : ℕ) : List (ℕ × ℤ) → Option AppendFile
  | [] => if written < data.length then none else some { f with writtenBytes := f.writtenBytes+written }
  | (n,ferror)::results =>
    if written < data.length then
      let f := { f with content := f.content++(data.drop written).take n }
      if n ≠ data.length-written then
        let f := { f with err := ferror }
        if ferror ≠ 0 then some { f with writtenBytes := f.writtenBytes+written }
        else appendLoop f (written+n) results
      else appendLoop f (written+n) results
    else none

def append (results : List (ℕ × ℤ)) : Option AppendFile :=
  if f.err ≠ 0 then some f else appendLoop data f 0 results

/-- The results of writes that do not fail: they add up to the length, and `ferror` is not set
behind a short one. -/
def Completes : ℕ → List (ℕ × ℤ) → Prop
  | remain, [] => remain = 0
  | remain, (n,ferror)::results =>
    0 < remain ∧ n ≤ remain ∧ (n ≠ remain → ferror = 0) ∧ Completes (remain-n) results

variable {f data}

theorem appendLoop_eq {written : ℕ} {results : List (ℕ × ℤ)} (herr : f.err = 0) (hle : written ≤ data.length)
    (h : Completes (data.length-written) results) :
    appendLoop data f written results =
      some { f with writtenBytes := f.writtenBytes+data.length, content := f.content++data.drop written } := by
  induction results generalizing f written with
  | nil =>
    have hwritten : written = data.length := by
      rw [Completes] at h
      omega
    rw [appendLoop,if_neg (by omega),hwritten,List.drop_length,List.append_nil]
  | cons result results ih =>
    obtain ⟨n,ferror⟩ := result
    obtain ⟨hremain,hn,hferror,hrest⟩ := h
    rw [Nat.sub_sub] at hrest
    have hdrop : (data.drop written).take n++data.drop (written+n) = data.drop written := by
      rw [← List.drop_drop,List.take_append_drop]
    rw [appendLoop,if_pos (by omega)]
    by_cases hshort : n ≠ data.length-written
    · have hzero := hferror hshort
      simp only [if_pos hshort,hzero,ne_eq,not_true_eq_false,if_false]
      rw [ih rfl (by omega) hrest,List.append_assoc,hdrop,herr]
    · simp only [if_neg hshort]
      rw [ih (f:={ f with content := f.content++(data.drop written).take n }) herr (by omega) hrest,List.append_assoc,
        hdrop]

theorem append_eq {results : List (ℕ × ℤ)} (herr : f.err = 0) (h : Completes data.length results) :
    f.append data results =
      some { f with writtenBytes := f.writtenBytes+data.length, content := f.content++data } := by
  rw [append,if_neg (not_not.mpr herr),appendLoop_eq herr (Nat.zero_le _) h,List.drop_zero]

end AppendFile

/-- `closed` are the files that were open before, and `reads` counts the uses of the clock. -/
structure LogFile where
  startOfPeriod : ℤ
  lastRoll : ℤ
  lastFlush : ℤ
  file : Option AppendFile
  closed : List AppendFile
  reads : ℕ
  deriving DecidableEq, Repr

namespace LogFile

/-- The members that do not change, the number of the process, what `time(nullptr)` gives at each
of its uses, and the `errno` of each `fopen`, or 0. -/
structure Setting where
  basename : List Byte
  rollSize : ℤ
  flushInterval : ℤ
  offset : ℤ
  pid : ℤ
  clock : ℕ → ℤ
  fopen : ℕ → ℤ

def kRollPerSeconds : ℤ := 60*60*24

/-- The division is that of C++. -/
def startOf (now : ℤ) : ℤ := now.tdiv kRollPerSeconds*kRollPerSeconds

variable (e : Setting) (l : LogFile)

/-- `time(nullptr) + offset_`. -/
def Setting.now (k : ℕ) : ℤ := e.clock k+e.offset

def opened : List AppendFile := l.closed++l.file.toList

/-- `rollFile`, with the name that `getLogFileName` makes for `now`. -/
def rollFile : LogFile × Bool :=
  let now := e.now l.reads
  let filename := fileName e.basename e.pid now
  let start := startOf now
  let l := { l with reads := l.reads+1 }
  if now > l.lastRoll then
    ({ l with
      lastRoll := now
      lastFlush := now
      startOfPeriod := start
      file := some (.create filename now (e.fopen l.opened.length))
      closed := l.opened },true)
  else (l,false)

/-- The constructor. -/
def create : LogFile := (rollFile e ⟨0,0,0,none,[],0⟩).1

/-- `none` is a null `file_`, or an `append` that does not come to its end. -/
def append_unlocked (logline : List Byte) (results : List (ℕ × ℤ)) : Option LogFile :=
  l.file.bind fun file =>
    (file.append logline results).map fun file =>
      let l := { l with file := some file }
      if file.writtenBytes > e.rollSize then (l.rollFile e).1
      else
        let now := e.now l.reads
        let l := { l with reads := l.reads+1 }
        let thisPeriod := startOf now
        if thisPeriod ≠ l.startOfPeriod then (l.rollFile e).1
        -- `flush` passes on bytes that `content` has already.
        else if now-l.lastFlush > e.flushInterval then { l with lastFlush := now }
        else l

/-- The calls, with the results of the writes of an `append`. Those of `fflush` and `fclose` are left out. -/
inductive Label
  | append (logline : List Byte) (results : List (ℕ × ℤ))
  | flush
  | rollFile
  deriving DecidableEq, Repr

def step : LogFile → Label → Option LogFile
  | l, .append logline results => l.append_unlocked e logline results
  | l, .flush => l.file.map fun _ => l
  | l, .rollFile => some (l.rollFile e).1

/-- The record of a call. -/
def Label.loglines : Label → List (List Byte)
  | .append logline _ => [logline]
  | _ => []

def Label.Succeeds : Label → Prop
  | .append logline results => AppendFile.Completes logline.length results
  | _ => True

def lastReading : ℤ := e.now (l.reads-1)

def dayOf (now : ℤ) : ℤ := now/kRollPerSeconds*kRollPerSeconds

/-- The clock does not go back and is positive, and every file can be opened. -/
structure Setting.Steady : Prop where
  monotone : ∀ j k, j ≤ k → e.clock j ≤ e.clock k
  positive : ∀ k, 0 < e.now k
  opens : ∀ k, e.fopen k = 0

/-- A file of the log that holds the records given, each whole. -/
structure Holds (f : AppendFile) (records : List (List Byte)) : Prop where
  err : f.err = 0
  content : f.content = records.flatten
  writtenBytes : f.writtenBytes = f.content.length
  filename : f.filename = fileName e.basename e.pid f.openedAt
  openedAt : 0 < f.openedAt

/-- The invariant, with the records of the closed files and of the current one. -/
structure Sound (before : List (List (List Byte))) (current : List (List Byte)) : Prop where
  closed : List.Forall₂ (Holds e) l.closed before
  file : ∃ f, l.file = some f ∧ Holds e f current ∧ f.openedAt = l.lastRoll
  increasing : l.closed.Pairwise fun f g => f.openedAt < g.openedAt
  older : ∀ f ∈ l.closed, f.openedAt < l.lastRoll
  period : l.startOfPeriod = dayOf l.lastRoll
  read : 0 < l.reads
  lastRoll : l.lastRoll ≤ l.lastReading e

theorem startOf_eq {now : ℤ} (h : 0 < now) : startOf now = dayOf now := by
  rw [startOf,dayOf,Int.tdiv_eq_ediv_of_nonneg (Int.le_of_lt h)]

variable {e l} {before : List (List (List Byte))} {current : List (List Byte)}

theorem Setting.Steady.now_le (h : e.Steady) {j k : ℕ} (hjk : j ≤ k) : e.now j ≤ e.now k :=
  Int.add_le_add_right (h.monotone j k hjk) e.offset

theorem holds_create (h : e.Steady) (j k : ℕ) :
    Holds e (.create (fileName e.basename e.pid (e.now k)) (e.now k) (e.fopen j)) [] :=
  ⟨h.opens j,rfl,rfl,rfl,h.positive k⟩

theorem Sound.holds (h : l.Sound e before current) : List.Forall₂ (Holds e) l.opened (before++[current]) := by
  obtain ⟨f,hfile,hholds,-⟩ := h.file
  rw [opened,hfile]
  exact List.rel_append h.closed (.cons hholds .nil)

theorem Sound.opened_increasing (h : l.Sound e before current) :
    l.opened.Pairwise fun f g => f.openedAt < g.openedAt := by
  obtain ⟨f,hfile,-,hopened⟩ := h.file
  rw [opened,hfile]
  refine List.pairwise_append.mpr ⟨h.increasing,List.pairwise_singleton _ _,fun g hg f' hf' => ?_⟩
  rw [List.mem_singleton.mp hf',hopened]
  exact h.older g hg

theorem Sound.openedAt_le (h : l.Sound e before current) : ∀ f ∈ l.opened, f.openedAt ≤ l.lastRoll := by
  obtain ⟨f,hfile,-,hopened⟩ := h.file
  rw [opened,hfile]
  intro g hg
  rcases List.mem_append.mp hg with hg | hg
  · exact Int.le_of_lt (h.older g hg)
  · rw [List.mem_singleton.mp hg,hopened]

/-- `rollFile` opens a file, or the clock still shows the second of the last roll. -/
theorem Sound.rollFile (h : l.Sound e before current) (hsteady : e.Steady) :
    ∃ before' current', (l.rollFile e).1.Sound e before' current' ∧
      before'.flatten++current' = before.flatten++current ∧
      (l.rollFile e).1.lastRoll = (l.rollFile e).1.lastReading e := by
  have hmono : l.lastReading e ≤ e.now l.reads := hsteady.now_le (Nat.sub_le _ _)
  have hlast := h.lastRoll
  rw [LogFile.rollFile]
  simp only
  split
  · rename_i hroll
    have holder : ∀ f ∈ l.opened, f.openedAt < e.now l.reads := fun f hf => lt_of_le_of_lt (h.openedAt_le f hf) hroll
    exact ⟨before++[current],[],⟨h.holds,⟨_,rfl,holds_create hsteady _ _,rfl⟩,h.opened_increasing,holder,
      startOf_eq (hsteady.positive _),Nat.succ_pos _,Int.le_refl _⟩,by simp,rfl⟩
  · rename_i hroll
    have hsame : l.lastRoll = e.now l.reads := by omega
    exact ⟨before,current,⟨h.closed,h.file,h.increasing,h.older,h.period,Nat.succ_pos _,Int.le_of_eq hsame⟩,rfl,hsame⟩

theorem rollFile_reads : (l.rollFile e).1.reads = l.reads+1 := by
  rw [LogFile.rollFile]
  simp only
  split <;> rfl

theorem Sound.append (h : l.Sound e before current) {f : AppendFile} (hfile : l.file = some f)
    (logline : List Byte) :
    Sound e { l with file := some { f with
      writtenBytes := f.writtenBytes+logline.length, content := f.content++logline } } before (current++[logline]) := by
  obtain ⟨f',hfile',hholds,hopened⟩ := h.file
  obtain rfl : f = f' := Option.some.inj (hfile.symm.trans hfile')
  refine ⟨h.closed,⟨_,rfl,⟨hholds.err,?_,?_,hholds.filename,hholds.openedAt⟩,hopened⟩,h.increasing,h.older,h.period,
    h.read,h.lastRoll⟩
  · rw [hholds.content,List.flatten_append,List.flatten_singleton]
  · rw [hholds.writtenBytes,List.length_append,Nat.cast_add]

theorem Sound.reading (h : l.Sound e before current) (hsteady : e.Steady) :
    Sound e { l with reads := l.reads+1 } before current :=
  ⟨h.closed,h.file,h.increasing,h.older,h.period,Nat.succ_pos _,
    le_trans h.lastRoll (hsteady.now_le (Nat.sub_le _ _))⟩

theorem Sound.flush (h : l.Sound e before current) (now : ℤ) : Sound e { l with lastFlush := now } before current :=
  ⟨h.closed,h.file,h.increasing,h.older,h.period,h.read,h.lastRoll⟩

/-- What holds when `append_unlocked` returns. -/
structure Settled (e : Setting) (l : LogFile) : Prop where
  period : l.startOfPeriod = dayOf (l.lastReading e)
  size : ∀ f ∈ l.file, e.rollSize < f.writtenBytes → f.openedAt = l.lastReading e

theorem Sound.settled (h : l.Sound e before current) (hlast : l.lastRoll = l.lastReading e) : l.Settled e := by
  obtain ⟨f,hfile,-,hopened⟩ := h.file
  refine ⟨by rw [h.period,hlast],fun f' hf' _ => ?_⟩
  rw [hfile,Option.mem_some_iff] at hf'
  rw [← hf',hopened,hlast]

/-- `append_unlocked` rolls the file, or leaves it within its size and its day. -/
theorem Sound.append_unlocked (h : l.Sound e before current) (hsteady : e.Steady) {logline : List Byte}
    {results : List (ℕ × ℤ)} (hresults : AppendFile.Completes logline.length results) :
    ∃ l' before' current', l.append_unlocked e logline results = some l' ∧ l'.Sound e before' current' ∧
      before'.flatten++current' = before.flatten++(current++[logline]) ∧ l.reads < l'.reads ∧ l'.Settled e := by
  obtain ⟨f,hfile,hholds,-⟩ := h.file
  have happended := h.append hfile logline
  have hreading := happended.reading hsteady
  rw [LogFile.append_unlocked,hfile,Option.bind_some,AppendFile.append_eq hholds.err hresults,Option.map_some]
  simp only
  split
  · obtain ⟨before',current',hsound,hrecords,hlast⟩ := happended.rollFile hsteady
    exact ⟨_,before',current',rfl,hsound,hrecords,by rw [rollFile_reads]; exact Nat.lt_succ_self _,hsound.settled hlast⟩
  · rename_i hsize
    split
    · obtain ⟨before',current',hsound,hrecords,hlast⟩ := hreading.rollFile hsteady
      refine ⟨_,before',current',rfl,hsound,hrecords,?_,hsound.settled hlast⟩
      rw [rollFile_reads]
      exact Nat.lt_succ_of_lt (Nat.lt_succ_self _)
    · rename_i hperiod
      have hday : l.startOfPeriod = dayOf (e.now l.reads) := by
        rw [← startOf_eq (hsteady.positive _)]
        exact (not_not.mp hperiod).symm
      have hsmall : ∀ f' ∈ some { f with
          writtenBytes := f.writtenBytes+logline.length, content := f.content++logline },
          e.rollSize < f'.writtenBytes → f'.openedAt = e.now l.reads := by
        intro f' hf' hlarge
        rw [← Option.mem_some_iff.mp hf'] at hlarge
        exact absurd hlarge hsize
      split
      · exact ⟨_,before,current++[logline],rfl,hreading.flush _,rfl,Nat.lt_succ_self _,hday,hsmall⟩
      · exact ⟨_,before,current++[logline],rfl,hreading,rfl,Nat.lt_succ_self _,hday,hsmall⟩

theorem Sound.step (h : l.Sound e before current) (hsteady : e.Steady) {a : Label} (ha : a.Succeeds) :
    ∃ l' before' current', LogFile.step e l a = some l' ∧ l'.Sound e before' current' ∧
      before'.flatten++current' = before.flatten++current++a.loglines := by
  cases a with
  | append logline results =>
    obtain ⟨l',before',current',hstep,hsound,hrecords,-⟩ := h.append_unlocked hsteady ha
    exact ⟨l',before',current',hstep,hsound,by rw [hrecords,List.append_assoc]; rfl⟩
  | flush =>
    obtain ⟨f,hfile,-⟩ := h.file
    exact ⟨l,before,current,by rw [LogFile.step,hfile,Option.map_some],h,(List.append_nil _).symm⟩
  | rollFile =>
    obtain ⟨before',current',hsound,hrecords,-⟩ := h.rollFile hsteady
    exact ⟨_,before',current',rfl,hsound,by rw [hrecords]; exact (List.append_nil _).symm⟩

theorem sound_create (hsteady : e.Steady) : (create e).Sound e [] [] := by
  have hnow := hsteady.positive 0
  rw [create,LogFile.rollFile]
  simp only
  rw [if_pos hnow]
  exact ⟨.nil,⟨_,rfl,holds_create hsteady _ _,rfl⟩,.nil,by simp [opened],startOf_eq hnow,Nat.succ_pos _,Int.le_refl _⟩

theorem sound_run (hsteady : e.Steady) (labels : List Label) (hlabels : ∀ a ∈ labels, a.Succeeds) :
    ∃ l before current, exec (LogFile.step e) (create e) labels = some l ∧ l.Sound e before current ∧
      before.flatten++current = labels.flatMap Label.loglines := by
  induction labels using List.reverseRecOn with
  | nil => exact ⟨_,[],[],rfl,sound_create hsteady,rfl⟩
  | append_singleton labels a ih =>
    obtain ⟨l,before,current,hrun,hsound,hrecords⟩ := ih fun b hb => hlabels b (List.mem_append_left _ hb)
    obtain ⟨l',before',current',hstep,hsound',hrecords'⟩ :=
      hsound.step hsteady (hlabels a (List.mem_append_right _ (List.mem_singleton_self a)))
    refine ⟨l',before',current',?_,hsound',?_⟩
    · rw [exec_append_singleton,hrun,Option.bind_some,hstep]
    · rw [hrecords',hrecords,List.flatMap_append,List.flatMap_singleton]

theorem Sound.names_nodup (h : l.Sound e before current) : (l.opened.map AppendFile.filename).Nodup := by
  have hnamed : ∀ f ∈ l.opened, 0 < f.openedAt ∧ f.filename = fileName e.basename e.pid f.openedAt :=
    ((List.forall₂_and_left _ _).mp (h.holds.imp fun f _ hf => ⟨⟨hf.openedAt,hf.filename⟩,hf⟩)).1
  rw [List.Nodup,List.pairwise_map]
  refine h.opened_increasing.imp_of_mem fun {f g} hf hg hlt hsame => ?_
  obtain ⟨hfpos,hfname⟩ := hnamed f hf
  obtain ⟨hgpos,hgname⟩ := hnamed g hg
  rw [hfname,hgname] at hsame
  exact absurd (fileName_inj (Int.le_of_lt hfpos) (Int.le_of_lt hgpos) hsame) (ne_of_lt hlt)

/-- For every sequence of calls with writes that do not fail, under a clock that does not go back:
the calls return, the files hold the records, each whole, in the order of the calls; no two files
have one name, as each is opened later than those before; the period starts with the day of the
last roll; and when an `append_unlocked` has returned, that is the day of the last reading it
made, and a current file beyond the size was opened within the second of that reading. -/
theorem rolls_apart (e : Setting) (hsteady : e.Steady) (labels : List Label) (hlabels : ∀ a ∈ labels, a.Succeeds) :
    ∃ l, exec (LogFile.step e) (create e) labels = some l ∧
      (∃ parts, parts.flatten = labels.flatMap Label.loglines ∧
        List.Forall₂ (fun f records => f.content = records.flatten) l.opened parts) ∧
      (l.opened.map AppendFile.filename).Nodup ∧
      (l.opened.Pairwise fun f g => f.openedAt < g.openedAt) ∧ (∃ f, l.file = some f ∧ f.openedAt = l.lastRoll) ∧
      l.startOfPeriod = dayOf l.lastRoll ∧
      ∀ front logline results, labels = front++[.append logline results] →
        (∃ l₀, exec (LogFile.step e) (create e) front = some l₀ ∧ l₀.reads < l.reads) ∧
          l.startOfPeriod = dayOf (l.lastReading e) ∧
          ∀ f ∈ l.file, e.rollSize < f.writtenBytes → f.openedAt = l.lastReading e := by
  obtain ⟨l,before,current,hrun,hsound,hrecords⟩ := sound_run hsteady labels hlabels
  obtain ⟨f,hfile,-,hopened⟩ := hsound.file
  refine ⟨l,hrun,⟨before++[current],?_,hsound.holds.imp fun f records hf => hf.content⟩,hsound.names_nodup,
    hsound.opened_increasing,⟨f,hfile,hopened⟩,hsound.period,?_⟩
  · rw [List.flatten_append,List.flatten_singleton,hrecords]
  · rintro front logline results rfl
    obtain ⟨l₀,before₀,current₀,hrun₀,hsound₀,-⟩ :=
      sound_run hsteady front fun b hb => hlabels b (List.mem_append_left _ hb)
    obtain ⟨l',-,-,hstep,-,-,hreads,hsettled⟩ := hsound₀.append_unlocked hsteady
      (hlabels (.append logline results) (List.mem_append_right _ (List.mem_singleton_self _)))
    obtain rfl : l' = l := by
      rw [exec_append_singleton,hrun₀,Option.bind_some] at hrun
      exact Option.some.inj (hstep.symm.trans hrun)
    exact ⟨⟨l₀,hrun₀,hreads⟩,hsettled.period,hsettled.size⟩

/-- The clock of a process that starts in the last second of a day. -/
def lastSecond : Setting where
  basename := text "log"
  rollSize := 3
  flushInterval := 3
  offset := 0
  pid := 7
  clock k := if k < 3 then 86399 else 86400
  fopen _ := 0

theorem lastSecond_steady : lastSecond.Steady where
  monotone j k hjk := by
    show (if j < 3 then 86399 else 86400 : ℤ) ≤ if k < 3 then 86399 else 86400
    split <;> split <;> omega
  positive k := by
    show (0 : ℤ) < (if k < 3 then 86399 else 86400)+0
    split <;> decide
  opens _ := rfl

/-- Both records are beyond the size: the first roll is refused, as its second has a file. -/
def twoRecords : List Label := [.append (text "abcd") [(4,0)],.append (text "ef") [(1,0),(1,0)],.append [] []]

theorem rolls_apart_lastSecond : ∃ l, exec (LogFile.step lastSecond) (create lastSecond) twoRecords = some l ∧
    (l.opened.map AppendFile.filename).Nodup ∧ l.opened.map AppendFile.content = [text "abcdef",[]] := by
  have hlabels : ∀ a ∈ twoRecords, a.Succeeds := by
    simp [twoRecords,Label.Succeeds,AppendFile.Completes,text]
  obtain ⟨l,hrun,-,hnames,-⟩ := rolls_apart lastSecond lastSecond_steady twoRecords hlabels
  have hcontent : (exec (LogFile.step lastSecond) (create lastSecond) twoRecords).map
      (fun l => l.opened.map AppendFile.content) = some [text "abcdef",[]] := by decide
  rw [hrun,Option.map_some,Option.some.injEq] at hcontent
  exact ⟨l,hrun,hnames,hcontent⟩

end LogFile
end GgLib
