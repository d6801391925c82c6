import GgLib.LogFile

/-! `LogFile` with calls of `fopen` and of `fwrite_unlocked` that fail: an error costs the rest of its file, and no
other. -/
namespace GgLib

open LabelledSystem

namespace AppendFile

/-- The results with which the loop of `append` ends: the data is written, or `ferror` is set behind a short write. -/
def Ends : ℕ → List (ℕ × ℤ) → Prop
  | remain, [] => remain = 0
  | remain, (n,ferror)::results =>
    0 < remain ∧ n ≤ remain ∧ if n ≠ remain ∧ ferror ≠ 0 then results = [] else Ends (remain-n) results

instance decidableEnds : (remain : ℕ) → (results : List (ℕ × ℤ)) → Decidable (Ends remain results)
  | remain, [] => inferInstanceAs (Decidable (remain = 0))
  | remain, (n,ferror)::results =>
    have := decidableEnds (remain-n) results
    inferInstanceAs (Decidable (0 < remain ∧ n ≤ remain ∧ if n ≠ remain ∧ ferror ≠ 0 then results = [] else _))

/-- The answers of `fwrite_unlocked` and `ferror`, each to what remains. -/
def Answered (fwrite : ℕ → ℕ → ℕ × ℤ) : ℕ → ℕ → List (ℕ × ℤ) → Prop
  | _, _, [] => True
  | k, remain, result::results => fwrite k remain = result ∧ Answered fwrite (k+1) (remain-result.1) results

theorem ends_of_answers {fwrite : ℕ → ℕ → ℕ × ℤ} (hle : ∀ k remain, (fwrite k remain).1 ≤ remain)
    (hzero : ∀ k remain, (fwrite k remain).1 = 0 → (fwrite k remain).2 ≠ 0) (k remain : ℕ) :
    ∃ results, Answered fwrite k remain results ∧ Ends remain results := by
  induction remain using Nat.strong_induction_on generalizing k with
  | _ remain ih =>
    rcases Nat.eq_zero_or_pos remain with hremain | hremain
    · exact ⟨[],trivial,hremain⟩
    · by_cases hstop : (fwrite k remain).1 ≠ remain ∧ (fwrite k remain).2 ≠ 0
      · refine ⟨[fwrite k remain],⟨rfl,trivial⟩,hremain,hle k remain,?_⟩
        rw [if_pos hstop]
      · have htaken : 0 < (fwrite k remain).1 := by
          refine Nat.pos_of_ne_zero fun hnone => hstop ⟨?_,hzero k remain hnone⟩
          rw [hnone]
          exact Nat.ne_of_lt hremain
        obtain ⟨results,hanswered,hends⟩ := ih (remain-(fwrite k remain).1) (by omega) (k+1)
        refine ⟨fwrite k remain::results,⟨rfl,hanswered⟩,hremain,hle k remain,?_⟩
        rw [if_neg hstop]
        exact hends

/-- What the loop leaves: the name and the time, and a part of the data, all of it unless there is an error. -/
structure Adds (f f' : AppendFile) (data : List Byte) : Prop where
  filename : f'.filename = f.filename
  openedAt : f'.openedAt = f.openedAt
  content : ∃ part, part <+: data ∧ f'.content = f.content++part ∧ (f'.err = 0 → part = data)

variable {f f' : AppendFile} {data : List Byte}

theorem Adds.front {front rest : List Byte} {err : ℤ} (h : Adds { f with content := f.content++front, err } f' rest) :
    Adds f f' (front++rest) := by
  obtain ⟨hname,htime,part,hpart,hcontent,hzero⟩ := h
  refine ⟨hname,htime,front++part,(List.prefix_append_right_inj front).mpr hpart,?_,fun hz => by rw [hzero hz]⟩
  rw [hcontent,List.append_assoc]

theorem appendLoop_adds {written : ℕ} {results : List (ℕ × ℤ)} (herr : f.err = 0) (hle : written ≤ data.length)
    (h : Ends (data.length-written) results) :
    ∃ f', appendLoop data f written results = some f' ∧ Adds f f' (data.drop written) := by
  induction results generalizing f written with
  | nil =>
    have hwritten : written = data.length := by
      rw [Ends] at h
      omega
    refine ⟨{ f with writtenBytes := f.writtenBytes+written },?_,rfl,rfl,[],List.nil_prefix,?_,fun _ => ?_⟩
    · rw [appendLoop,if_neg (by omega)]
    · rw [List.append_nil]
    · rw [hwritten,List.drop_length]
  | cons result results ih =>
    obtain ⟨n,ferror⟩ := result
    obtain ⟨hremain,hn,hrest⟩ := h
    have hlt : written < data.length := by omega
    have hdrop : (data.drop written).take n++data.drop (written+n) = data.drop written := by
      rw [← List.drop_drop,List.take_append_drop]
    rw [appendLoop,if_pos hlt]
    by_cases hshort : n ≠ data.length-written
    · simp only [if_pos hshort]
      by_cases hferror : ferror ≠ 0
      · -- The bytes in front of the error are a part of the data.
        rw [if_pos hferror]
        exact ⟨_,rfl,rfl,rfl,_,List.take_prefix n _,rfl,fun hzero => absurd hzero hferror⟩
      · rw [if_neg (fun hboth => hferror hboth.2),Nat.sub_sub] at hrest
        rw [if_neg hferror]
        obtain ⟨f',hloop,hadds⟩ := ih (f:={ f with content := f.content++(data.drop written).take n, err := ferror })
          (not_not.mp hferror) (by omega) hrest
        have hall := hadds.front
        rw [hdrop] at hall
        exact ⟨f',hloop,hall⟩
    · simp only [if_neg hshort]
      rw [if_neg (fun hboth => hshort hboth.1),Nat.sub_sub] at hrest
      obtain ⟨f',hloop,hadds⟩ := ih (f:={ f with content := f.content++(data.drop written).take n }) herr (by omega)
        hrest
      have hall := hadds.front
      rw [hdrop] at hall
      exact ⟨f',hloop,hall⟩

/-- The file holds the records that it was given, or up to an error. -/
structure Guards (f : AppendFile) (given : List (List Byte)) : Prop where
  content : f.content <+: given.flatten
  whole : f.err = 0 → f.content = given.flatten

theorem guards_create (filename : List Byte) (openedAt err : ℤ) : (create filename openedAt err).Guards [] :=
  ⟨List.prefix_rfl,fun _ => rfl⟩

theorem Guards.append {given : List (List Byte)} (h : f.Guards given) {results : List (ℕ × ℤ)}
    (hends : Ends data.length results) :
    ∃ f', f.append data results = some f' ∧ f'.filename = f.filename ∧ f'.openedAt = f.openedAt ∧
      f'.Guards (given++[data]) := by
  have hflat : (given++[data]).flatten = given.flatten++data := by simp
  rw [AppendFile.append]
  split
  · rename_i herr
    refine ⟨f,rfl,rfl,rfl,?_,fun hzero => absurd hzero herr⟩
    rw [hflat]
    exact h.content.trans (List.prefix_append _ _)
  · rename_i herr
    have hzero : f.err = 0 := not_not.mp herr
    obtain ⟨f',hloop,hname,htime,part,hpart,hcontent,hwhole⟩ := appendLoop_adds hzero (Nat.zero_le _) hends
    rw [h.whole hzero] at hcontent
    refine ⟨f',hloop,hname,htime,?_,fun hz => ?_⟩
    · rw [hflat,hcontent]
      exact (List.prefix_append_right_inj _).mpr hpart
    · rw [hflat,hcontent,hwhole hz,List.drop_zero]

end AppendFile

namespace LogFile

open AppendFile (Guards)

variable (e : Setting) (l : LogFile)

/-- The clock does not go back and is positive. -/
structure Setting.Ticks : Prop where
  monotone : ∀ j k, j ≤ k → e.clock j ≤ e.clock k
  positive : ∀ k, 0 < e.now k

/-- The results let the loop of `append` come to its end. -/
def Label.Ends : Label → Prop
  | .append logline results => AppendFile.Ends logline.length results
  | _ => True

instance (a : Label) : Decidable a.Ends :=
  match a with
  | .append logline results => AppendFile.decidableEnds logline.length results
  | .flush => isTrue trivial
  | .rollFile => isTrue trivial

/-- When and under which name the files were opened. -/
def dates : List (ℤ × List Byte) := l.opened.map fun f => (f.openedAt,f.filename)

/-- The invariant, with the records that were given to the closed files and to the current one. -/
structure Filed (before : List (List (List Byte))) (current : List (List Byte)) : Prop where
  closed : List.Forall₂ Guards l.closed before
  file : ∃ f, l.file = some f ∧ f.Guards current ∧ f.openedAt = l.lastRoll
  named : ∀ d ∈ l.dates, 0 < d.1 ∧ d.2 = fileName e.basename e.pid d.1
  increasing : l.dates.Pairwise fun d d' => d.1 < d'.1
  period : l.startOfPeriod = dayOf l.lastRoll
  read : 0 < l.reads
  lastRoll : l.lastRoll ≤ l.lastReading e

variable {e l} {before : List (List (List Byte))} {current : List (List Byte)}

theorem Setting.Ticks.now_le (h : e.Ticks) {j k : ℕ} (hjk : j ≤ k) : e.now j ≤ e.now k :=
  Int.add_le_add_right (h.monotone j k hjk) e.offset

theorem dates_of_file {f : AppendFile} (hfile : l.file = some f) :
    l.dates = l.closed.map (fun f => (f.openedAt,f.filename))++[(f.openedAt,f.filename)] := by
  rw [dates,opened,hfile,Option.toList_some,List.map_append,List.map_singleton]

theorem Filed.files (h : l.Filed e before current) : List.Forall₂ Guards l.opened (before++[current]) := by
  obtain ⟨f,hfile,hguards,-⟩ := h.file
  rw [opened,hfile]
  exact List.rel_append h.closed (.cons hguards .nil)

theorem Filed.dates_le (h : l.Filed e before current) : ∀ d ∈ l.dates, d.1 ≤ l.lastRoll := by
  obtain ⟨f,hfile,-,hopened⟩ := h.file
  have hincreasing := h.increasing
  rw [dates_of_file hfile] at hincreasing ⊢
  intro d hd
  rcases List.mem_append.mp hd with hd | hd
  · have hlt := (List.pairwise_append.mp hincreasing).2.2 d hd _ (List.mem_singleton_self _)
    rw [← hopened]
    exact Int.le_of_lt hlt
  · rw [List.mem_singleton.mp hd,hopened]

/-- `rollFile` opens a file, also one that cannot be opened, or the clock still shows the second of the last roll. -/
theorem Filed.rollFile (h : l.Filed e before current) (hticks : e.Ticks) :
    ∃ before' current', (l.rollFile e).1.Filed e before' current' ∧
      before'.flatten++current' = before.flatten++current ∧
      (l.rollFile e).1.lastRoll = (l.rollFile e).1.lastReading e := by
  have hmono : l.lastReading e ≤ e.now l.reads := hticks.now_le (Nat.sub_le _ _)
  have hlast := h.lastRoll
  rw [LogFile.rollFile]
  simp only
  split
  · rename_i hroll
    refine ⟨before++[current],[],⟨h.files,⟨_,rfl,AppendFile.guards_create _ _ _,rfl⟩,?_,?_,
      startOf_eq (hticks.positive _),Nat.succ_pos _,Int.le_refl _⟩,by simp,rfl⟩
    · rw [dates_of_file rfl]
      intro d hd
      rcases List.mem_append.mp hd with hd | hd
      · exact h.named d hd
      · rw [List.mem_singleton.mp hd]
        exact ⟨hticks.positive _,rfl⟩
    · rw [dates_of_file rfl]
      refine List.pairwise_append.mpr ⟨h.increasing,List.pairwise_singleton _ _,fun d hd d' hd' => ?_⟩
      rw [List.mem_singleton.mp hd']
      exact lt_of_le_of_lt (h.dates_le d hd) hroll
  · rename_i hroll
    have hsame : l.lastRoll = e.now l.reads := by omega
    exact ⟨before,current,⟨h.closed,h.file,h.named,h.increasing,h.period,Nat.succ_pos _,Int.le_of_eq hsame⟩,rfl,hsame⟩

theorem Filed.reading (h : l.Filed e before current) (hticks : e.Ticks) :
    Filed e { l with reads := l.reads+1 } before current :=
  ⟨h.closed,h.file,h.named,h.increasing,h.period,Nat.succ_pos _,le_trans h.lastRoll (hticks.now_le (Nat.sub_le _ _))⟩

theorem Filed.flush (h : l.Filed e before current) (now : ℤ) : Filed e { l with lastFlush := now } before current :=
  ⟨h.closed,h.file,h.named,h.increasing,h.period,h.read,h.lastRoll⟩

/-- The record counts as given to the current file, also when this has an error. -/
theorem Filed.given (h : l.Filed e before current) {logline : List Byte} {results : List (ℕ × ℤ)}
    (hends : AppendFile.Ends logline.length results) :
    ∃ f f', l.file = some f ∧ f.append logline results = some f' ∧
      Filed e { l with file := some f' } before (current++[logline]) := by
  obtain ⟨f,hfile,hguards,hopened⟩ := h.file
  obtain ⟨f',happend,hname,htime,hguards'⟩ := hguards.append hends
  have hdates : dates { l with file := some f' } = l.dates := by
    rw [dates_of_file hfile,dates_of_file rfl,hname,htime]
  exact ⟨f,f',hfile,happend,h.closed,⟨f',rfl,hguards',htime.trans hopened⟩,by rw [hdates]; exact h.named,
    by rw [hdates]; exact h.increasing,h.period,h.read,h.lastRoll⟩

/-- An `append_unlocked` returns, and the file that it leaves is one of the day of its last reading of the clock. -/
theorem Filed.append_unlocked (h : l.Filed e before current) (hticks : e.Ticks) {logline : List Byte}
    {results : List (ℕ × ℤ)} (hends : AppendFile.Ends logline.length results) :
    ∃ l' before' current', l.append_unlocked e logline results = some l' ∧ l'.Filed e before' current' ∧
      before'.flatten++current' = before.flatten++(current++[logline]) ∧ l.reads < l'.reads ∧
      dayOf l'.lastRoll = dayOf (l'.lastReading e) := by
  obtain ⟨f,f',hfile,happend,hgiven⟩ := h.given hends
  have hreading := hgiven.reading hticks
  rw [LogFile.append_unlocked,hfile,Option.bind_some,happend,Option.map_some]
  simp only
  split
  · obtain ⟨before',current',hfiled,hrecords,hlast⟩ := hgiven.rollFile hticks
    exact ⟨_,before',current',rfl,hfiled,hrecords,by rw [rollFile_reads]; exact Nat.lt_succ_self _,by rw [hlast]⟩
  · split
    · obtain ⟨before',current',hfiled,hrecords,hlast⟩ := hreading.rollFile hticks
      refine ⟨_,before',current',rfl,hfiled,hrecords,?_,by rw [hlast]⟩
      rw [rollFile_reads]
      exact Nat.lt_succ_of_lt (Nat.lt_succ_self _)
    · rename_i hperiod
      have hday : dayOf l.lastRoll = dayOf (e.now l.reads) := by
        rw [← h.period,← startOf_eq (hticks.positive _)]
        exact (not_not.mp hperiod).symm
      split
      · exact ⟨_,before,current++[logline],rfl,hreading.flush _,rfl,Nat.lt_succ_self _,hday⟩
      · exact ⟨_,before,current++[logline],rfl,hreading,rfl,Nat.lt_succ_self _,hday⟩

theorem Filed.step (h : l.Filed e before current) (hticks : e.Ticks) {a : Label} (ha : a.Ends) :
    ∃ l' before' current', LogFile.step e l a = some l' ∧ l'.Filed e before' current' ∧
      before'.flatten++current' = before.flatten++current++a.loglines := by
  cases a with
  | append logline results =>
    obtain ⟨l',before',current',hstep,hfiled,hrecords,-⟩ := h.append_unlocked hticks ha
    exact ⟨l',before',current',hstep,hfiled,by rw [hrecords,List.append_assoc]; rfl⟩
  | flush =>
    obtain ⟨f,hfile,-⟩ := h.file
    exact ⟨l,before,current,by rw [LogFile.step,hfile,Option.map_some],h,(List.append_nil _).symm⟩
  | rollFile =>
    obtain ⟨before',current',hfiled,hrecords,-⟩ := h.rollFile hticks
    exact ⟨_,before',current',rfl,hfiled,by rw [hrecords]; exact (List.append_nil _).symm⟩

theorem filed_create (hticks : e.Ticks) : (create e).Filed e [] [] := by
  have hnow := hticks.positive 0
  rw [create,LogFile.rollFile]
  simp only
  rw [if_pos hnow]
  refine ⟨.nil,⟨_,rfl,AppendFile.guards_create _ _ _,rfl⟩,?_,?_,startOf_eq hnow,Nat.succ_pos _,Int.le_refl _⟩
  · rw [dates_of_file rfl]
    intro d hd
    rw [List.mem_singleton.mp hd]
    exact ⟨hnow,rfl⟩
  · rw [dates_of_file rfl]
    exact List.pairwise_singleton _ _

theorem filed_run (hticks : e.Ticks) (labels : List Label) (hlabels : ∀ a ∈ labels, a.Ends) :
    ∃ l before current, exec (LogFile.step e) (create e) labels = some l ∧ l.Filed e before current ∧
      before.flatten++current = labels.flatMap Label.loglines := by
  induction labels using List.reverseRecOn with
  | nil => exact ⟨_,[],[],rfl,filed_create hticks,rfl⟩
  | append_singleton labels a ih =>
    obtain ⟨l,before,current,hrun,hfiled,hrecords⟩ := ih fun b hb => hlabels b (List.mem_append_left _ hb)
    obtain ⟨l',before',current',hstep,hfiled',hrecords'⟩ :=
      hfiled.step hticks (hlabels a (List.mem_append_right _ (List.mem_singleton_self a)))
    refine ⟨l',before',current',?_,hfiled',?_⟩
    · rw [exec_append_singleton,hrun,Option.bind_some,hstep]
    · rw [hrecords',hrecords,List.flatMap_append,List.flatMap_singleton]

theorem Filed.names_nodup (h : l.Filed e before current) : (l.opened.map AppendFile.filename).Nodup := by
  have hnames : l.opened.map AppendFile.filename = l.dates.map Prod.snd := by
    rw [dates,List.map_map]
    rfl
  rw [hnames,List.Nodup,List.pairwise_map]
  refine h.increasing.imp_of_mem fun {d d'} hd hd' hlt hsame => ?_
  obtain ⟨hpos,hname⟩ := h.named d hd
  obtain ⟨hpos',hname'⟩ := h.named d' hd'
  rw [hname,hname'] at hsame
  exact absurd (fileName_inj (Int.le_of_lt hpos) (Int.le_of_lt hpos') hsame) (ne_of_lt hlt)

/-- For every sequence of calls and all results of `fopen`, `fwrite_unlocked` and `ferror` with which the loops of
`append` end, under a positive clock that does not go back: the calls return, and the records go to the files in the
order of the calls. The stream of a file takes those that it was given, or their bytes up to its error, so an error
costs no other file anything; the file holds them where `fflush` and `fclose` pass them on. Also behind errors the
names differ, and when an `append_unlocked` has returned, the current file was opened on the day of the last reading
of the clock: no error stays for longer than its day. -/
theorem errors_stay_local (e : Setting) (hticks : e.Ticks) (labels : List Label) (hlabels : ∀ a ∈ labels, a.Ends) :
    ∃ l, exec (LogFile.step e) (create e) labels = some l ∧
      (∃ parts, parts.flatten = labels.flatMap Label.loglines ∧ List.Forall₂ Guards l.opened parts) ∧
      (l.opened.map AppendFile.filename).Nodup ∧
      ∀ front logline results, labels = front++[.append logline results] →
        ∃ f, l.file = some f ∧ dayOf f.openedAt = dayOf (l.lastReading e) := by
  obtain ⟨l,before,current,hrun,hfiled,hrecords⟩ := filed_run hticks labels hlabels
  refine ⟨l,hrun,⟨before++[current],?_,hfiled.files⟩,hfiled.names_nodup,?_⟩
  · rw [List.flatten_append,List.flatten_singleton,hrecords]
  · rintro front logline results rfl
    obtain ⟨l₀,before₀,current₀,hrun₀,hfiled₀,-⟩ :=
      filed_run hticks front fun b hb => hlabels b (List.mem_append_left _ hb)
    obtain ⟨l',-,-,hstep,-,-,-,hday⟩ := hfiled₀.append_unlocked hticks
      (hlabels (.append logline results) (List.mem_append_right _ (List.mem_singleton_self _)))
    have hsame : l' = l := by
      rw [exec_append_singleton,hrun₀,Option.bind_some] at hrun
      exact Option.some.inj (hstep.symm.trans hrun)
    obtain ⟨f,hfile,-,hopened⟩ := hfiled.file
    exact ⟨f,hfile,by rw [hopened,← hsame,hday]⟩

/-- A write that fails in the middle of a record, records that are lost behind it, and one on the next day. -/
def fullDisk : List Label :=
  [.append (text "abcd") [(2,28)],.append (text "ef") [(2,0)],.append (text "gh") [(2,0)],
    .append (text "ij") [(1,0),(1,0)]]

theorem errors_stay_local_fullDisk :
    ∃ l, exec (LogFile.step lastSecond) (create lastSecond) fullDisk = some l ∧
      l.opened.map AppendFile.content = [text "ab",text "ij"] ∧
      (∃ parts, parts.flatten = [text "abcd",text "ef",text "gh",text "ij"] ∧ List.Forall₂ Guards l.opened parts) ∧
      (l.opened.map AppendFile.filename).Nodup ∧
      ∃ f, l.file = some f ∧ dayOf f.openedAt = dayOf (l.lastReading lastSecond) := by
  have hticks : lastSecond.Ticks := ⟨lastSecond_steady.monotone,lastSecond_steady.positive⟩
  obtain ⟨l,hrun,hparts,hnames,hday⟩ := errors_stay_local lastSecond hticks fullDisk (by decide)
  have hcontent : (exec (LogFile.step lastSecond) (create lastSecond) fullDisk).map
      (fun l => l.opened.map AppendFile.content) = some [text "ab",text "ij"] := by
    decide
  rw [hrun,Option.map_some,Option.some.injEq] at hcontent
  exact ⟨l,hrun,hcontent,hparts,hnames,hday (fullDisk.take 3) _ _ rfl⟩

end LogFile
end GgLib
