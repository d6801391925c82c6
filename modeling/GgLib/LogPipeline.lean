import GgLib.AsyncLoggingOrder
import GgLib.LogFile

/-! The back-end of `AsyncLogging` with the `LogFile` that it writes to: the files hold whole lines, in the order of
their `append`, and the notices. -/
namespace GgLib

open LabelledSystem FixedBuffer

namespace AsyncLogging

/-- What the next step of `threadFunc` calls on `output`, with the results of the writes. -/
def calls (w : AsyncLogging) (now : List Byte) (results : List (ℕ × ℤ)) : List LogFile.Label :=
  match w.phase with
  | .testing => if w.running then [] else [.flush]
  | .dropping => if 16 < w.toWrite.length then [.append (notice now (w.toWrite.length-2)) results] else []
  | .writing (some buffer::_) => [.append buffer.data results]
  | .clearing => [.flush]
  | _ => []

/-- Behind `threadFunc`'s construction of `output`. -/
def Opened (w : AsyncLogging) : Prop :=
  match w.phase with
  | .created | .starting | .opening => False
  | _ => True

end AsyncLogging

/-- `output` is the local variable of `threadFunc`. -/
structure LogPipeline where
  async : AsyncLogging
  output : Option LogFile

namespace LogPipeline

open AsyncLogging (Batch)

def create : LogPipeline := ⟨.create,none⟩

/-- A step of `AsyncLogging`, with what the `fwrite_unlocked` calls behind it report. -/
abbrev Label := AsyncLogging.Label × List (ℕ × ℤ)

variable (e : LogFile.Setting)

/-- A step of `AsyncLogging`, and the calls that it makes on `output`. -/
def step (s : LogPipeline) (a : Label) : Option LogPipeline :=
  (s.async.step a.1).bind fun async =>
    match a.1 with
    | .advance now =>
      match s.output with
      | none => some ⟨async,if s.async.phase = .opening then some (.create e) else none⟩
      | some output => (exec (LogFile.step e) output (s.async.calls now a.2)).map fun output => ⟨async,some output⟩
    | _ => some ⟨async,s.output⟩

end LogPipeline

namespace AsyncLogging

variable {w w' : AsyncLogging}

/-- The buffers that are taken over and not yet given to `output`. -/
def todo (w : AsyncLogging) : List (List Byte) :=
  match w.phase with
  | .writing todo => todo.map bytes
  | _ => []

/-- The buffers of which it is not decided what is written. -/
def loose (w : AsyncLogging) : List (List Byte) :=
  (match w.phase with
  | .dropping => w.toWrite.map bytes
  | _ => [])++w.buffers.map bytes++[bytes w.currentBuffer]

def Batch.records (b : Batch) : List (List Byte) := if 16 < b.pieces.length then b.notice::b.pieces.take 2 else b.pieces

/-- What a step of the back-end does: it takes over batches, puts an empty buffer behind the others, and what it
gives to `output` are the next records. -/
structure Turn (w w' : AsyncLogging) (now : List Byte) (results : List (ℕ × ℤ)) (bs : List Batch)
    (fresh : List (List Byte)) : Prop where
  batches : w'.batches = w.batches++bs
  empty : fresh = [] ∨ fresh = [[]]
  loose : w.loose++fresh = bs.flatMap Batch.pieces++w'.loose
  records : (w.calls now results).flatMap LogFile.Label.loglines++w'.todo = w.todo++bs.flatMap Batch.records
  opened : w'.Opened ↔ w.Opened ∨ w.phase = .opening

theorem phase_of_not_opened (h : ¬ w.Opened) : w.phase = .created ∨ w.phase = .starting ∨ w.phase = .opening := by
  unfold Opened at h
  split at h
  · exact .inl ‹_›
  · exact .inr (.inl ‹_›)
  · exact .inr (.inr ‹_›)
  · exact absurd trivial h

theorem swap_turn (hspare : w.Buffer1 = some .empty ∧ w.Buffer2 = some .empty ∧ w.toWrite = [])
    (hphase : w.phase = .locking ∨ w.phase = .waiting) (now : List Byte) (results : List (ℕ × ℤ)) :
    Turn w w.swap now results [] [[]] := by
  obtain ⟨hfirst,-,htoWrite⟩ := hspare
  obtain ⟨nextBuffer,Buffer2,-,heq⟩ := swap_cases w
  rw [heq]
  rcases hphase with hphase | hphase <;>
    exact ⟨by simp,.inr rfl,by simp [loose,hphase,htoWrite,hfirst,bytes,FixedBuffer.empty],
      by simp [calls,todo,hphase],by simp [Opened,hphase]⟩

/-- A step that leaves the batches, the buffers and the lists of the producers where they are. -/
theorem still_turn (latch : ℕ) (Buffer1 Buffer2 : BufferPtr) (toWrite : List BufferPtr) (output : List Byte)
    {phase : Phase} {now : List Byte} {results : List (ℕ × ℤ)} (hleft : w.phase ≠ .dropping) (hnext : phase ≠ .dropping)
    (hrecords : (w.calls now results).flatMap LogFile.Label.loglines++
      todo { w with latch, Buffer1, Buffer2, toWrite, output, phase } = w.todo)
    (hopened : Opened { w with latch, Buffer1, Buffer2, toWrite, output, phase } ↔ w.Opened ∨ w.phase = .opening) :
    Turn w { w with latch, Buffer1, Buffer2, toWrite, output, phase } now results [] [] := by
  refine ⟨(List.append_nil _).symm,.inl rfl,?_,by simpa using hrecords,hopened⟩
  have hbefore : w.loose = w.buffers.map bytes++[bytes w.currentBuffer] := by
    unfold loose
    split
    · exact absurd ‹_› hleft
    · rfl
  have hafter : loose { w with latch, Buffer1, Buffer2, toWrite, output, phase } =
      w.buffers.map bytes++[bytes w.currentBuffer] := by
    unfold loose
    split
    · exact absurd ‹_› hnext
    · rfl
  rw [hbefore,hafter,List.append_nil]
  rfl

theorem testing_turn {now : List Byte} (results : List (ℕ × ℤ)) (hphase : w.phase = .testing)
    (hspare : w.Buffer1 = some .empty ∧ w.Buffer2 = some .empty ∧ w.toWrite = [])
    (hadvance : w.advance now = some w') : Turn w w' now results [] [] := by
  simp only [AsyncLogging.advance,hphase,if_pos hspare] at hadvance
  split at hadvance <;> rename_i hrunning <;> cases hadvance <;>
    exact still_turn _ _ _ _ _ (by simp [hphase]) (by simp)
      (by simp [calls,todo,hphase,hrunning,LogFile.Label.loglines]) (by simp [Opened,hphase])

theorem locking_turn {now : List Byte} (results : List (ℕ × ℤ)) (hphase : w.phase = .locking)
    (hspare : w.Buffer1 = some .empty ∧ w.Buffer2 = some .empty ∧ w.toWrite = [])
    (hadvance : w.advance now = some w') : ∃ fresh, Turn w w' now results [] fresh := by
  simp only [AsyncLogging.advance,hphase] at hadvance
  split at hadvance <;> cases hadvance
  · exact ⟨[],still_turn _ _ _ _ _ (by simp [hphase]) (by simp) (by simp [calls,todo,hphase])
      (by simp [Opened,hphase])⟩
  · exact ⟨[[]],swap_turn hspare (.inl hphase) now results⟩

theorem dropping_turn {now : List Byte} (results : List (ℕ × ℤ)) (hphase : w.phase = .dropping)
    (hne : w.toWrite ≠ []) (hadvance : w.advance now = some w') :
    Turn w w' now results [⟨w.toWrite.map bytes,notice now (w.toWrite.length-2)⟩] [] := by
  simp only [AsyncLogging.advance,hphase,if_neg hne] at hadvance
  split at hadvance <;> rename_i hmany <;> cases hadvance <;>
    exact ⟨rfl,.inl rfl,by simp [loose,hphase],
      by simp [calls,todo,hphase,hmany,Batch.records,LogFile.Label.loglines],by simp [Opened,hphase]⟩

theorem writing_turn {now : List Byte} (results : List (ℕ × ℤ)) {todo : List BufferPtr}
    (hphase : w.phase = .writing todo) (howned : ∀ p ∈ todo, p ≠ none) (hadvance : w.advance now = some w') :
    Turn w w' now results [] [] := by
  cases todo with
  | nil =>
    simp only [AsyncLogging.advance,hphase] at hadvance
    cases hadvance
    exact still_turn _ _ _ _ _ (by simp [hphase]) (by simp) (by simp [calls,AsyncLogging.todo,hphase])
      (by simp [Opened,hphase])
  | cons p todo =>
    obtain ⟨buffer,rfl⟩ := Option.ne_none_iff_exists'.mp (howned p (.head _))
    simp only [AsyncLogging.advance,hphase] at hadvance
    cases hadvance
    exact still_turn _ _ _ _ _ (by simp [hphase]) (by simp)
      (by simp [calls,AsyncLogging.todo,hphase,LogFile.Label.loglines,bytes]) (by simp [Opened,hphase])

theorem refilling1_turn {now : List Byte} (results : List (ℕ × ℤ)) (hphase : w.phase = .refilling1)
    (hloaded : Loaded w.Buffer1 w.Buffer2 w.toWrite) (hadvance : w.advance now = some w') :
    Turn w w' now results [] [] := by
  obtain ⟨toWrite,hpop,-,-⟩ := popReset_of_owned hloaded.ne_nil hloaded.owned
  simp only [AsyncLogging.advance,hphase,if_pos hloaded.first,hpop] at hadvance
  cases hadvance
  exact still_turn _ _ _ _ _ (by simp [hphase]) (by simp) (by simp [calls,todo,hphase]) (by simp [Opened,hphase])

theorem refilling2_turn {now : List Byte} (results : List (ℕ × ℤ)) (hphase : w.phase = .refilling2)
    (hsecond : w.Buffer2 = some .empty ∨ w.Buffer2 = none ∧ w.toWrite ≠ []) (howned : ∀ p ∈ w.toWrite, p ≠ none)
    (hadvance : w.advance now = some w') : Turn w w' now results [] [] := by
  rcases hsecond with hsecond | ⟨hsecond,hne⟩
  · have hsome : w.Buffer2 ≠ none := by simp [hsecond]
    simp only [AsyncLogging.advance,hphase,if_neg hsome] at hadvance
    cases hadvance
    exact still_turn _ _ _ _ _ (by simp [hphase]) (by simp) (by simp [calls,todo,hphase]) (by simp [Opened,hphase])
  · obtain ⟨toWrite,hpop,-⟩ := popReset_of_owned hne howned
    simp only [AsyncLogging.advance,hphase,if_pos hsecond,hpop] at hadvance
    cases hadvance
    exact still_turn _ _ _ _ _ (by simp [hphase]) (by simp) (by simp [calls,todo,hphase]) (by simp [Opened,hphase])

theorem advance_turn (h : w.Working) {now : List Byte} (results : List (ℕ × ℤ)) (hadvance : w.advance now = some w') :
    ∃ bs fresh, Turn w w' now results bs fresh := by
  have hspare := h.sound.stocked.spare
  cases hphase : w.phase <;> rw [hphase] at hspare
  case testing => exact ⟨[],[],testing_turn results hphase hspare hadvance⟩
  case locking => exact ⟨[],locking_turn results hphase hspare hadvance⟩
  case dropping =>
    have hloaded : Loaded w.Buffer1 w.Buffer2 w.toWrite := hspare
    exact ⟨_,[],dropping_turn results hphase hloaded.ne_nil hadvance⟩
  case writing =>
    obtain ⟨hloaded,hsuffix⟩ := hspare
    exact ⟨[],[],writing_turn results hphase (fun p hp => hloaded.owned p (hsuffix.subset hp)) hadvance⟩
  case refilling1 => exact ⟨[],[],refilling1_turn results hphase hspare hadvance⟩
  case refilling2 => exact ⟨[],[],refilling2_turn results hphase hspare.2.1 hspare.2.2 hadvance⟩
  all_goals
    have hlaunched := h.launched.running
    simp only [AsyncLogging.advance,hphase] at hadvance
  case created | returned | failed => cases hadvance
  case starting =>
    rw [if_pos (hlaunched hphase)] at hadvance
    cases hadvance
    exact ⟨[],[],still_turn _ _ _ _ _ (by simp [hphase]) (by simp) (by simp [calls,todo,hphase])
      (by simp [Opened,hphase])⟩
  case opening =>
    cases hadvance
    exact ⟨[],[],still_turn _ _ _ _ _ (by simp [hphase]) (by simp) (by simp [calls,todo,hphase])
      (by simp [Opened,hphase])⟩
  case waiting =>
    cases hadvance
    exact ⟨[],[[]],swap_turn hspare (.inr hphase) now results⟩
  case clearing =>
    cases hadvance
    exact ⟨[],[],still_turn _ _ _ _ _ (by simp [hphase]) (by simp)
      (by simp [calls,todo,hphase,LogFile.Label.loglines]) (by simp [Opened,hphase])⟩

theorem exists_parts {α β : Type} {R : α → β → Prop} {as bs : List α} {cs : List β} (h : List.Forall₂ R (as++bs) cs) :
    ∃ cs₁ cs₂, cs = cs₁++cs₂ ∧ List.Forall₂ R as cs₁ ∧ List.Forall₂ R bs cs₂ := by
  induction as generalizing cs with
  | nil => exact ⟨[],cs,rfl,.nil,h⟩
  | cons a as ih =>
    cases h with
    | cons ha hrest =>
      obtain ⟨cs₁,cs₂,rfl,has,hbs⟩ := ih hrest
      exact ⟨_::cs₁,cs₂,rfl,.cons ha has,hbs⟩

def Fills (buffer : List Byte) (lines : List (List Byte)) : Prop := buffer = lines.flatten

/-- The lines, by the batches and buffers that hold them: those of the batches, and the others. -/
structure Grouped (w : AsyncLogging) (taken : List (List (List (List Byte)))) (others : List (List (List Byte))) :
    Prop where
  lines : taken.flatten.flatten++others.flatten = w.lines
  batches : List.Forall₂ (fun b group => List.Forall₂ Fills b.pieces group) w.batches taken
  loose : List.Forall₂ Fills w.loose others

theorem loose_append (h : w.Stocked) {line : List Byte} (hline : line.length < kLargeBuffer) :
    (∃ front last, w.loose = front++[last] ∧ (w.append line).loose = front++[last++line]) ∨
      (w.append line).loose = w.loose++[line] := by
  obtain ⟨buffer,hbuffer,⟨hroom,heq⟩ | ⟨next,hnext,heq⟩⟩ := append_cases h.current line
  · refine .inl ⟨_,bytes w.currentBuffer,rfl,?_⟩
    rw [heq,hbuffer]
    show _++[(buffer.append line).data] = _
    rw [append_of_le (Nat.le_of_lt hroom)]
    rfl
  · have hempty : next = .empty := by
      rcases hnext with hnext | ⟨-,rfl⟩
      · exact h.fresh next hnext
      · rfl
    refine .inr ?_
    rw [heq,loose,loose,hbuffer]
    show _++[(next.append line).data] = _
    rw [append_of_empty (by rw [hempty]; rfl),List.take_of_length_le hline.le]
    simp [bytes]

theorem Grouped.append {taken : List (List (List (List Byte)))} {others : List (List (List Byte))}
    (hg : Grouped w taken others) (h : w.Stocked) {line : List Byte} (hline : line.length < kLargeBuffer) :
    ∃ others', Grouped (w.append line) taken others' := by
  obtain ⟨currentBuffer,nextBuffer,buffers,heq⟩ := append_eq h.current line
  have hlines : (w.append line).lines = w.lines++[line] := by rw [heq]
  have hbatches : (w.append line).batches = w.batches := by rw [heq]
  have hloose := hg.loose
  rcases loose_append h hline with ⟨front,last,hold,hnew⟩ | hnew
  · rw [hold] at hloose
    obtain ⟨others,_,rfl,hfront,hlast⟩ := exists_parts hloose
    cases hlast with
    | @cons _ group _ _ hgroup hnil =>
      cases hnil
      refine ⟨others++[group++[line]],?_,by rw [hbatches]; exact hg.batches,?_⟩
      · rw [hlines,← hg.lines]
        simp
      · rw [hnew]
        refine List.rel_append hfront (.cons ?_ .nil)
        rw [Fills,List.flatten_append,List.flatten_singleton,← hgroup]
  · refine ⟨others++[[line]],?_,by rw [hbatches]; exact hg.batches,?_⟩
    · rw [hlines,← hg.lines]
      simp
    · rw [hnew]
      exact List.rel_append hloose (.cons (by simp [Fills]) .nil)

theorem exists_groups {α β γ : Type} {R : β → γ → Prop} (f : α → List β) {as : List α} {rest : List β} {cs : List γ}
    (h : List.Forall₂ R (as.flatMap f++rest) cs) :
    ∃ groups others, cs = groups.flatten++others ∧ List.Forall₂ (fun a group => List.Forall₂ R (f a) group) as groups ∧
      List.Forall₂ R rest others := by
  induction as generalizing cs with
  | nil => exact ⟨[],cs,rfl,.nil,h⟩
  | cons a as ih =>
    rw [List.flatMap_cons,List.append_assoc] at h
    obtain ⟨group,cs,rfl,hgroup,hcs⟩ := exists_parts h
    obtain ⟨groups,others,rfl,hgroups,hothers⟩ := ih hcs
    exact ⟨group::groups,others,by simp,.cons hgroup hgroups,hothers⟩

theorem Turn.grouped {taken : List (List (List (List Byte)))} {others : List (List (List Byte))} {now : List Byte}
    {results : List (ℕ × ℤ)} {bs : List Batch} {fresh : List (List Byte)} (ht : Turn w w' now results bs fresh)
    (hlines : w'.lines = w.lines) (hg : Grouped w taken others) : ∃ taken' others', Grouped w' taken' others' := by
  have hloose : List.Forall₂ Fills (w.loose++fresh) (others++fresh.map fun _ => []) := by
    refine List.rel_append hg.loose ?_
    rcases ht.empty with rfl | rfl
    · exact .nil
    · exact .cons rfl .nil
  rw [ht.loose] at hloose
  obtain ⟨groups,others',hsplit,hgroups,hothers⟩ := exists_groups Batch.pieces hloose
  refine ⟨taken++groups,others',?_,?_,hothers⟩
  · have hempty : (fresh.map fun _ => ([] : List (List Byte))).flatten = [] := by
      rcases ht.empty with rfl | rfl <;> rfl
    have hflat : others.flatten = groups.flatten.flatten++others'.flatten := by
      have := congrArg List.flatten hsplit
      rwa [List.flatten_append,hempty,List.append_nil,List.flatten_append] at this
    rw [hlines,← hg.lines,hflat,List.flatten_append,List.flatten_append,List.append_assoc]
  · rw [ht.batches]
    exact List.rel_append hg.batches hgroups

end AsyncLogging

namespace LogFile

variable {e : Setting} {l : LogFile} {before : List (List (List Byte))} {current : List (List Byte)}

theorem Sound.steps (h : l.Sound e before current) (hsteady : e.Steady) {calls : List Label}
    (hcalls : ∀ a ∈ calls, a.Succeeds) :
    ∃ l' before' current', exec (LogFile.step e) l calls = some l' ∧ l'.Sound e before' current' ∧
      before'.flatten++current' = before.flatten++current++calls.flatMap Label.loglines := by
  induction calls generalizing l before current with
  | nil => exact ⟨l,before,current,rfl,h,by simp⟩
  | cons a calls ih =>
    obtain ⟨l₁,before₁,current₁,hstep,hsound,hrecords⟩ := h.step hsteady (hcalls a List.mem_cons_self)
    obtain ⟨l₂,before₂,current₂,hrun,hsound₂,hrecords₂⟩ := ih hsound fun b hb => hcalls b (List.mem_cons_of_mem a hb)
    refine ⟨l₂,before₂,current₂,by rw [exec,hstep,Option.bind_some,hrun],hsound₂,?_⟩
    rw [hrecords₂,hrecords,List.flatMap_cons,List.append_assoc]

end LogFile

namespace LogPipeline

open AsyncLogging (Batch)

variable {e : LogFile.Setting} {s s' : LogPipeline}

def Succeeds (s : LogPipeline) : Label → Prop
  | (.append line,_) => line.length < kLargeBuffer
  | (.advance now,results) => ∀ call ∈ s.async.calls now results, call.Succeeds
  | _ => True

/-- The files hold the records that were given to `output`. -/
def Filed (e : LogFile.Setting) (s : LogPipeline) : Prop :=
  match s.output with
  | none => ¬ s.async.Opened ∧ s.async.batches = [] ∧ s.async.todo = []
  | some l => s.async.Opened ∧ ∃ before current, l.Sound e before current ∧
      before.flatten++current++s.async.todo = s.async.batches.flatMap Batch.records

/-- What a batch gives to `output`, by the lines of its buffers. -/
def items (b : Batch) (group : List (List (List Byte))) : List (List (List Byte)) :=
  if 16 < b.pieces.length then [b.notice]::group.take 2 else group

theorem fills_items {b : Batch} {group : List (List (List Byte))} (h : List.Forall₂ AsyncLogging.Fills b.pieces group) :
    List.Forall₂ AsyncLogging.Fills b.records (items b group) := by
  rw [Batch.records,items]
  split
  · exact .cons (by rw [AsyncLogging.Fills,List.flatten_singleton]) (List.forall₂_take 2 h)
  · exact h

theorem fills_records {bs : List Batch} {groups : List (List (List (List Byte)))}
    (h : List.Forall₂ (fun b group => List.Forall₂ AsyncLogging.Fills b.pieces group) bs groups) :
    List.Forall₂ AsyncLogging.Fills (bs.flatMap Batch.records) (List.zipWith items bs groups).flatten := by
  induction h with
  | nil => exact .nil
  | cons hgroup _ ih =>
    rw [List.flatMap_cons,List.zipWith_cons_cons,List.flatten_cons]
    exact List.rel_append (fills_items hgroup) ih

theorem flatten_of_fills {records : List (List Byte)} {lines : List (List (List Byte))}
    (h : List.Forall₂ AsyncLogging.Fills records lines) : records.flatten = lines.flatten.flatten := by
  induction h with
  | nil => rfl
  | cons hrecord _ ih => rw [List.flatten_cons,List.flatten_cons,List.flatten_append,ih,hrecord]

theorem holds_lines {files : List AppendFile} {parts : List (List (List Byte))}
    {groups : List (List (List (List Byte)))} (h : List.Forall₂ (LogFile.Holds e) files parts)
    (hgroups : List.Forall₂ (fun part group => List.Forall₂ AsyncLogging.Fills part group) parts groups) :
    List.Forall₂ (fun f group => f.content = group.flatten.flatten) files groups := by
  induction h generalizing groups with
  | nil =>
    cases hgroups
    exact .nil
  | cons hf _ ih =>
    cases hgroups with
    | cons hgroup hrest => exact .cons (hf.content.trans (flatten_of_fills hgroup)) (ih hrest)

structure Piped (e : LogFile.Setting) (s : LogPipeline) : Prop where
  working : s.async.Working
  grouped : ∃ taken others, s.async.Grouped taken others
  filed : Filed e s

theorem create_piped : Piped e create where
  working := AsyncLogging.create_working
  grouped := ⟨[],[[]],rfl,.nil,.cons rfl .nil⟩
  filed := ⟨id,rfl,rfl⟩

theorem step_quiet {label : AsyncLogging.Label} (hs : s.async.Stocked) {async : AsyncLogging}
    (h : s.async.step label = some async)
    (hlabel : ∀ now, label ≠ .advance now) :
    (async.Opened ↔ s.async.Opened) ∧ async.batches = s.async.batches ∧ async.todo = s.async.todo ∧
      ((∃ line, label = .append line ∧ async = s.async.append line) ∨
        async.lines = s.async.lines ∧ async.loose = s.async.loose) := by
  rcases AsyncLogging.step_cases h with ⟨line,hlabel,-,rfl⟩ | ⟨inAppend,accepted,rfl⟩ | ⟨-,hcreated,rfl⟩ |
    ⟨now,hnow,-⟩ | ⟨-,-,-,rfl⟩ | ⟨running,stopPc,-,-,-,-,rfl⟩
  · obtain ⟨currentBuffer,nextBuffer,buffers,heq⟩ := AsyncLogging.append_eq hs.current line
    exact ⟨by rw [heq]; exact Iff.rfl,by rw [heq],by rw [heq]; rfl,.inl ⟨line,hlabel,rfl⟩⟩
  · exact ⟨Iff.rfl,rfl,rfl,.inr ⟨rfl,rfl⟩⟩
  · exact ⟨by simp [AsyncLogging.Opened,hcreated],rfl,by simp [AsyncLogging.todo,hcreated],
      .inr ⟨rfl,by simp [AsyncLogging.loose,hcreated]⟩⟩
  · exact absurd hnow (hlabel now)
  · exact ⟨Iff.rfl,rfl,rfl,.inr ⟨rfl,rfl⟩⟩
  · exact ⟨Iff.rfl,rfl,rfl,.inr ⟨rfl,rfl⟩⟩

theorem Filed.quiet (h : Filed e s) {async : AsyncLogging} (hopened : async.Opened ↔ s.async.Opened)
    (hbatches : async.batches = s.async.batches) (htodo : async.todo = s.async.todo) : Filed e ⟨async,s.output⟩ := by
  unfold Filed at h ⊢
  cases houtput : s.output with
  | none =>
    simp only [houtput] at h ⊢
    rw [hopened,hbatches,htodo]
    exact h
  | some l =>
    simp only [houtput] at h ⊢
    rw [hopened,hbatches,htodo]
    exact h

/-- The calls of the back-end return, and what they give to the files are the next records. -/
theorem Piped.advance (h : Piped e s) (hsteady : e.Steady) {now : List Byte} {results : List (ℕ × ℤ)}
    (hsucceeds : s.Succeeds (.advance now,results)) {async : AsyncLogging}
    (hadvance : s.async.step (.advance now) = some async) :
    ∃ output, step e s (.advance now,results) = some ⟨async,output⟩ ∧ Filed e ⟨async,output⟩ := by
  obtain ⟨bs,fresh,hturn⟩ := AsyncLogging.advance_turn h.working results hadvance
  have hrecords := hturn.records
  have hfiled := h.filed
  unfold Filed at hfiled
  simp only [LogPipeline.step,hadvance,Option.bind_some]
  cases houtput : s.output with
  | none =>
    simp only [houtput] at hfiled ⊢
    obtain ⟨hopened,hnone,htodo⟩ := hfiled
    -- Before `output` is constructed nothing is taken over.
    have hempty : async.batches = [] ∧ async.todo = [] := by
      simp only [AsyncLogging.step,AsyncLogging.advance] at hadvance
      rcases AsyncLogging.phase_of_not_opened hopened with hphase | hphase | hphase <;> simp only [hphase] at hadvance
      · cases hadvance
      · split at hadvance <;> cases hadvance <;> exact ⟨hnone,rfl⟩
      · cases hadvance
        exact ⟨hnone,rfl⟩
    refine ⟨_,rfl,?_⟩
    unfold Filed
    by_cases hopening : s.async.phase = .opening
    · simp only [if_pos hopening]
      refine ⟨hturn.opened.mpr (.inr hopening),[],[],LogFile.sound_create hsteady,?_⟩
      rw [hempty.1,hempty.2]
      rfl
    · simp only [if_neg hopening]
      exact ⟨fun hnow => (hturn.opened.mp hnow).elim hopened hopening,hempty⟩
  | some l =>
    simp only [houtput] at hfiled ⊢
    obtain ⟨hopened,before,current,hsound,hheld⟩ := hfiled
    obtain ⟨l',before',current',hrun,hsound',hmore⟩ := hsound.steps hsteady hsucceeds
    refine ⟨some l',by rw [hrun,Option.map_some],hturn.opened.mpr (.inl hopened),before',current',hsound',?_⟩
    rw [hmore,List.append_assoc,hrecords,← List.append_assoc,hheld,hturn.batches,List.flatMap_append]

theorem Piped.step (h : Piped e s) (hsteady : e.Steady) {a : Label} (hsucceeds : s.Succeeds a)
    {async : AsyncLogging} (hasync : s.async.step a.1 = some async) :
    ∃ output, LogPipeline.step e s a = some ⟨async,output⟩ ∧ Piped e ⟨async,output⟩ := by
  obtain ⟨label,results⟩ := a
  have hworking := AsyncLogging.step_working h.working hasync
  obtain ⟨taken,others,hgrouped⟩ := h.grouped
  by_cases hlabel : ∃ now, label = .advance now
  · obtain ⟨now,rfl⟩ := hlabel
    obtain ⟨output,hstep,hfiled⟩ := h.advance hsteady hsucceeds hasync
    obtain ⟨bs,fresh,hturn⟩ := AsyncLogging.advance_turn h.working results hasync
    exact ⟨output,hstep,hworking,hturn.grouped (AsyncLogging.advance_behind hasync).lines hgrouped,hfiled⟩
  · have hother : ∀ now, label ≠ .advance now := fun now hnow => hlabel ⟨now,hnow⟩
    obtain ⟨hopened,hbatches,htodo,hmoved⟩ := step_quiet h.working.sound.stocked hasync hother
    refine ⟨s.output,?_,hworking,?_,h.filed.quiet hopened hbatches htodo⟩
    · have hdone : s.async.step label = some async := hasync
      rw [LogPipeline.step,hdone,Option.bind_some]
      cases label with
      | advance now => exact absurd rfl (hother now)
      | append line => rfl
      | ret i => rfl
      | start => rfl
      | stop => rfl
      | advanceStop => rfl
    · rcases hmoved with ⟨line,rfl,rfl⟩ | ⟨hlines,hloose⟩
      · obtain ⟨others',hgrouped'⟩ := hgrouped.append h.working.sound.stocked hsucceeds
        exact ⟨taken,others',hgrouped'⟩
      · refine ⟨taken,others,?_,?_,?_⟩
        · rw [hlines]
          exact hgrouped.lines
        · rw [hbatches]
          exact hgrouped.batches
        · rw [hloose]
          exact hgrouped.loose

theorem run_piped (hsteady : e.Steady) {labels : List Label} (h : Run (step e) create labels s)
    (hsucceeds : Along (step e) Succeeds create labels) : Piped e s := by
  refine h.invariant_along (fun s a s' hs ha hstep => ?_) hsucceeds create_piped
  obtain ⟨async,hasync,-⟩ := Option.bind_eq_some_iff.mp hstep
  obtain ⟨output,hdone,hpiped⟩ := hs.step hsteady ha hasync
  rw [Option.some.inj (hstep.symm.trans hdone)]
  exact hpiped

/-- In every interleaving of `append`, of the back-end and of `stop()`, with lines shorter than a buffer, a clock
that does not go back and writes that do not fail: whatever `AsyncLogging` does next, its calls of the `LogFile`
return. The files, which have different names, hold whole lines and notices, in the order of the `append`s, and what
is left of these is in the buffers that are still to be given. Of the batches only those with more than 16 buffers
leave out lines. -/
theorem files_hold_lines {e : LogFile.Setting} (hsteady : e.Steady) {labels : List Label}
    {s : LogPipeline} (h : Run (step e) create labels s) (hsucceeds : Along (step e) Succeeds create labels) :
    (∀ a, s.Succeeds a → (s.async.step a.1).isSome → (step e s a).isSome) ∧
      ∃ taken others, taken.flatten.flatten++others.flatten = s.async.lines ∧
        List.Forall₂ (fun b group => List.Forall₂ AsyncLogging.Fills b.pieces group) s.async.batches taken ∧
        List.Forall₂ AsyncLogging.Fills s.async.loose others ∧
        ∀ l, s.output = some l → (l.opened.map AppendFile.filename).Nodup ∧
          ∃ files pending, files.flatten++pending = (List.zipWith items s.async.batches taken).flatten.flatten ∧
            List.Forall₂ (fun f lines => f.content = lines.flatten) l.opened files ∧
            pending.flatten = s.async.todo.flatten := by
  have hpiped := run_piped hsteady h hsucceeds
  obtain ⟨taken,others,hgrouped⟩ := hpiped.grouped
  refine ⟨fun a ha hasync => ?_,taken,others,hgrouped.lines,hgrouped.batches,hgrouped.loose,fun l hl => ?_⟩
  · obtain ⟨async,hasync⟩ := Option.isSome_iff_exists.mp hasync
    obtain ⟨output,hstep,-⟩ := hpiped.step hsteady ha hasync
    rw [hstep]
    rfl
  · have hfiled := hpiped.filed
    unfold Filed at hfiled
    simp only [hl] at hfiled
    obtain ⟨-,before,current,hsound,hheld⟩ := hfiled
    refine ⟨hsound.names_nodup,?_⟩
    have hfills := fills_records hgrouped.batches
    have hparts : (before++[current]).flatMap id++s.async.todo = s.async.batches.flatMap Batch.records := by
      rw [← hheld,List.flatMap_id,List.flatten_append,List.flatten_singleton]
    rw [← hparts] at hfills
    obtain ⟨groups,pending,hsplit,hgroups,hpending⟩ := AsyncLogging.exists_groups id hfills
    refine ⟨groups.map List.flatten,pending.flatten,?_,?_,(flatten_of_fills hpending).symm⟩
    · rw [hsplit,List.flatten_append,List.flatten_flatten]
    · rw [List.forall₂_map_right_iff]
      exact holds_lines hsound.holds hgroups

instance decidableCompletes : (remain : ℕ) → (results : List (ℕ × ℤ)) → Decidable (AppendFile.Completes remain results)
  | remain, [] => inferInstanceAs (Decidable (remain = 0))
  | remain, (n,ferror)::results =>
    have := decidableCompletes (remain-n) results
    inferInstanceAs (Decidable (0 < remain ∧ n ≤ remain ∧ (n ≠ remain → ferror = 0) ∧ _))

instance (call : LogFile.Label) : Decidable call.Succeeds :=
  match call with
  | .append logline results => decidableCompletes logline.length results
  | .flush => isTrue trivial
  | .rollFile => isTrue trivial

instance (s : LogPipeline) (a : Label) : Decidable (s.Succeeds a) :=
  match a with
  | (.append line,_) => inferInstanceAs (Decidable (line.length < kLargeBuffer))
  | (.advance now,results) => inferInstanceAs (Decidable (∀ call ∈ s.async.calls now results, call.Succeeds))
  | (.ret _,_) => isTrue trivial
  | (.start,_) => isTrue trivial
  | (.stop,_) => isTrue trivial
  | (.advanceStop,_) => isTrue trivial

def eachSecond : LogFile.Setting := { LogFile.lastSecond with clock := fun k => 86399+k }

theorem eachSecond_steady : eachSecond.Steady where
  monotone j k hjk := by
    show (86399+j : ℤ) ≤ 86399+k
    omega
  positive k := by
    show (0 : ℤ) < 86399+k+0
    omega
  opens _ := rfl

/-- Two lines in two iterations of the back-end: the file is rolled between them. -/
def twoLines : List Label :=
  [(.append (text "GET\n"),[]),(.start,[])]++List.replicate 6 (.advance [],[])++
    [(.append (text "HEAD\n"),[]),(.advance [],[(4,0)])]++List.replicate 8 (.advance [],[])++
    [(.advance [],[(2,0),(3,0)])]

theorem files_hold_lines_twoLines : ∃ s l, exec (step eachSecond) create twoLines = some s ∧ s.output = some l ∧
    l.opened.map AppendFile.content = [text "GET\n",text "HEAD\n",[]] ∧
    (l.opened.map AppendFile.filename).Nodup := by
  obtain ⟨s,hs⟩ : ∃ s, exec (step eachSecond) create twoLines = some s :=
    Option.isSome_iff_exists.mp (by decide +kernel)
  have hcontent : (exec (step eachSecond) create twoLines).bind
      (fun s => s.output.map fun l => l.opened.map AppendFile.content) = some [text "GET\n",text "HEAD\n",[]] := by
    decide +kernel
  rw [hs,Option.bind_some] at hcontent
  obtain ⟨l,hl,hcontent⟩ := Option.map_eq_some_iff.mp hcontent
  obtain ⟨-,taken,others,-,-,-,hfiles⟩ := files_hold_lines eachSecond_steady ((run_iff_exec _ _ _ _).mpr hs)
    (by decide +kernel)
  exact ⟨s,l,hs,hl,hcontent,(hfiles l hl).1⟩

end LogPipeline
end GgLib
