import GgLib.AsyncLoggingOrder

/-! What `stop()` keeps of the lines: the back-end takes the buffers over only behind its test
of `running_`, and what it finds there afterwards stays where it is. -/
namespace GgLib

open LabelledSystem FixedBuffer

namespace AsyncLogging

variable {w w' : AsyncLogging}

def takenOver (w : AsyncLogging) : List Byte := w.batches.flatMap Batch.taken++w.undecided

def Fits (w : AsyncLogging) (i : ℕ) : Prop := ∀ line, w.lines[i]? = some line → line.length ≤ kLargeBuffer

/-- The line with this number is in `bs`, behind the ones before it; of an empty line nothing
has to be. -/
def Reaches (w : AsyncLogging) (i : ℕ) (bs : List Byte) : Prop :=
  w.lines[i]? = some [] ∨ ((w.lines.take (i+1)).map stored).flatten <+: bs

/-- All of the line was given to `LogFile`. -/
def Given (w : AsyncLogging) (i : ℕ) : Prop := w.Fits i ∧ w.Reaches i w.output

/-- The back-end is between its test of `running_` and its critical section. -/
def Swaps (w : AsyncLogging) : Prop := w.phase = .locking ∨ w.phase = .waiting

/-- A step that loses no line: an `append` that returns before `stop()` is called had a line
that fits, and when `stop()` clears `running_` the back-end is about to take the buffers
over, or has taken over every line whose `append` returned. -/
def Keeps (w : AsyncLogging) (label : Label) : Prop :=
  match label with
  | .ret i => w.stopPc = .idle → w.Fits i
  | .advanceStop => w.stopPc = .called → w.Swaps ∨ ∀ i ∈ w.accepted, w.Reaches i w.takenOver
  | .append _ | .start | .advance _ | .stop => True

instance (w : AsyncLogging) (i : ℕ) : Decidable (w.Fits i) :=
  decidable_of_iff (∀ line ∈ w.lines[i]?.toList, line.length ≤ kLargeBuffer) (by simp [Fits])

instance (w : AsyncLogging) (i : ℕ) (bs : List Byte) : Decidable (w.Reaches i bs) := inferInstanceAs (Decidable (_ ∨ _))
instance (w : AsyncLogging) (i : ℕ) : Decidable (w.Given i) := inferInstanceAs (Decidable (_ ∧ _))
instance (w : AsyncLogging) : Decidable w.Swaps := inferInstanceAs (Decidable (_ ∨ _))

instance (w : AsyncLogging) (label : Label) : Decidable (w.Keeps label) :=
  match label with
  | .ret _ => inferInstanceAs (Decidable (_ → _))
  | .advanceStop => inferInstanceAs (Decidable (_ → _))
  | .append _ | .start | .advance _ | .stop => isTrue trivial

/-- No line is lost so far, or will be. -/
structure Kept (w : AsyncLogging) : Prop where
  fits : ∀ i ∈ w.accepted, w.Fits i
  ahead : w.stopPc = .idle ∨ w.stopPc = .called ∨ w.Swaps ∨ ∀ i ∈ w.accepted, w.Reaches i w.takenOver

/-- What the test of `running_` rests on. -/
structure Stopping (w : AsyncLogging) : Prop where
  pending : ∀ i ∈ w.inAppend, i < w.lines.length
  accepted : ∀ i ∈ w.accepted, i < w.lines.length
  running : w.stopPc = .idle ∨ w.stopPc = .called ∨ w.running = false
  joined : w.stopPc = .returned → w.phase = .returned

theorem append_fits (hs : w.Stocked) {i : ℕ} (hi : i < w.lines.length) (line : List Byte) :
    (w.append line).Fits i ↔ w.Fits i := by
  obtain ⟨currentBuffer,nextBuffer,buffers,heq⟩ := append_eq hs.current line
  rw [heq,Fits,Fits,List.getElem?_append_left hi]

theorem append_reaches (hs : w.Stocked) {i : ℕ} (hi : i < w.lines.length) (line bs : List Byte) :
    (w.append line).Reaches i bs ↔ w.Reaches i bs := by
  obtain ⟨currentBuffer,nextBuffer,buffers,heq⟩ := append_eq hs.current line
  rw [heq,Reaches,Reaches,List.getElem?_append_left hi,List.take_append_of_le_length hi]

theorem reaches_all (i : ℕ) : w.Reaches i (w.lines.map stored).flatten := by
  right
  rw [← List.take_append_drop (i+1) w.lines,List.map_append,List.flatten_append,List.take_append_drop]
  exact List.prefix_append _ _

theorem swap_takenOver (h : w.Ordered) (hundecided : w.undecided = []) :
    w.swap.takenOver = (w.lines.map stored).flatten := by
  obtain ⟨nextBuffer,Buffer2,-,heq⟩ := swap_cases w
  rw [heq,← h.lines,hundecided,List.append_nil,takenOver,undecided,buffered]
  simp

/-- A step of the back-end takes all buffers over, or nothing, and comes to its critical
section only through the test of `running_`. -/
theorem advance_takenOver (h : w.Sound) {now : List Byte} (hadvance : w.advance now = some w') :
    w.Swaps ∧ w'.Swaps ∨ w.Swaps ∧ w'.takenOver = (w.lines.map stored).flatten ∨
      w'.takenOver = w.takenOver ∧ ¬ w.Swaps ∧ (w.running = false → ¬ w'.Swaps) := by
  cases hphase : w.phase with
  | created | returned | failed =>
    simp only [AsyncLogging.advance,hphase] at hadvance
    cases hadvance
  | locking =>
    simp only [AsyncLogging.advance,hphase] at hadvance
    split at hadvance <;> cases hadvance
    · exact .inl ⟨.inl hphase,.inr rfl⟩
    · exact .inr (.inl ⟨.inl hphase,swap_takenOver h.ordered (by rw [undecided,hphase])⟩)
  | waiting =>
    simp only [AsyncLogging.advance,hphase] at hadvance
    cases hadvance
    exact .inr (.inl ⟨.inr hphase,swap_takenOver h.ordered (by rw [undecided,hphase])⟩)
  | testing =>
    have hnot : ¬ w.Swaps := by simp [Swaps,hphase]
    simp only [AsyncLogging.advance,hphase] at hadvance
    refine .inr (.inr ⟨?_,hnot,fun hrunning => ?_⟩)
    · repeat' split at hadvance
      all_goals
        cases hadvance
        simp [takenOver,undecided,hphase]
    · rw [hrunning] at hadvance
      cases hadvance
      simp [Swaps]
  | dropping =>
    have hnot : ¬ w.Swaps := by simp [Swaps,hphase]
    simp only [AsyncLogging.advance,hphase] at hadvance
    repeat' split at hadvance
    all_goals
      cases hadvance
      refine .inr (.inr ⟨?_,hnot,fun _ => ?_⟩)
    · rename_i hnil
      simp [takenOver,undecided,hphase,hnil]
    · simp [Swaps]
    · simp [takenOver,undecided,hphase,Batch.taken,bytesOf_eq_flatten]
    · simp [Swaps]
    · simp [takenOver,undecided,hphase,Batch.taken,bytesOf_eq_flatten]
    · simp [Swaps]
  | writing todo =>
    have hnot : ¬ w.Swaps := by simp [Swaps,hphase]
    refine .inr (.inr ⟨?_,hnot,fun _ => ?_⟩)
    all_goals
      rcases todo with _ | ⟨_ | buffer,todo⟩ <;> simp only [AsyncLogging.advance,hphase] at hadvance <;> cases hadvance
      all_goals simp [takenOver,undecided,hphase,Swaps]
  | starting | opening | refilling1 | refilling2 | clearing =>
    have hnot : ¬ w.Swaps := by simp [Swaps,hphase]
    simp only [AsyncLogging.advance,hphase] at hadvance
    repeat' split at hadvance
    all_goals
      cases hadvance
      refine .inr (.inr ⟨?_,hnot,fun _ => ?_⟩)
      · simp [takenOver,undecided,hphase]
      · simp [Swaps]

theorem Launched.idle (h : w.Launched) (hcreated : w.phase = .created) : w.stopPc = .idle := by
  by_contra hne
  have hzero := h.stopped hne
  have hone := h.early (.inl hcreated)
  omega

theorem step_stopping {label : Label} (hs : w.Stocked) (hl : w.Launched) (h : w.Stopping)
    (hstep : step w label = some w') : w'.Stopping := by
  have hgrow : ∀ {i : ℕ} (line : List Byte), i < w.lines.length → i < (w.lines++[line]).length := by
    intro i line hi
    rw [List.length_append]
    omega
  cases label with
  | append line =>
    simp only [step] at hstep
    split at hstep <;> cases hstep
    obtain ⟨currentBuffer,nextBuffer,buffers,heq⟩ := append_eq hs.current line
    rw [heq]
    refine ⟨fun i hi => ?_,fun i hi => hgrow line (h.accepted i hi),h.running,h.joined⟩
    rcases List.mem_append.mp hi with hi | hi
    · exact hgrow line (h.pending i hi)
    · rw [List.mem_singleton.mp hi]
      show w.lines.length < (w.lines++[line]).length
      simp
  | ret i =>
    obtain ⟨hmem,hcase⟩ := ret_cases hstep
    have hpending : ∀ j ∈ w.inAppend.erase i, j < w.lines.length := fun j hj => h.pending j (List.mem_of_mem_erase hj)
    rcases hcase with ⟨-,rfl⟩ | ⟨-,rfl⟩
    · refine ⟨hpending,fun j hj => ?_,h.running,h.joined⟩
      rcases List.mem_append.mp hj with hj | hj
      · exact h.accepted j hj
      · rw [List.mem_singleton.mp hj]
        exact h.pending i hmem
    · exact ⟨hpending,h.accepted,h.running,h.joined⟩
  | start =>
    obtain ⟨hcreated,rfl⟩ := start_cases hstep
    have hidle := hl.idle hcreated
    refine ⟨h.pending,h.accepted,.inl hidle,fun hreturned => ?_⟩
    rw [show _ = _ from hidle] at hreturned
    cases hreturned
  | advance now =>
    have hbehind := advance_behind hstep
    refine ⟨?_,?_,?_,fun hreturned => ?_⟩
    · rw [hbehind.inAppend,hbehind.lines]
      exact h.pending
    · rw [hbehind.accepted,hbehind.lines]
      exact h.accepted
    · rw [hbehind.stopPc,hbehind.running]
      exact h.running
    · rw [hbehind.stopPc] at hreturned
      simp only [step,AsyncLogging.advance,h.joined hreturned] at hstep
      cases hstep
  | stop =>
    obtain ⟨-,-,rfl⟩ := stop_cases hstep
    exact ⟨h.pending,h.accepted,.inr (.inl rfl),fun hreturned => (by cases hreturned)⟩
  | advanceStop =>
    have hrunning := h.running
    rcases advanceStop_cases hstep with ⟨hpc,rfl⟩ | ⟨hpc,rfl⟩ | ⟨hpc,hphase,rfl⟩
    · exact ⟨h.pending,h.accepted,.inr (.inr rfl),fun hreturned => (by cases hreturned)⟩
    · rw [hpc] at hrunning
      exact ⟨h.pending,h.accepted,.inr (.inr (by simpa using hrunning)),fun hreturned => (by cases hreturned)⟩
    · rw [hpc] at hrunning
      exact ⟨h.pending,h.accepted,.inr (.inr (by simpa using hrunning)),fun _ => hphase⟩

theorem past_store (hidle : w.stopPc ≠ .idle) (hcalled : w.stopPc ≠ .called) :
    w.Kept ↔ (∀ i ∈ w.accepted, w.Fits i) ∧ (w.Swaps ∨ ∀ i ∈ w.accepted, w.Reaches i w.takenOver) := by
  constructor
  · rintro ⟨hfits,hahead⟩
    simp only [hidle,hcalled,false_or] at hahead
    exact ⟨hfits,hahead⟩
  · rintro ⟨hfits,hahead⟩
    exact ⟨hfits,.inr (.inr hahead)⟩

/-- What the back-end does after its test of `running_` keeps what was taken over. -/
theorem advance_kept (hs : w.Working) (h : w.Stopping) {now : List Byte} (hadvance : w.advance now = some w') :
    w'.Kept ↔ w.Kept := by
  have hbehind := advance_behind hadvance
  have hfits : (∀ i ∈ w'.accepted, w'.Fits i) ↔ ∀ i ∈ w.accepted, w.Fits i := by
    simp only [Fits,hbehind.accepted,hbehind.lines]
  have hreaches : ∀ bs, (∀ i ∈ w'.accepted, w'.Reaches i bs) ↔ ∀ i ∈ w.accepted, w.Reaches i bs := by
    intro bs
    simp only [Reaches,hbehind.accepted,hbehind.lines]
  rcases h.running with hidle | hcalled | hrunning
  · have hidle' := hbehind.stopPc.trans hidle
    exact ⟨fun hk => ⟨hfits.mp hk.fits,.inl hidle⟩,fun hk => ⟨hfits.mpr hk.fits,.inl hidle'⟩⟩
  · have hcalled' := hbehind.stopPc.trans hcalled
    exact ⟨fun hk => ⟨hfits.mp hk.fits,.inr (.inl hcalled)⟩,fun hk => ⟨hfits.mpr hk.fits,.inr (.inl hcalled')⟩⟩
  rcases advance_takenOver hs.sound hadvance with ⟨hswaps,hswaps'⟩ | ⟨hswaps,hall⟩ | ⟨hsame,hnot,hnot'⟩
  · exact ⟨fun hk => ⟨hfits.mp hk.fits,.inr (.inr (.inl hswaps))⟩,
      fun hk => ⟨hfits.mpr hk.fits,.inr (.inr (.inl hswaps'))⟩⟩
  · refine ⟨fun hk => ⟨hfits.mp hk.fits,.inr (.inr (.inl hswaps))⟩,fun hk => ⟨hfits.mpr hk.fits,.inr (.inr (.inr ?_))⟩⟩
    rw [hall]
    exact (hreaches _).mpr fun i _ => reaches_all i
  · have hahead : (w'.stopPc = .idle ∨ w'.stopPc = .called ∨ w'.Swaps ∨ ∀ i ∈ w'.accepted, w'.Reaches i w'.takenOver) ↔
        (w.stopPc = .idle ∨ w.stopPc = .called ∨ w.Swaps ∨ ∀ i ∈ w.accepted, w.Reaches i w.takenOver) := by
      rw [hsame,hreaches,hbehind.stopPc]
      simp only [hnot,hnot' hrunning]
    exact ⟨fun hk => ⟨hfits.mp hk.fits,hahead.mp hk.ahead⟩,fun hk => ⟨hfits.mpr hk.fits,hahead.mpr hk.ahead⟩⟩

theorem append_kept (hs : w.Stocked) (h : w.Stopping) (line : List Byte) : (w.append line).Kept ↔ w.Kept := by
  have hshared : (w.append line).accepted = w.accepted ∧ (w.append line).stopPc = w.stopPc ∧
      (w.append line).takenOver = w.takenOver ∧ ((w.append line).Swaps ↔ w.Swaps) := by
    obtain ⟨currentBuffer,nextBuffer,buffers,heq⟩ := append_eq hs.current line
    rw [heq]
    exact ⟨rfl,rfl,rfl,.rfl⟩
  obtain ⟨haccepted,hstopPc,htakenOver,hswaps⟩ := hshared
  have hfits : (∀ i ∈ w.accepted, (w.append line).Fits i) ↔ ∀ i ∈ w.accepted, w.Fits i :=
    forall₂_congr fun i hi => append_fits hs (h.accepted i hi) line
  have hreaches : (∀ i ∈ w.accepted, (w.append line).Reaches i w.takenOver) ↔
      ∀ i ∈ w.accepted, w.Reaches i w.takenOver :=
    forall₂_congr fun i hi => append_reaches hs (h.accepted i hi) line w.takenOver
  constructor
  · rintro ⟨hf,ha⟩
    rw [haccepted,hstopPc,htakenOver,hswaps,hreaches] at ha
    rw [haccepted] at hf
    exact ⟨hfits.mp hf,ha⟩
  · rintro ⟨hf,ha⟩
    refine ⟨?_,?_⟩
    · rw [haccepted]
      exact hfits.mpr hf
    · rw [haccepted,hstopPc,htakenOver,hswaps,hreaches]
      exact ha

/-- A step keeps the lines exactly if it is one of those. -/
theorem step_kept {label : Label} (hs : w.Working) (h : w.Stopping) (hstep : step w label = some w') :
    w'.Kept ↔ w.Kept ∧ w.Keeps label := by
  cases label with
  | append line =>
    simp only [step] at hstep
    split at hstep <;> cases hstep
    rw [append_kept hs.sound.stocked h line]
    exact (and_iff_left trivial).symm
  | ret i =>
    obtain ⟨-,⟨hidle,rfl⟩ | ⟨hne,rfl⟩⟩ := ret_cases hstep
    · constructor
      · rintro ⟨hfits,-⟩
        exact ⟨⟨fun j hj => hfits j (List.mem_append_left _ hj),.inl hidle⟩,
          fun _ => hfits i (List.mem_append_right _ (.head _))⟩
      · rintro ⟨⟨hfits,-⟩,hi⟩
        refine ⟨fun j hj => ?_,.inl hidle⟩
        rcases List.mem_append.mp hj with hj | hj
        · exact hfits j hj
        · rw [List.mem_singleton.mp hj]
          exact hi hidle
    · exact ⟨fun hk => ⟨⟨hk.fits,hk.ahead⟩,fun hidle => absurd hidle hne⟩,fun hk => ⟨hk.1.fits,hk.1.ahead⟩⟩
  | start =>
    obtain ⟨hcreated,rfl⟩ := start_cases hstep
    have hidle := hs.launched.idle hcreated
    exact ⟨fun hk => ⟨⟨hk.fits,.inl hidle⟩,trivial⟩,fun hk => ⟨hk.1.fits,.inl hidle⟩⟩
  | advance now =>
    rw [advance_kept hs h hstep]
    exact (and_iff_left trivial).symm
  | stop =>
    obtain ⟨-,hidle,rfl⟩ := stop_cases hstep
    exact ⟨fun hk => ⟨⟨hk.fits,.inl hidle⟩,trivial⟩,fun hk => ⟨hk.1.fits,.inr (.inl rfl)⟩⟩
  | advanceStop =>
    rcases advanceStop_cases hstep with ⟨hcalled,rfl⟩ | ⟨hstored,rfl⟩ | ⟨hnotified,-,rfl⟩
    · constructor
      · rintro ⟨hfits,hahead⟩
        rcases hahead with hidle | hcalled' | hahead
        · cases hidle
        · cases hcalled'
        · exact ⟨⟨hfits,.inr (.inl hcalled)⟩,fun _ => hahead⟩
      · rintro ⟨⟨hfits,-⟩,hkeeps⟩
        exact ⟨hfits,.inr (.inr (hkeeps hcalled))⟩
    · rw [past_store (by simp) (by simp),past_store (w:=w) (by simp [hstored]) (by simp [hstored])]
      simp [Keeps,hstored,Fits,Reaches,Swaps,takenOver,undecided]
    · rw [past_store (by simp) (by simp),past_store (w:=w) (by simp [hnotified]) (by simp [hnotified])]
      simp [Keeps,hnotified,Fits,Reaches,Swaps,takenOver,undecided]

/-- When the back-end has returned, and dropped nothing, what it took over is written. -/
theorem given_iff (hs : w.Ordered) (hphase : w.phase = .returned) (hfew : ∀ b ∈ w.batches, b.pieces.length ≤ 16)
    (i : ℕ) :
    w.Given i ↔ w.Fits i ∧ w.Reaches i w.takenOver := by
  have hwritten : w.batches.flatMap Batch.written = w.batches.flatMap Batch.taken := by
    refine List.flatMap_congr fun b hb => ?_
    rw [Batch.written,if_neg (Nat.not_lt.mpr (hfew b hb)),Batch.taken]
  have houtput := hs.output
  rw [inHand,hphase,List.append_nil,hwritten] at houtput
  rw [Given,takenOver,undecided,hphase,List.append_nil,houtput]

/-- The lines whose `append` returned before `stop()` was called are with `LogFile` when
`stop()` returns exactly if each step of the run is one that keeps them. -/
theorem stop_keeps_iff {labels : List Label} (h : Run step create labels w) (hreturned : w.stopPc = .returned)
    (hfew : ∀ b ∈ w.batches, b.pieces.length ≤ 16) :
    (∀ i ∈ w.accepted, w.Given i) ↔ Along step Keeps create labels := by
  have hI : ∀ s label t, s.Working ∧ s.Stopping → step s label = some t → t.Working ∧ t.Stopping :=
    fun s label t hs hstep => ⟨step_working hs.1 hstep,step_stopping hs.1.sound.stocked hs.1.launched hs.2 hstep⟩
  have hcreate : create.Working ∧ create.Stopping := ⟨create_working,nofun,nofun,.inl rfl,nofun⟩
  have hkept : create.Kept := ⟨nofun,.inl rfl⟩
  have hw := h.invariant hI hcreate
  have hiff := h.iff_along (G:=Kept) (C:=Keeps) hI (fun s label t hs hstep => step_kept hs.1 hs.2 hstep) hcreate
  rw [and_iff_right hkept] at hiff
  rw [← hiff]
  have hphase := hw.2.joined hreturned
  have hswaps : ¬ w.Swaps := by simp [Swaps,hphase]
  constructor
  · intro hgiven
    have hboth := fun i hi => (given_iff hw.1.sound.ordered hphase hfew i).mp (hgiven i hi)
    exact ⟨fun i hi => (hboth i hi).1,.inr (.inr (.inr fun i hi => (hboth i hi).2))⟩
  · rintro ⟨hfits,hahead⟩ i hi
    simp only [hreturned,reduceCtorEq,hswaps,false_or] at hahead
    exact (given_iff hw.1.sound.ordered hphase hfew i).mpr ⟨hfits i hi,hahead i hi⟩

theorem batches_few {n : ℕ} (h : w.batches.map (·.pieces.length) = [n]) (hn : n ≤ 16) :
    ∀ b ∈ w.batches, b.pieces.length ≤ 16 := by
  intro b hb
  have hmem := List.mem_map_of_mem (f:=fun b : Batch => b.pieces.length) hb
  rw [h,List.mem_singleton] at hmem
  omega

def stoppedWaiting : List Label :=
  [.start,.advance [],.advance [],.advance [],.advance [],.append (text "HEAD\n"),.ret 0,.stop,.advanceStop,
    .advanceStop,.advance [],.advance [],.advance [],.advance [],.advance [],.advance [],.advance [],.advance [],
    .advanceStop]

theorem stop_keeps_iff_waiting :
    ∃ w, exec step create stoppedWaiting = some w ∧ w.accepted = [0] ∧ ∀ i ∈ w.accepted, w.Given i := by
  obtain ⟨w,hw⟩ : ∃ w, exec step create stoppedWaiting = some w := Option.isSome_iff_exists.mp (by decide +kernel)
  have hlast : (exec step create stoppedWaiting).map (fun w => (w.stopPc,w.accepted,w.batches.map (·.pieces.length))) =
      some (.returned,[0],[1]) := by decide +kernel
  rw [hw] at hlast
  obtain ⟨hreturned,haccepted,hbatches⟩ :
      w.stopPc = .returned ∧ w.accepted = [0] ∧ w.batches.map (·.pieces.length) = [1] := by
    simpa using hlast
  have hfew := batches_few hbatches (by decide)
  exact ⟨w,hw,haccepted,(stop_keeps_iff ((run_iff_exec _ _ _ _).mpr hw) hreturned hfew).mpr (by decide +kernel)⟩

/-- The back-end has taken an empty buffer over when the line is appended and `stop()` is called. -/
def stoppedWriting : List Label :=
  [.start,.advance [],.advance [],.advance [],.advance [],.advance [],.append (text "HEAD\n"),.ret 0,.stop,.advanceStop,
    .advanceStop,.advance [],.advance [],.advance [],.advance [],.advance [],.advance [],.advance [],.advanceStop]

theorem stop_loses :
    ¬ ∀ (labels : List Label) (w : AsyncLogging), Run step create labels w → w.stopPc = .returned →
      (∀ b ∈ w.batches, b.pieces.length ≤ 16) → ∀ i ∈ w.accepted, w.Given i := by
  intro h
  obtain ⟨w,hw⟩ : ∃ w, exec step create stoppedWriting = some w := Option.isSome_iff_exists.mp (by decide +kernel)
  have hlast : (exec step create stoppedWriting).map
      (fun w => (w.stopPc,w.accepted,w.batches.map (·.pieces.length),decide (w.Given 0))) =
      some (.returned,[0],[1],false) := by decide +kernel
  rw [hw] at hlast
  obtain ⟨hreturned,haccepted,hbatches,hlost⟩ :
      w.stopPc = .returned ∧ w.accepted = [0] ∧ w.batches.map (·.pieces.length) = [1] ∧ ¬ w.Given 0 := by
    simpa using hlast
  refine hlost (h stoppedWriting w ((run_iff_exec _ _ _ _).mpr hw) hreturned (batches_few hbatches (by decide)) 0 ?_)
  rw [haccepted]
  exact .head _

end AsyncLogging
end GgLib
