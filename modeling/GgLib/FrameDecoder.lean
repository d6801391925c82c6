import Mathlib.Data.List.Basic
import Mathlib.Tactic.Common

/-! Incremental decoding of a stream into frames. A decoder cuts the first complete
frame off a stream; what was cut stays cut when more symbols arrive. The frames of
a stream then do not depend on the portions in which it arrives. -/

structure FrameDecoder (A F : Type*) where
  next : List A → Option (F × List A)
  shorter : ∀ xs f rest, next xs = some (f,rest) → rest.length < xs.length
  extends_ : ∀ xs ys f rest, next xs = some (f,rest) → next (xs++ys) = some (f,rest++ys)

namespace FrameDecoder

variable {A F : Type*} (d : FrameDecoder A F)

/-- The complete frames of a stream and the symbols left over. -/
def frames (xs : List A) : List F × List A :=
  match h : d.next xs with
  | none => ([],xs)
  | some (f,rest) =>
    have := d.shorter xs f rest h
    (f::(frames rest).1,(frames rest).2)
termination_by xs.length

theorem frames_none {xs : List A} (h : d.next xs = none) : d.frames xs = ([],xs) := by
  rw [frames]
  split
  · rfl
  · rename_i hs
    rw [h] at hs
    cases hs

theorem frames_some {xs rest : List A} {f : F} (h : d.next xs = some (f,rest)) :
    d.frames xs = (f::(d.frames rest).1,(d.frames rest).2) := by
  rw [frames]
  split
  · rename_i hs
    rw [h] at hs
    cases hs
  · rename_i hs
    rw [h] at hs
    cases hs
    rfl

theorem induction_on {P : List A → Prop} (xs : List A) (hnone : ∀ xs, d.next xs = none → P xs)
    (hsome : ∀ xs f rest, d.next xs = some (f,rest) → P rest → P xs) : P xs := by
  match h : d.next xs with
  | none => exact hnone xs h
  | some (f,rest) =>
    have := d.shorter xs f rest h
    exact hsome xs f rest h (induction_on rest hnone hsome)
termination_by xs.length

theorem next_frames_snd (xs : List A) : d.next (d.frames xs).2 = none := by
  induction xs using d.induction_on with
  | hnone xs h => rw [d.frames_none h]; exact h
  | hsome xs f rest h ih => rw [d.frames_some h]; exact ih

theorem frames_append (xs ys : List A) :
    d.frames (xs++ys) =
      ((d.frames xs).1++(d.frames ((d.frames xs).2++ys)).1,(d.frames ((d.frames xs).2++ys)).2) := by
  induction xs using d.induction_on with
  | hnone xs h => simp [d.frames_none h]
  | hsome xs f rest h ih =>
    rw [d.frames_some (d.extends_ _ ys _ _ h),d.frames_some h,ih]
    rfl

end FrameDecoder
