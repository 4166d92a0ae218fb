import Mathlib.Tactic.Common

/-!
# Splitting a stream into frames

A framing says how the first frame is taken off the head of a text. It is `stable`: a frame that is
there already does not change when more text comes. A reader that keeps what is left over and takes
off all frames at each piece then gives the frames of the whole text, however it was cut
(`feed_eq`).
-/

namespace Neemata

structure Framing (α : Type) where
  /-- The first frame, and what stands after it. -/
  next : List α → Option (List α × List α)
  shrinks : ∀ {text frame rest}, next text = some (frame, rest) → rest.length < text.length
  stable : ∀ {text frame rest} more,
    next text = some (frame, rest) → next (text ++ more) = some (frame, rest ++ more)

namespace Framing

variable {α : Type} (framing : Framing α)

/-- All complete frames, and what is left over. -/
def frames (text : List α) : List (List α) × List α :=
  match _h : framing.next text with
  | none => ([], text)
  | some (frame, rest) => (frame :: (frames rest).1, (frames rest).2)
termination_by text.length
decreasing_by exact framing.shrinks _h

variable {framing}

theorem frames_of_none {text : List α} (h : framing.next text = none) :
    framing.frames text = ([], text) := by
  rw [frames]
  split
  · rfl
  · rename_i hsome
    rw [h] at hsome
    cases hsome

theorem frames_of_some {text frame rest : List α} (h : framing.next text = some (frame, rest)) :
    framing.frames text = (frame :: (framing.frames rest).1, (framing.frames rest).2) := by
  rw [frames]
  split
  · rename_i hnone
    rw [h] at hnone
    cases hnone
  · rename_i hsome
    rw [h] at hsome
    cases hsome
    rfl

variable (framing)

/-- What comes later is split together with what was left over. -/
theorem frames_append (text more : List α) :
    framing.frames (text ++ more) =
      ((framing.frames text).1 ++ (framing.frames ((framing.frames text).2 ++ more)).1,
        (framing.frames ((framing.frames text).2 ++ more)).2) := by
  induction text using frames.induct framing with
  | case1 text h => rw [frames_of_none h]; rfl
  | case2 text frame rest h ih =>
    rw [frames_of_some (framing.stable more h), frames_of_some h, ih]
    rfl

/-- What is left over has no frame. -/
theorem frames_leftover (text : List α) :
    framing.frames (framing.frames text).2 = ([], (framing.frames text).2) := by
  induction text using frames.induct framing with
  | case1 text h => rw [frames_of_none h]; exact frames_of_none h
  | case2 text frame rest h ih => rw [frames_of_some h]; exact ih

/-- The frames given out for the pieces in turn, and what is left over after the last one. -/
def feed (left : List α) : List (List α) → List (List α) × List α
  | [] => ([], left)
  | piece :: pieces =>
    ((framing.frames (left ++ piece)).1 ++ (feed (framing.frames (left ++ piece)).2 pieces).1,
      (feed (framing.frames (left ++ piece)).2 pieces).2)

theorem feed_eq {left : List α} (hleft : framing.frames left = ([], left))
    (pieces : List (List α)) :
    framing.feed left pieces = framing.frames (left ++ pieces.flatten) := by
  induction pieces generalizing left with
  | nil => rw [feed, List.flatten_nil, List.append_nil, hleft]
  | cons piece pieces ih =>
    rw [feed, ih (framing.frames_leftover _), List.flatten_cons, ← List.append_assoc,
      framing.frames_append (left ++ piece)]

end Framing

end Neemata
