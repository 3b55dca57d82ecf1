import ExprCheck.Proofs.Text.Bytes
import ExprCheck.Source.Span
import Mathlib.Data.List.DropRight

/-!
The place behind a text in closed form. Going over the text one character at a
time leads there.
-/

namespace ExprCheck.Position

/-- What follows the last newline, or all of the text if it has none. -/
def lastLine (text : List Char) : List Char :=
  text.rtakeWhile (· ≠ '\n')

def behind (text : List Char) : Position where
  offset := Text.byteLength text
  line := 1 + text.count '\n'
  column := 1 + (lastLine text).length

theorem advanceOver_append (p : Position) (v w : List Char) :
    p.advanceOver (v ++ w) = (p.advanceOver v).advanceOver w :=
  List.foldl_append

@[simp]
theorem lastLine_newline (text : List Char) : lastLine (text ++ ['\n']) = [] :=
  List.rtakeWhile_concat_neg _ _ _ (by simp)

theorem lastLine_append {c : Char} (hc : c ≠ '\n') (text : List Char) :
    lastLine (text ++ [c]) = lastLine text ++ [c] :=
  List.rtakeWhile_concat_pos _ _ _ (by simp [hc])

theorem lastLine_append_newline (text rest : List Char) :
    lastLine (text ++ '\n' :: rest) = lastLine rest := by
  induction rest using List.reverseRecOn with
  | nil => exact lastLine_newline text
  | append_singleton rest c ih =>
      rw [← List.cons_append, ← List.append_assoc]
      by_cases hc : c = '\n'
      · rw [hc, lastLine_newline, lastLine_newline]
      · rw [lastLine_append hc, lastLine_append hc, ih]

theorem lastLine_append_of_not_mem {rest : List Char} (h : '\n' ∉ rest) (text : List Char) :
    lastLine (text ++ rest) = lastLine text ++ rest := by
  induction rest using List.reverseRecOn with
  | nil => simp
  | append_singleton rest c ih =>
      obtain ⟨hrest, hc⟩ : '\n' ∉ rest ∧ '\n' ≠ c := by simpa using h
      rw [← List.append_assoc, lastLine_append (Ne.symm hc), ih hrest, List.append_assoc]

theorem lastLine_of_not_mem {line : List Char} (h : '\n' ∉ line) : lastLine line = line :=
  lastLine_append_of_not_mem h []

theorem advance_behind (text : List Char) (c : Char) :
    (behind text).advance c = behind (text ++ [c]) := by
  by_cases hc : c = '\n'
  · have hs : '\n'.utf8Size = 1 := rfl
    simp [behind, advance, hc, hs, Nat.add_assoc]
  · simp [behind, advance, hc, lastLine_append hc, Nat.add_assoc]

theorem advanceOver_behind (text w : List Char) :
    (behind text).advanceOver w = behind (text ++ w) := by
  induction w generalizing text with
  | nil => simp [advanceOver]
  | cons c w ih =>
      calc (behind text).advanceOver (c :: w)
          = ((behind text).advance c).advanceOver w := rfl
        _ = (behind (text ++ [c])).advanceOver w := by rw [advance_behind]
        _ = behind (text ++ c :: w) := by rw [ih, List.append_assoc, List.singleton_append]

theorem offset_advance (p : Position) (c : Char) :
    (p.advance c).offset = p.offset + c.utf8Size := by
  rw [advance]
  split
  · next hc =>
      rw [hc]
      rfl
  · rfl

theorem offset_advanceOver (p : Position) (cs : List Char) :
    (p.advanceOver cs).offset = p.offset + Text.byteLength cs := by
  induction cs generalizing p with
  | nil => rfl
  | cons c cs ih =>
      calc (p.advanceOver (c :: cs)).offset
          = ((p.advance c).advanceOver cs).offset := rfl
        _ = p.offset + Text.byteLength (c :: cs) := by
            rw [ih, offset_advance, Text.byteLength_cons, Nat.add_assoc]

theorem start_advanceOver (text : List Char) : start.advanceOver text = behind text :=
  advanceOver_behind [] text

theorem count_add_lastLine_le (text : List Char) :
    text.count '\n' + (lastLine text).length ≤ text.length := by
  induction text using List.reverseRecOn with
  | nil => exact Nat.le_refl 0
  | append_singleton text c ih =>
      by_cases hc : c = '\n'
      · have hcount := List.count_le_length (a := '\n') (l := text)
        simpa [hc] using hcount
      · simp [hc, lastLine_append hc]
        omega

/-- No character counts for the line and for the column. -/
theorem line_add_column_behind_le (text : List Char) :
    (behind text).line + (behind text).column ≤ 2 + Text.byteLength text := by
  have hcount := count_add_lastLine_le text
  have hlen := Text.length_le_byteLength text
  simp only [behind]
  omega

theorem behind_fits (text : List Char) {n : Nat} (hn : Text.byteLength text + 1 < n) :
    (behind text).line < n ∧ (behind text).column < n := by
  have hsum := line_add_column_behind_le text
  simp only [behind] at hsum ⊢
  omega

end ExprCheck.Position
