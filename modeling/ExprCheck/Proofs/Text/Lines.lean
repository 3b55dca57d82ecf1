import ExprCheck.Text.Lines

/-!
What the lines of a text are, said from its terminators: a newline ends a line, together with
one carriage return right before it, and what stands behind the last newline is a line unless
it is empty.
-/

namespace ExprCheck.Text

inductive IsLines : List Char → List (List Char) → Prop where
  | none : IsLines [] []
  | unterminated {line : List Char} : line ≠ [] → '\n' ∉ line → IsLines line [line]
  | newline {line rest : List Char} {ls : List (List Char)} :
      '\n' ∉ line → line.getLast? ≠ some '\r' → IsLines rest ls →
      IsLines (line ++ '\n' :: rest) (line :: ls)
  | returnNewline {line rest : List Char} {ls : List (List Char)} :
      '\n' ∉ line → IsLines rest ls →
      IsLines (line ++ '\r' :: '\n' :: rest) (line :: ls)

/-! Pieces between newlines -/

theorem pieces_cons {c : Char} (hc : c ≠ '\n') {cs part : List Char} {parts : List (List Char)}
    (h : pieces cs = part :: parts) : pieces (c :: cs) = (c :: part) :: parts := by
  simp only [pieces, List.foldr_cons] at h ⊢
  rw [h]
  split
  · exact absurd rfl hc
  · next hnil => cases hnil
  · next hcons =>
      obtain ⟨rfl, rfl⟩ := List.cons.inj hcons
      rfl

theorem pieces_append_newline {line : List Char} (h : '\n' ∉ line) (rest : List Char) :
    pieces (line ++ '\n' :: rest) = line :: pieces rest := by
  induction line with
  | nil => rfl
  | cons c line ih =>
      obtain ⟨hc, hline⟩ := not_or.mp (mt List.mem_cons.mpr h)
      exact pieces_cons (Ne.symm hc) (ih hline)

theorem pieces_of_not_mem {line : List Char} (h : '\n' ∉ line) : pieces line = [line] := by
  induction line with
  | nil => rfl
  | cons c line ih =>
      obtain ⟨hc, hline⟩ := not_or.mp (mt List.mem_cons.mpr h)
      exact pieces_cons (Ne.symm hc) (ih hline)

/-- A text without a newline is one piece, and any other is cut at its first. -/
theorem exists_first_newline (cs : List Char) :
    '\n' ∉ cs ∨ ∃ line rest, cs = line ++ '\n' :: rest ∧ '\n' ∉ line := by
  by_cases h : '\n' ∈ cs
  · exact .inr (List.eq_append_cons_of_mem h)
  · exact .inl h

/-- Texts are taken apart at their first newline, as long as they have one. -/
@[elab_as_elim]
theorem lines_induction {P : List Char → Prop} (last : ∀ line, '\n' ∉ line → P line)
    (more : ∀ line rest, '\n' ∉ line → P rest → P (line ++ '\n' :: rest)) (cs : List Char) :
    P cs := by
  induction hn : cs.length using Nat.strongRecOn generalizing cs with
  | ind n ih =>
      obtain h | ⟨line, rest, rfl, h⟩ := exists_first_newline cs
      · exact last cs h
      · refine more line rest h (ih rest.length ?_ rest rfl)
        simp only [List.length_append, List.length_cons] at hn
        omega

theorem pieces_ne_nil (cs : List Char) : pieces cs ≠ [] := by
  obtain h | ⟨line, rest, rfl, h⟩ := exists_first_newline cs
  · rw [pieces_of_not_mem h]
    exact List.cons_ne_nil _ _
  · rw [pieces_append_newline h]
    exact List.cons_ne_nil _ _

theorem pieces_eq_splitOn (cs : List Char) : pieces cs = cs.splitOn '\n' := by
  have hsingle {line : List Char} (h : '\n' ∉ line) :
      line.splitOnP (· == '\n') = [line] := by
    refine List.splitOnP_eq_singleton fun c hc => beq_false_of_ne ?_
    rintro rfl
    exact h hc
  rw [List.splitOn_eq_splitOnP]
  induction cs using lines_induction with
  | last line h => rw [pieces_of_not_mem h, hsingle h]
  | more line rest h ih =>
      rw [pieces_append_newline h, List.splitOnP_append_cons line rest (by decide), hsingle h, ih]
      rfl

theorem length_pieces (cs : List Char) : (pieces cs).length = 1 + cs.count '\n' := by
  induction cs using lines_induction with
  | last line h => rw [pieces_of_not_mem h, List.count_eq_zero.mpr h, List.length_singleton]
  | more line rest h ih =>
      rw [pieces_append_newline h, List.length_cons, ih, List.count_append,
        List.count_eq_zero.mpr h, List.count_cons_self]
      omega

theorem not_mem_of_mem_pieces {cs piece : List Char} (h : piece ∈ pieces cs) : '\n' ∉ piece := by
  induction cs using lines_induction with
  | last line hline =>
      rw [pieces_of_not_mem hline, List.mem_singleton] at h
      rwa [h]
  | more line rest hline ih =>
      rw [pieces_append_newline hline] at h
      obtain rfl | h := List.mem_cons.mp h
      · exact hline
      · exact ih h

/-- The first piece is what stands before the first newline. -/
theorem getElem?_zero_pieces (cs : List Char) :
    (pieces cs)[0]? = some (cs.takeWhile (· ≠ '\n')) := by
  induction cs with
  | nil => rfl
  | cons c cs ih =>
      by_cases hc : c = '\n'
      · rw [hc, pieces_newline, List.takeWhile_cons_of_neg (by simp)]
        rfl
      · obtain ⟨part, parts, hparts⟩ := List.exists_cons_of_ne_nil (pieces_ne_nil cs)
        rw [hparts] at ih
        rw [pieces_cons hc hparts, List.takeWhile_cons_of_pos (by simpa using hc),
          ← Option.some.inj ih]
        rfl

/-! Lines -/

theorem dropReturn_append (line : List Char) : dropReturn (line ++ ['\r']) = line := by
  simp [dropReturn]

theorem dropReturn_of_getLast? {line : List Char} (h : line.getLast? ≠ some '\r') :
    dropReturn line = line := by
  unfold dropReturn
  split
  · next kept hr =>
      have hlast : line.getLast? = some '\r' := by rw [← List.head?_reverse, hr]; rfl
      exact absurd hlast h
  · rfl

theorem lines_append_newline {line : List Char} (h : '\n' ∉ line) (rest : List Char) :
    lines (line ++ '\n' :: rest) = dropReturn line :: lines rest := by
  obtain ⟨part, parts, hparts⟩ := List.exists_cons_of_ne_nil (pieces_ne_nil rest)
  simp [lines, pieces_append_newline h, hparts]

theorem lines_of_not_mem {line : List Char} (h : '\n' ∉ line) (hne : line ≠ []) :
    lines line = [line] := by
  simp [lines, pieces_of_not_mem h, hne]

theorem IsLines.eq_lines {cs : List Char} {ls : List (List Char)} (h : IsLines cs ls) :
    ls = lines cs := by
  induction h with
  | none => rfl
  | unterminated hne h => rw [lines_of_not_mem h hne]
  | newline h hlast _ ih =>
      rw [lines_append_newline h, dropReturn_of_getLast? hlast, ih]
  | @returnNewline line rest ls h _ ih =>
      have hline : '\n' ∉ line ++ ['\r'] := by simp [h]
      have hlines := lines_append_newline hline rest
      rw [dropReturn_append, List.append_assoc, List.singleton_append] at hlines
      rw [hlines, ih]

theorem isLines_lines (cs : List Char) : IsLines cs (lines cs) := by
  induction cs using lines_induction with
  | last line h =>
      by_cases hline : line = []
      · rw [hline]
        exact .none
      · rw [lines_of_not_mem h hline]
        exact .unterminated hline h
  | more line rest h hrest =>
      rw [lines_append_newline h]
      by_cases hlast : line.getLast? = some '\r'
      · obtain ⟨line, rfl⟩ : ∃ kept, line = kept ++ ['\r'] := List.getLast?_eq_some_iff.mp hlast
        rw [dropReturn_append, List.append_assoc, List.singleton_append]
        exact .returnNewline (by simp_all) hrest
      · rw [dropReturn_of_getLast? hlast]
        exact .newline h hlast hrest

/-- A text has lines in one way. -/
theorem isLines_iff {cs : List Char} {ls : List (List Char)} :
    IsLines cs ls ↔ ls = lines cs :=
  ⟨IsLines.eq_lines, fun h => h ▸ isLines_lines cs⟩

/-! Texts put together -/

/-- Behind a newline the lines are those of what stands there. -/
theorem lines_append (cs rest : List Char) :
    lines (cs ++ '\n' :: rest) = lines (cs ++ ['\n']) ++ lines rest := by
  induction cs using lines_induction with
  | last line h =>
      rw [lines_append_newline h, lines_append_newline h]
      rfl
  | more line cs h ih =>
      rw [List.append_assoc, List.append_assoc, List.cons_append, List.cons_append,
        lines_append_newline h, lines_append_newline h, ih, List.cons_append]

theorem length_lines_append_newline (cs : List Char) :
    (lines (cs ++ ['\n'])).length = 1 + cs.count '\n' := by
  induction cs using lines_induction with
  | last line h =>
      rw [lines_append_newline h, List.count_eq_zero_of_not_mem h]
      rfl
  | more line cs h ih =>
      rw [List.append_assoc, List.cons_append, lines_append_newline h, List.length_cons, ih,
        List.count_append, List.count_eq_zero_of_not_mem h, List.count_cons_self]
      omega

/-- Sets a carriage return before every newline. -/
def withReturns (cs : List Char) : List Char :=
  cs.flatMap fun c => if c = '\n' then ['\r', '\n'] else [c]

theorem withReturns_of_not_mem {line : List Char} (h : '\n' ∉ line) :
    withReturns line = line := by
  induction line with
  | nil => rfl
  | cons c line ih =>
      obtain ⟨hc, hline⟩ := not_or.mp (mt List.mem_cons.mpr h)
      rw [withReturns, List.flatMap_cons, if_neg (Ne.symm hc), ← withReturns, ih hline]
      rfl

theorem lines_withReturns {cs : List Char} (h : '\r' ∉ cs) :
    lines (withReturns cs) = lines cs := by
  induction cs using lines_induction with
  | last line hline => rw [withReturns_of_not_mem hline]
  | more line rest hline ih =>
      obtain ⟨hr, hrest⟩ : '\r' ∉ line ∧ '\r' ∉ rest := by simpa using h
      have hreturn : '\n' ∉ line ++ ['\r'] := by simp [hline]
      have hlast : line.getLast? ≠ some '\r' := fun hl => hr (List.mem_of_getLast? hl)
      have hcut : withReturns (line ++ '\n' :: rest) =
          (line ++ ['\r']) ++ '\n' :: withReturns rest := by
        rw [withReturns, List.flatMap_append, ← withReturns, withReturns_of_not_mem hline]
        simp [withReturns]
      rw [hcut, lines_append_newline hreturn, lines_append_newline hline, dropReturn_append,
        dropReturn_of_getLast? hlast, ih hrest]

end ExprCheck.Text
