import ExprCheck.Proofs.Token.Pieces
import ExprCheck.Token.Stream

/-!
Which tokens a text can be read as, apart from where they stand: the lexemes of
a taking apart and an end marker behind them. A text has one such reading, and
scanning finds it.
-/

namespace ExprCheck

/-- A token as if it stood in no text. -/
def Token.unplaced (t : Token) : Token :=
  { t with span := .dummy }

theorem Token.categories_unplaced (ts : List Token) :
    categories (ts.map unplaced) = categories ts := by
  rw [categories, List.map_map]
  rfl

namespace Piece

def unplaced (p : Piece) : Token :=
  ⟨p.category, some (String.ofList p.lexeme), .dummy⟩

theorem unplaced_tokens (start : Position) (ps : List Piece) :
    (tokens start ps).map Token.unplaced = ps.map unplaced := by
  induction ps generalizing start with
  | nil => rfl
  | cons p ps ih =>
      rw [tokens, List.map_cons, ih, List.map_cons]
      rfl

end Piece

/-- The pieces of a text in order, and one end marker. Spans are left open. -/
def IsReading (text : List Char) (ts : List Token) : Prop :=
  ∃ ps gap, TakenApart text ps gap ∧
    ts.map Token.unplaced = ps.map Piece.unplaced ++ [.endMarker .dummy]

theorem isBlank_of_isLexeme {category : Category} {w : List Char} (h : IsLexeme category w) :
    ∀ c ∈ w, Text.isBlank c = false := by
  intro c hc
  obtain ⟨_, hdigits⟩ | ⟨_, d, rfl, _, hb⟩ := digits_or_single_of_isLexeme h
  · exact Text.isBlank_of_isDigit (hdigits c hc)
  · obtain rfl := List.mem_singleton.mp hc
    exact hb

theorem Piece.countP_isBlank_text (p : Piece) : p.text.countP Text.isBlank = p.gap.length := by
  have hgap : p.gap.countP Text.isBlank = p.gap.length :=
    List.countP_eq_length.mpr p.gap_blank
  have hlexeme : p.lexeme.countP Text.isBlank = 0 := by
    rw [List.countP_eq_zero]
    intro c hc
    simp [isBlank_of_isLexeme p.isLexeme c hc]
  rw [text, List.countP_append, hgap, hlexeme, Nat.add_zero]

/-- The blanks of a text are those of the gaps. -/
theorem TakenApart.countP_isBlank {ps : List Piece} {text gap : List Char}
    (h : TakenApart text ps gap) :
    text.countP Text.isBlank = (ps.flatMap Piece.gap ++ gap).length := by
  induction ps generalizing text with
  | nil =>
      rw [h.text_eq]
      exact List.countP_eq_length.mpr h.gap_blank
  | cons p ps ih =>
      calc text.countP Text.isBlank
          = p.gap.length + (ps.flatMap Piece.text ++ gap).countP Text.isBlank := by
            rw [h.text_eq, List.flatMap_cons, List.append_assoc, List.countP_append,
              p.countP_isBlank_text]
        _ = ((p :: ps).flatMap Piece.gap ++ gap).length := by
            rw [ih h.tail]
            simp

theorem TakenApart.unplaced_scan {text : String} {ps : List Piece} {gap : List Char}
    (h : TakenApart text.toList ps gap) :
    (scan text).map Token.unplaced = ps.map Piece.unplaced ++ [.endMarker .dummy] := by
  rw [scan_takenApart h, List.map_append, Piece.unplaced_tokens]
  rfl

/-- A scan ends with its only end marker. -/
theorem exists_scan_eq_concat (text : String) :
    ∃ w e, scan text = w ++ [e] ∧ (∀ t ∈ w, t.isEnd = false) ∧ e.isEnd = true := by
  obtain ⟨ps, gap, h⟩ := exists_takenApart text.toList
  exact ⟨_, _, scan_takenApart h, Piece.isEnd_tokens .start ps, rfl⟩

theorem countP_isEnd_scan (text : String) : (scan text).countP Token.isEnd = 1 := by
  obtain ⟨w, e, hscan, hw, he⟩ := exists_scan_eq_concat text
  have hcount : w.countP Token.isEnd = 0 := by
    rw [List.countP_eq_zero]
    intro t ht
    simp [hw t ht]
  simp [hscan, hcount, he]

theorem hasEndMarker_scan (text : String) : Token.hasEndMarker (scan text) = true := by
  obtain ⟨w, e, hscan, _, he⟩ := exists_scan_eq_concat text
  rw [Token.hasEndMarker, countP_isEnd_scan]
  simp [hscan, he]

theorem blanks_scan (text : String) :
    (Scanner.ofText text).run.2.blanks = text.toList.countP Text.isBlank := by
  obtain ⟨ps, gap, h⟩ := exists_takenApart text.toList
  rw [Scanner.run_pieces rfl h, h.countP_isBlank]
  simp [Scanner.ofText]

/-- The tokens of a scan are the one reading of the text. Their end marker is
the only one, and the blanks that were skipped are all blanks of the text. -/
theorem scan_is_only_reading (text : String) :
    (∀ ts, IsReading text.toList ts ↔
      ts.map Token.unplaced = (scan text).map Token.unplaced) ∧
    Token.hasEndMarker (scan text) = true ∧
    (Scanner.ofText text).run.2.blanks = text.toList.countP Text.isBlank := by
  obtain ⟨ps, gap, h⟩ := exists_takenApart text.toList
  refine ⟨fun ts => ⟨?_, ?_⟩, hasEndMarker_scan text, ?_⟩
  · rintro ⟨qs, rest, hqs, hts⟩
    rw [hts, hqs.unplaced_scan]
  · intro hts
    exact ⟨ps, gap, h, hts.trans h.unplaced_scan⟩
  · rw [Scanner.run_pieces rfl h, h.countP_isBlank]
    simp [Scanner.ofText]

end ExprCheck
