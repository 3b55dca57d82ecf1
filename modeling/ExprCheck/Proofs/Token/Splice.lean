import ExprCheck.Proofs.Token.Reading

/-!
Scanning texts put together. Blanks between them, or no blanks, make no
difference to the tokens, unless an integer would go on across the seam.
-/

namespace ExprCheck

/-- The first text ends with a digit and the second starts with one. -/
def DigitsMeet (u v : List Char) : Prop :=
  u.getLast?.any Text.isDigit = true ∧ v.head?.any Text.isDigit = true

instance (u v : List Char) : Decidable (DigitsMeet u v) :=
  inferInstanceAs (Decidable (_ ∧ _))

namespace Piece

/-- A piece with more blanks before it. -/
def indent (p : Piece) (x : List Char) (hx : ∀ c ∈ x, Text.isBlank c = true) : Piece :=
  { p with
    gap := x ++ p.gap
    gap_blank := fun c hc => (List.mem_append.mp hc).elim (hx c) (p.gap_blank c) }

theorem text_indent (p : Piece) (x : List Char) (hx : ∀ c ∈ x, Text.isBlank c = true) :
    (p.indent x hx).text = x ++ p.text := by
  simp [indent, text]

theorem ends_with_digit_iff (p : Piece) :
    p.text.getLast?.any Text.isDigit = true ↔ p.category = .integer := by
  have hlast : p.text.getLast? = some (p.lexeme.getLast p.lexeme_ne_nil) := by
    rw [text, List.getLast?_append, List.getLast?_eq_some_getLast p.lexeme_ne_nil]
    rfl
  rw [hlast, Option.any_some]
  exact isDigit_iff_of_isLexeme p.isLexeme (List.getLast_mem p.lexeme_ne_nil)

end Piece

namespace TakenApart

variable {text u v x gap : List Char} {ps qs : List Piece}

theorem ends_with_digit_iff (h : TakenApart text ps gap) :
    text.getLast?.any Text.isDigit = true ↔
      gap = [] ∧ ∃ p ∈ ps.getLast?, p.category = .integer := by
  rcases List.eq_nil_or_concat gap with rfl | ⟨gap, b, rfl⟩
  · rcases List.eq_nil_or_concat ps with rfl | ⟨ps, p, rfl⟩
    · simp [h.text_eq]
    · have htext : text = ps.flatMap Piece.text ++ p.text := by simp [h.text_eq]
      have hp : p.text ≠ [] := by simp [Piece.text, p.lexeme_ne_nil]
      rw [htext, List.getLast?_append_of_ne_nil _ hp, p.ends_with_digit_iff]
      simp
  · have hb := Text.isDigit_of_isBlank (h.gap_blank b (by simp))
    simp [h.text_eq, hb]

theorem begins_with_digit_iff (h : TakenApart text ps gap) :
    text.head?.any Text.isDigit = true ↔
      ∃ p ∈ ps.head?, p.gap = [] ∧ p.category = .integer := by
  cases ps with
  | nil =>
      have htext : text = gap := by simp [h.text_eq]
      cases hg : gap with
      | nil => simp [htext, hg]
      | cons b gap =>
          have hb := Text.isDigit_of_isBlank (h.gap_blank b (by simp [hg]))
          simp [htext, hg, hb]
  | cons p ps =>
      have htext : text = p.text ++ (ps.flatMap Piece.text ++ gap) := by simp [h.text_eq]
      rw [htext, p.begins_with_digit_iff]
      simp

/-- The pieces of two texts are those of the texts put together, the blanks in
between going to the first piece behind them. -/
theorem splice {ugap vgap : List Char} (hu : TakenApart u ps ugap) (hv : TakenApart v qs vgap)
    (hx : ∀ c ∈ x, Text.isBlank c = true) (hd : x ≠ [] ∨ ¬ DigitsMeet u v) :
    ∃ rs gap, TakenApart (u ++ x ++ v) rs gap ∧
      rs.map Piece.unplaced = ps.map Piece.unplaced ++ qs.map Piece.unplaced := by
  have hgap : ∀ c ∈ ugap ++ x, Text.isBlank c = true := fun c hc =>
    (List.mem_append.mp hc).elim (hu.gap_blank c) (hx c)
  cases qs with
  | nil =>
      refine ⟨ps, ugap ++ x ++ vgap, ⟨?_, hu.apart, ?_⟩, by simp⟩
      · simp [hu.text_eq, hv.text_eq]
      · intro c hc
        exact (List.mem_append.mp hc).elim (hgap c) (hv.gap_blank c)
  | cons q qs =>
      refine ⟨ps ++ q.indent (ugap ++ x) hgap :: qs, vgap, ⟨?_, ?_, hv.gap_blank⟩, ?_⟩
      · simp [hu.text_eq, hv.text_eq, Piece.text_indent]
      · have hqs := List.isChain_cons.mp hv.apart
        refine List.isChain_append.mpr ⟨hu.apart, List.isChain_cons.mpr hqs, ?_⟩
        intro p hp _ hq hpi hqi hnil
        obtain rfl := Option.some.inj hq
        -- Without a gap at the seam the two integers would be digits that meet.
        obtain ⟨rfl, rfl, hqg⟩ : ugap = [] ∧ x = [] ∧ q.gap = [] := by
          simpa [Piece.indent] using hnil
        refine hd.elim (fun h => h rfl) fun h => h ⟨?_, ?_⟩
        · exact hu.ends_with_digit_iff.mpr ⟨rfl, p, hp, hpi⟩
        · exact hv.begins_with_digit_iff.mpr ⟨q, rfl, hqg, hqi⟩
      · rw [List.map_append]
        rfl

end TakenApart

/-- The tokens of two texts with blanks in between are the tokens of the first,
without the end marker, and those of the second. -/
theorem unplaced_scan_append {u v x : String} (hx : ∀ c ∈ x.toList, Text.isBlank c = true)
    (hd : x ≠ "" ∨ ¬ DigitsMeet u.toList v.toList) :
    (scan (u ++ x ++ v)).map Token.unplaced =
      (scan u).dropLast.map Token.unplaced ++ (scan v).map Token.unplaced := by
  obtain ⟨ps, ugap, hu⟩ := exists_takenApart u.toList
  obtain ⟨qs, vgap, hv⟩ := exists_takenApart v.toList
  have hd : x.toList ≠ [] ∨ ¬ DigitsMeet u.toList v.toList := by
    simpa only [ne_eq, String.toList_eq_nil_iff] using hd
  obtain ⟨rs, gap, hr, hrs⟩ := hu.splice hv hx hd
  have hr : TakenApart (u ++ x ++ v).toList rs gap := by simpa using hr
  rw [hr.unplaced_scan, hrs, List.map_dropLast, hu.unplaced_scan, hv.unplaced_scan,
    List.dropLast_concat, List.append_assoc]

theorem categories_scan_append {u v x : String} (hx : ∀ c ∈ x.toList, Text.isBlank c = true)
    (hd : x ≠ "" ∨ ¬ DigitsMeet u.toList v.toList) :
    Token.categories (scan (u ++ x ++ v)) =
      (Token.categories (scan u)).dropLast ++ Token.categories (scan v) := by
  rw [← Token.categories_unplaced, unplaced_scan_append hx hd]
  simp only [Token.categories, List.map_append, List.map_dropLast, List.map_map]
  rfl

theorem categories_scan {text : String} {ps : List Piece} {gap : List Char}
    (h : TakenApart text.toList ps gap) :
    Token.categories (scan text) = ps.map (·.category) ++ [.endOfInput] := by
  rw [scan_takenApart h, Token.categories, List.map_append, Piece.categories_tokens]
  rfl

/-- Without their end markers, the categories of a text are those of its parts. -/
theorem categories_dropLast_scan_append {u v : String} (hd : ¬ DigitsMeet u.toList v.toList) :
    Token.categories (scan (u ++ v)).dropLast =
      Token.categories (scan u).dropLast ++ Token.categories (scan v).dropLast := by
  have hne : Token.categories (scan v) ≠ [] := by
    obtain ⟨ps, gap, h⟩ := exists_takenApart v.toList
    simp [categories_scan h]
  have h := categories_scan_append (u := u) (v := v) (x := "") (by simp) (.inr hd)
  rw [String.append_empty] at h
  have hdrop (ts : List Token) :
      Token.categories ts.dropLast = (Token.categories ts).dropLast :=
    List.map_dropLast
  rw [hdrop, hdrop, hdrop, h, List.dropLast_append_of_ne_nil hne]

/-- Where digits meet, integers do. -/
theorem integers_meet {u v : String} (h : DigitsMeet u.toList v.toList) :
    (Token.categories (scan u)).dropLast.getLast? = some .integer ∧
      (Token.categories (scan v)).head? = some .integer := by
  obtain ⟨ps, ugap, hu⟩ := exists_takenApart u.toList
  obtain ⟨qs, vgap, hv⟩ := exists_takenApart v.toList
  obtain ⟨_, p, hp, hpi⟩ := hu.ends_with_digit_iff.mp h.1
  obtain ⟨q, hq, _, hqi⟩ := hv.begins_with_digit_iff.mp h.2
  rw [categories_scan hu, categories_scan hv, List.dropLast_concat, List.getLast?_map,
    List.head?_append, List.head?_map, Option.mem_def.mp hp, Option.mem_def.mp hq]
  simp [hpi, hqi]

end ExprCheck
