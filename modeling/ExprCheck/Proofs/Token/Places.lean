import ExprCheck.Proofs.Token.Reading

/-!
Where the tokens of a scan stand. A token stands behind a part of the text whose
own tokens are those before it, and its span is found by counting in that part.
-/

namespace ExprCheck

namespace Piece

theorem isEnd_token (p : Piece) (start : Position) : (p.token start).isEnd = false :=
  isEnd_tokens start [p] _ (by simp [tokens])

theorem token_behind (p : Piece) (v : List Char) :
    p.token (.behind v) =
      ⟨p.category, some (String.ofList p.lexeme),
        ⟨.behind (v ++ p.gap), .behind (v ++ p.text)⟩⟩ := by
  simp only [token, text, Position.advanceOver_behind, List.append_assoc]

/-- A token among those of pieces is that of a piece among them. -/
theorem tokens_eq_append_cons {v : List Char} {ps : List Piece} {before after : List Token}
    {t : Token} (h : tokens (.behind v) ps = before ++ t :: after) :
    ∃ qs q rs, ps = qs ++ q :: rs ∧ before = tokens (.behind v) qs ∧
      t = q.token (.behind (v ++ qs.flatMap text)) := by
  induction before generalizing v ps with
  | nil =>
      cases ps with
      | nil => cases h
      | cons p ps =>
          obtain ⟨ht, _⟩ := List.cons.inj h
          exact ⟨[], p, ps, rfl, rfl, by simpa using ht.symm⟩
  | cons u before ih =>
      cases ps with
      | nil => cases h
      | cons p ps =>
          obtain ⟨hu, hrest⟩ := List.cons.inj h
          rw [Position.advanceOver_behind] at hrest
          obtain ⟨qs, q, rs, rfl, hb, ht⟩ := ih hrest
          refine ⟨p :: qs, q, rs, rfl, ?_, ?_⟩
          · rw [hb, tokens, hu, Position.advanceOver_behind]
          · simpa using ht

end Piece

theorem TakenApart.scan_eq {text : List Char} {ps : List Piece} {gap : List Char}
    (h : TakenApart text ps gap) :
    scan (String.ofList text) =
      Piece.tokens .start ps ++ [.endMarker (.emptyAt (.behind text))] := by
  have h : TakenApart (String.ofList text).toList ps gap := by simpa using h
  simpa only [Position.start_advanceOver, String.toList_ofList] using scan_takenApart h

/-- In `text`, the tokens `before` are those of `pre`, and `t` comes next. -/
structure Token.StandsBehind (text pre : List Char) (before : List Token) (t : Token) :
    Prop where
  text_eq : ∃ post, text = pre ++ t.letters ++ post
  before_eq : scan (String.ofList pre) = before ++ [.endMarker (.emptyAt (.behind pre))]
  span_eq : t.span = ⟨.behind pre, .behind (pre ++ t.letters)⟩
  letters_solid : ∀ c ∈ t.letters, Text.isBlank c = false
  letters_ne_nil : t.isEnd = false → t.letters ≠ []
  at_end : t.isEnd = true → pre = text ∧ t.letters = []

/-- The pieces before a piece, and its gap, are a taking apart of what is before it. -/
theorem TakenApart.before {qs rs : List Piece} {q : Piece} {text gap : List Char}
    (h : TakenApart text (qs ++ q :: rs) gap) :
    TakenApart (qs.flatMap Piece.text ++ q.gap) qs q.gap :=
  ⟨rfl, (List.isChain_append.mp h.apart).1, q.gap_blank⟩

theorem exists_standsBehind {text : List Char} {before after : List Token} {t : Token}
    (h : scan (String.ofList text) = before ++ t :: after) :
    ∃ pre, t.StandsBehind text pre before := by
  obtain ⟨ps, gap, hps⟩ := exists_takenApart text
  rw [hps.scan_eq] at h
  rcases List.eq_nil_or_concat after with rfl | ⟨after, e, rfl⟩
  · -- The last token is the end marker.
    obtain ⟨hb, ht⟩ := List.append_inj' h rfl
    obtain rfl := (List.cons.inj ht).1
    exact ⟨text,
      { text_eq := ⟨[], by simp [Token.letters, Token.endMarker]⟩
        before_eq := by rw [hps.scan_eq, hb]
        span_eq := by simp [Token.letters, Token.endMarker, Span.emptyAt]
        letters_solid := by simp [Token.letters, Token.endMarker]
        letters_ne_nil := by simp [Token.isEnd, Token.endMarker]
        at_end := fun _ => ⟨rfl, rfl⟩ }⟩
  · have hbody : Piece.tokens (.behind []) ps = before ++ t :: after := by
      rw [List.concat_eq_append, ← List.cons_append, ← List.append_assoc] at h
      exact (List.append_inj' h rfl).1
    obtain ⟨qs, q, rs, rfl, rfl, rfl⟩ := Piece.tokens_eq_append_cons hbody
    refine ⟨qs.flatMap Piece.text ++ q.gap, ?_⟩
    have hl := q.letters_token (.behind ([] ++ qs.flatMap Piece.text))
    exact
      { text_eq := ⟨rs.flatMap Piece.text ++ gap, by
          rw [hl]
          simp [hps.text_eq, Piece.text]⟩
        before_eq := hps.before.scan_eq
        span_eq := by
          rw [hl]
          simp [Piece.token_behind, Piece.text]
        letters_solid := by
          rw [hl]
          exact isBlank_of_isLexeme q.isLexeme
        letters_ne_nil := fun _ => hl ▸ q.lexeme_ne_nil
        at_end := fun he => by
          rw [q.isEnd_token] at he
          cases he }

theorem exists_standsBehind_of_mem {text : String} {t : Token} (h : t ∈ scan text) :
    ∃ pre before, t.StandsBehind text.toList pre before := by
  obtain ⟨before, after, hscan⟩ := List.append_of_mem h
  rw [← String.ofList_toList (s := text)] at hscan
  obtain ⟨pre, ht⟩ := exists_standsBehind hscan
  exact ⟨pre, before, ht⟩

namespace Token.StandsBehind

variable {text pre : List Char} {before : List Token} {t : Token}

theorem slice?_eq (h : t.StandsBehind text pre before) : t.span.slice? text = some t.letters := by
  obtain ⟨post, htext⟩ := h.text_eq
  rw [Span.slice?, h.span_eq, htext]
  exact Text.slice?_append pre t.letters post

/-- A lexeme has no newline. -/
theorem line_eq (h : t.StandsBehind text pre before) : t.span.start.line = t.span.stop.line := by
  have hcount : t.letters.count '\n' = 0 := by
    rw [List.count_eq_zero]
    intro hn
    have hb := h.letters_solid '\n' hn
    revert hb
    decide
  simp [h.span_eq, Position.behind, hcount]

theorem stop_offset_le (h : t.StandsBehind text pre before) :
    t.span.stop.offset ≤ Text.byteLength text := by
  obtain ⟨post, htext⟩ := h.text_eq
  simp [h.span_eq, Position.behind, htext]

theorem start_lt_stop (h : t.StandsBehind text pre before) (he : t.isEnd = false) :
    t.span.start.offset < t.span.stop.offset := by
  have hpos := Text.byteLength_pos (h.letters_ne_nil he)
  simp only [h.span_eq, Position.behind, Text.byteLength_append]
  omega

theorem fits (h : t.StandsBehind text pre before) {n : Nat} (hn : Text.byteLength text + 1 < n) :
    ∀ p ∈ [t.span.start, t.span.stop], p.line < n ∧ p.column < n := by
  obtain ⟨post, htext⟩ := h.text_eq
  have hlen : Text.byteLength text =
      Text.byteLength pre + Text.byteLength t.letters + Text.byteLength post := by
    rw [htext, Text.byteLength_append, Text.byteLength_append]
  have hstart := Position.behind_fits pre (n := n) (by omega)
  have hstop := Position.behind_fits (pre ++ t.letters) (n := n)
    (by rw [Text.byteLength_append]; omega)
  rw [h.span_eq]
  simpa using ⟨hstart, hstop⟩

end Token.StandsBehind

/-- The part of the text before a later token has `t` among its own tokens. -/
theorem stop_le_start_of_scan {text : List Char} {before between after : List Token}
    {t u : Token} (h : scan (String.ofList text) = before ++ t :: (between ++ u :: after)) :
    t.span.stop.offset ≤ u.span.start.offset := by
  have hsplit : scan (String.ofList text) = (before ++ t :: between) ++ u :: after := by
    rw [h]
    simp
  obtain ⟨pre, hu⟩ := exists_standsBehind hsplit
  have hpre : scan (String.ofList pre) =
      before ++ t :: (between ++ [.endMarker (.emptyAt (.behind pre))]) := by
    rw [hu.before_eq]
    simp
  obtain ⟨_, ht⟩ := exists_standsBehind hpre
  calc t.span.stop.offset
      ≤ Text.byteLength pre := ht.stop_offset_le
    _ = u.span.start.offset := by rw [hu.span_eq, Position.behind]

/-- A token of a scan starts behind the part of the text before it and stops
behind its lexeme, on the same line; both places are counted from the beginning
of the text. The span cuts out the lexeme, and later tokens have later spans. If
the text is short enough, 32 bits suffice for lines and columns. -/
theorem scan_spans_count_text (text : String) (before after : List Token) (t : Token)
    (h : scan text = before ++ t :: after)
    (hlen : Text.byteLength text.toList < UInt32.size - 1) :
    ∃ pre post, text.toList = pre ++ t.letters ++ post ∧
      scan (String.ofList pre) = before ++ [.endMarker (.emptyAt (.behind pre))] ∧
      t.span = ⟨.behind pre, .behind (pre ++ t.letters)⟩ ∧
      (t.isEnd = true → t.span.isEmpty = true ∧ pre = text.toList ∧ t.letters = []) ∧
      t.span.slice? text.toList = some t.letters ∧
      t.span.start.line = t.span.stop.line ∧
      (∀ u ∈ after, t.span.stop.offset ≤ u.span.start.offset ∧
        (t.isEnd = false → t.span.start.offset < u.span.start.offset)) ∧
      ∀ p ∈ [t.span.start, t.span.stop], p.line < UInt32.size ∧ p.column < UInt32.size := by
  have hscan : scan (String.ofList text.toList) = before ++ t :: after := by simpa using h
  obtain ⟨pre, ht⟩ := exists_standsBehind hscan
  obtain ⟨post, htext⟩ := ht.text_eq
  refine ⟨pre, post, htext, ht.before_eq, ht.span_eq, fun he => ?_, ht.slice?_eq, ht.line_eq,
    fun u hu => ?_, ht.fits (by omega)⟩
  · obtain ⟨hpre, hl⟩ := ht.at_end he
    refine ⟨?_, hpre, hl⟩
    simp [Span.isEmpty, ht.span_eq, hl]
  · obtain ⟨between, rest, rfl⟩ := List.append_of_mem hu
    have hle := stop_le_start_of_scan hscan
    exact ⟨hle, fun he => Nat.lt_of_lt_of_le (ht.start_lt_stop he) hle⟩

/-- An operator behind a digit of two bytes and a newline. -/
theorem scan_spans_count_second_line :
    let text := "\u0663\n * 7"
    let t : Token := ⟨.times, some "*", ⟨⟨4, 2, 2⟩, ⟨5, 2, 3⟩⟩⟩
    let before : List Token := [⟨.integer, some "\u0663", ⟨⟨0, 1, 1⟩, ⟨2, 1, 2⟩⟩⟩]
    let after : List Token :=
      [⟨.integer, some "7", ⟨⟨6, 2, 4⟩, ⟨7, 2, 5⟩⟩⟩, .endMarker (.emptyAt ⟨7, 2, 5⟩)]
    scan text = before ++ t :: after ∧ Text.byteLength text.toList < UInt32.size - 1 ∧
      ∃ pre post, text.toList = pre ++ t.letters ++ post ∧
        t.span = ⟨.behind pre, .behind (pre ++ t.letters)⟩ ∧
        t.span.slice? text.toList = some t.letters := by
  intro text t before after
  have h : scan text = before ++ t :: after := by decide
  have hlen : Text.byteLength text.toList < UInt32.size - 1 := by decide
  obtain ⟨pre, post, htext, _, hspan, _, hslice, _⟩ :=
    scan_spans_count_text text before after t h hlen
  exact ⟨h, hlen, pre, post, htext, hspan, hslice⟩

end ExprCheck
