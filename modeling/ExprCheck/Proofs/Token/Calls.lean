import ExprCheck.Proofs.Token.Places
import Mathlib.Logic.Function.Iterate

/-!
Scanners part way through a text: what holds after any number of calls of `next`.
The text is split where the scanner stands into what it has gone over and what is
left. A call moves the split by one piece, or behind the blanks at the end.
-/

namespace ExprCheck

namespace Scanner

/-- The scanner after `n` calls of `next`. -/
def after (s : Scanner) (n : Nat) : Scanner :=
  (fun s => s.next.2)^[n] s

theorem after_succ (s : Scanner) (n : Nat) : s.after (n + 1) = (s.after n).next.2 :=
  Function.iterate_succ_apply' ..

theorem after_next (s : Scanner) (n : Nat) : s.next.2.after n = s.after (n + 1) :=
  rfl

/-! ## One call -/

/-- A scanner that has not finished gives the token of the next piece, or the end
marker if only blanks are left. -/
theorem next_cases {s : Scanner} (hf : s.finished = false) :
    (∃ (p : Piece) (rest : List Char), s.rest = p.text ++ rest ∧
      s.next = (some (p.token s.position),
        { s with
          rest := rest
          position := s.position.advanceOver p.text
          blanks := s.blanks + p.gap.length })) ∨
    ((∀ c ∈ s.rest, Text.isBlank c = true) ∧
      s.next = (some (.endMarker (.emptyAt (s.position.advanceOver s.rest))),
        { rest := []
          position := s.position.advanceOver s.rest
          blanks := s.blanks + s.rest.length
          finished := true })) := by
  obtain ⟨ps, gap, h⟩ := exists_takenApart s.rest
  cases ps with
  | nil =>
      have hrest : s.rest = gap := h.text_eq
      have hblank : ∀ c ∈ s.rest, Text.isBlank c = true := hrest ▸ h.gap_blank
      exact .inr ⟨hblank, s.next_of_blank hf hblank⟩
  | cons p ps =>
      have hrest : s.rest = p.text ++ (ps.flatMap Piece.text ++ gap) := by simp [h.text_eq]
      exact .inl ⟨p, _, hrest, s.next_piece p hf hrest h.noDigitAhead⟩

theorem next_of_finished {s : Scanner} (hf : s.finished = true) : s.next = (none, s) := by
  rw [next, if_pos hf]

/-- A call finishes a scanner by giving the end marker, and in no other way. -/
theorem finished_next_iff (s : Scanner) :
    s.next.2.finished = true ↔
      s.finished = true ∨ ∃ t, s.next.1 = some t ∧ t.isEnd = true := by
  cases hf : s.finished with
  | true => simp [next_of_finished hf, hf]
  | false =>
      rcases next_cases hf with ⟨p, rest, _, hnext⟩ | ⟨_, hnext⟩
      · simp [hnext, hf, p.isEnd_token]
      · simp [hnext, Token.isEnd, Token.endMarker]

/-- A call that gives a token other than the end marker goes over its bytes. -/
theorem offset_next {s s' : Scanner} {t : Token} (h : s.next = (some t, s'))
    (he : t.isEnd = false) :
    s.position.offset < s'.position.offset ∧
      s.position.offset + Text.byteLength t.letters ≤ s'.position.offset := by
  cases hf : s.finished with
  | true =>
      rw [next_of_finished hf] at h
      cases h
  | false =>
      rcases next_cases hf with ⟨p, rest, _, hnext⟩ | ⟨_, hnext⟩
      · rw [hnext] at h
        cases h
        have hpos := Text.byteLength_pos p.lexeme_ne_nil
        simp only [p.letters_token, Position.offset_advanceOver, Piece.text, Text.byteLength_append]
        omega
      · rw [hnext] at h
        cases h
        cases he

/-! ## Many calls -/

/-- Of `text`, the scanner has gone over `done`. -/
structure StandsBehind (text done : List Char) (s : Scanner) : Prop where
  text_eq : text = done ++ s.rest
  position_eq : s.position = .behind done
  blanks_eq : s.blanks = done.countP Text.isBlank
  at_end : s.finished = true → s.rest = []

theorem standsBehind_ofText (text : String) : StandsBehind text.toList [] (ofText text) where
  text_eq := rfl
  position_eq := rfl
  blanks_eq := rfl
  at_end := nofun

theorem StandsBehind.next {text done : List Char} {s : Scanner} (h : StandsBehind text done s) :
    ∃ done, StandsBehind text done s.next.2 := by
  cases hf : s.finished with
  | true =>
      rw [next_of_finished hf]
      exact ⟨done, h⟩
  | false =>
      rcases next_cases hf with ⟨p, rest, hrest, hnext⟩ | ⟨hblank, hnext⟩
      · rw [hnext]
        exact ⟨done ++ p.text,
          { text_eq := by rw [h.text_eq, hrest, List.append_assoc]
            position_eq := by
              change s.position.advanceOver p.text = _
              rw [h.position_eq, Position.advanceOver_behind]
            blanks_eq := by
              change s.blanks + p.gap.length = _
              rw [h.blanks_eq, List.countP_append, p.countP_isBlank_text]
            at_end := fun hfinished => absurd (hfinished.symm.trans hf) nofun }⟩
      · rw [hnext]
        exact ⟨text,
          { text_eq := (List.append_nil text).symm
            position_eq := by
              change s.position.advanceOver s.rest = _
              rw [h.position_eq, Position.advanceOver_behind, ← h.text_eq]
            blanks_eq := by
              change s.blanks + s.rest.length = _
              rw [h.blanks_eq, h.text_eq, List.countP_append, List.countP_eq_length.mpr hblank]
            at_end := fun _ => rfl }⟩

theorem exists_standsBehind_after (text : String) (n : Nat) :
    ∃ done, StandsBehind text.toList done ((ofText text).after n) := by
  induction n with
  | zero => exact ⟨[], standsBehind_ofText text⟩
  | succ n ih =>
      obtain ⟨done, h⟩ := ih
      rw [after_succ]
      exact h.next

theorem StandsBehind.dropBytes?_eq {text done : List Char} {s : Scanner}
    (h : StandsBehind text done s) : Text.dropBytes? s.position.offset text = some s.rest := by
  rw [h.position_eq, h.text_eq]
  exact Text.dropBytes?_byteLength done s.rest

theorem finished_after_iff (s : Scanner) (n : Nat) :
    (s.after n).finished = true ↔
      s.finished = true ∨ ∃ i < n, ∃ t, (s.after i).next.1 = some t ∧ t.isEnd = true := by
  induction n with
  | zero => simp [after]
  | succ n ih =>
      rw [after_succ, finished_next_iff, ih, or_assoc]
      simp only [Nat.exists_lt_succ_right]

theorem after_of_finished {s : Scanner} (hf : s.finished = true) (n : Nat) : s.after n = s :=
  Function.iterate_fixed (congrArg Prod.snd (next_of_finished hf)) n

/-! ## The tokens to come -/

/-- One call after the other, the scanner gives the tokens of `ts`, and then none. -/
def Gives (s : Scanner) (ts : List Token) : Prop :=
  ∀ i, (s.after i).next.1 = ts[i]?

theorem gives_nil {s : Scanner} (hf : s.finished = true) : s.Gives [] := by
  intro i
  rw [after_of_finished hf, next_of_finished hf]
  rfl

theorem gives_cons {s : Scanner} {t : Token} {ts : List Token} (h : s.next.1 = some t)
    (hts : s.next.2.Gives ts) : s.Gives (t :: ts) := by
  intro i
  cases i with
  | zero => exact h
  | succ i =>
      rw [← after_next, List.getElem?_cons_succ]
      exact hts i

theorem gives_pieces {s : Scanner} {ps : List Piece} {gap : List Char} (hf : s.finished = false)
    (h : TakenApart s.rest ps gap) :
    s.Gives (Piece.tokens s.position ps ++
      [.endMarker (.emptyAt (s.position.advanceOver s.rest))]) := by
  induction ps generalizing s with
  | nil =>
      have hrest : s.rest = gap := h.text_eq
      have hnext := s.next_of_blank hf (hrest ▸ h.gap_blank)
      refine gives_cons (congrArg Prod.fst hnext) (gives_nil ?_)
      rw [hnext]
  | cons p ps ih =>
      have hrest : s.rest = p.text ++ (ps.flatMap Piece.text ++ gap) := by simp [h.text_eq]
      have hnext := s.next_piece p hf hrest h.noDigitAhead
      refine gives_cons (congrArg Prod.fst hnext) ?_
      rw [hnext, hrest, Position.advanceOver_append]
      exact ih hf h.tail

/-- The bounds on the number of tokens to come are kept. -/
theorem exists_gives_within_sizeHint (s : Scanner) :
    ∃ ts, s.Gives ts ∧ s.sizeHint.1 ≤ ts.length ∧ ts.length ≤ s.sizeHint.2 := by
  cases hf : s.finished with
  | true => exact ⟨[], gives_nil hf, by simp [sizeHint, hf]⟩
  | false =>
      obtain ⟨ps, gap, h⟩ := exists_takenApart s.rest
      have hlength := length_le_of_takenApart h
      have htokens : (Piece.tokens s.position ps).length = ps.length := by
        rw [← List.length_map (·.category), Piece.categories_tokens, List.length_map]
      refine ⟨_, gives_pieces hf h, ?_⟩
      simp only [sizeHint, hf, List.length_append, List.length_singleton, htokens]
      exact ⟨Nat.le_add_left .., Nat.succ_le_succ hlength⟩

/-- After any number of calls the scanner stands where the part of the text that it
has gone over ends, between two characters, and has the rest before it. Each call
that gives a token goes on by the token's bytes at least, until the end marker has
been given; from then on calls give nothing and change nothing. -/
theorem stands_in_text_after_calls (text : String) (n : Nat) :
    let s := (ofText text).after n
    (∃ done, text.toList = done ++ s.rest ∧
      s.position = Position.start.advanceOver done ∧
      Text.slice? 0 s.position.offset text.toList = some done ∧
      Text.dropBytes? s.position.offset text.toList = some s.rest ∧
      s.blanks = done.countP Text.isBlank) ∧
    (∃ ts : List Token, (∀ i : Nat, (s.after i).next.1 = ts[i]?) ∧
      s.sizeHint.1 ≤ ts.length ∧ ts.length ≤ s.sizeHint.2) ∧
    (∀ t s', s.next = (some t, s') → t.isEnd = false →
      s.position.offset < s'.position.offset ∧
        s.position.offset + Text.byteLength t.letters ≤ s'.position.offset) ∧
    (s.finished = true ↔
      ∃ i < n, ∃ t, ((ofText text).after i).next.1 = some t ∧ t.isEnd = true) ∧
    (s.finished = true → s.position.offset = Text.byteLength text.toList ∧
      ∀ k, (s.after k).next = (none, s)) := by
  intro s
  obtain ⟨done, h⟩ := exists_standsBehind_after text n
  refine ⟨⟨done, h.text_eq, ?place, ?before, h.dropBytes?_eq, h.blanks_eq⟩,
    exists_gives_within_sizeHint s, fun t s' => offset_next, ?finished, fun hf => ⟨?at_end, ?later⟩⟩
  case place => rw [h.position_eq, Position.start_advanceOver]
  case before =>
    have hslice := Text.slice?_append [] done s.rest
    rw [List.nil_append, ← h.text_eq] at hslice
    rw [h.position_eq]
    exact hslice
  case finished =>
    rw [finished_after_iff, or_iff_right (show ¬ (ofText text).finished = true from nofun)]
  case at_end =>
    have htext := h.text_eq
    rw [h.at_end hf, List.append_nil] at htext
    rw [h.position_eq, htext]
    rfl
  case later =>
    intro k
    rw [after_of_finished hf, next_of_finished hf]

end Scanner
end ExprCheck
