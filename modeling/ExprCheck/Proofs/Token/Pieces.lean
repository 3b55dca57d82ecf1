import ExprCheck.Proofs.Source.Position
import ExprCheck.Token.Scanner
import Mathlib.Data.List.Chain

/-!
Texts taken apart into pieces: a lexeme each, with the blanks before it. Every
text can be taken apart so that no two integers touch, and the tokens of a scan
are those of the pieces, whichever way they were found.
-/

namespace ExprCheck
namespace Text

theorem exists_range_of_inRanges {ranges : List (Nat × Nat)} {n : Nat}
    (h : inRanges ranges n = true) : ∃ r ∈ ranges, r.1 ≤ n ∧ n ≤ r.2 := by
  induction ranges with
  | nil => cases h
  | cons r rest ih =>
      simp only [inRanges, Bool.and_eq_true, Bool.or_eq_true, decide_eq_true_eq] at h
      obtain ⟨hf, hl | hr⟩ := h
      · exact ⟨r, by simp, hf, hl⟩
      · obtain ⟨s, hs, hn⟩ := ih hr
        exact ⟨s, by simp [hs], hn⟩

theorem digitRanges_apart_blankRanges :
    ∀ d ∈ digitRanges, ∀ b ∈ blankRanges, d.2 < b.1 ∨ b.2 < d.1 := by
  decide

theorem isBlank_of_isDigit {c : Char} (h : isDigit c = true) : isBlank c = false := by
  by_contra hb
  obtain ⟨d, hd, hd1, hd2⟩ := exists_range_of_inRanges h
  obtain ⟨b, hb, hb1, hb2⟩ := exists_range_of_inRanges (Bool.not_eq_false _ ▸ hb)
  have := digitRanges_apart_blankRanges d hd b hb
  omega

theorem isDigit_of_isBlank {c : Char} (h : isBlank c = true) : isDigit c = false := by
  by_contra hd
  rw [isBlank_of_isDigit (Bool.not_eq_false _ ▸ hd)] at h
  cases h

end Text

def IsLexeme : Category → List Char → Prop
  | .integer, w => w ≠ [] ∧ ∀ c ∈ w, Text.isDigit c = true
  | .plus, w => w = ['+']
  | .times, w => w = ['*']
  | .openParen, w => w = ['(']
  | .closeParen, w => w = [')']
  | .endOfInput, _ => False
  | .invalid, w => ∃ c, w = [c] ∧ Text.isDigit c = false ∧ Text.isBlank c = false ∧
      c ∉ ['+', '*', '(', ')']

theorem digits_or_single_of_isLexeme {category : Category} {w : List Char}
    (h : IsLexeme category w) :
    category = .integer ∧ (∀ c ∈ w, Text.isDigit c = true) ∨
      category ≠ .integer ∧ ∃ c, w = [c] ∧ Text.isDigit c = false ∧ Text.isBlank c = false := by
  cases category with
  | integer => exact .inl ⟨rfl, h.2⟩
  | plus | times | openParen | closeParen =>
      exact .inr ⟨by simp, _, h, by decide, by decide⟩
  | endOfInput => cases h
  | invalid =>
      obtain ⟨c, hw, hd, hb, _⟩ := h
      exact .inr ⟨by simp, c, hw, hd, hb⟩

theorem isDigit_iff_of_isLexeme {category : Category} {w : List Char} (h : IsLexeme category w)
    {c : Char} (hc : c ∈ w) : Text.isDigit c = true ↔ category = .integer := by
  obtain ⟨hi, hdigits⟩ | ⟨hi, d, rfl, hd, _⟩ := digits_or_single_of_isLexeme h
  · simp [hi, hdigits c hc]
  · obtain rfl := List.mem_singleton.mp hc
    simp [hi, hd]

namespace Scanner

theorem classify_eq_integer_iff (c : Char) : classify c = .integer ↔ Text.isDigit c = true := by
  unfold classify
  split
  · next h => simp [h]
  · next h =>
      simp only [h, Bool.false_eq_true, iff_false]
      repeat' split
      all_goals decide

/-- A lexeme starts with a character that is classified as such, and no blank. -/
theorem classify_of_isLexeme {category : Category} {c : Char} {cs : List Char}
    (h : IsLexeme category (c :: cs)) :
    classify c = category ∧ Text.isBlank c = false := by
  cases category with
  | integer =>
      have hc := h.2 c (by simp)
      exact ⟨(classify_eq_integer_iff c).mpr hc, Text.isBlank_of_isDigit hc⟩
  | plus | times | openParen | closeParen =>
      obtain ⟨rfl, rfl⟩ := List.cons.inj h
      decide
  | endOfInput => cases h
  | invalid =>
      obtain ⟨_, hc, hd, hb, hn⟩ := h
      obtain ⟨rfl, rfl⟩ := List.cons.inj hc
      simp only [List.mem_cons, List.not_mem_nil, or_false, not_or] at hn
      exact ⟨by simp [classify, hd, hn], hb⟩

/-- The rest does not go on with a digit. -/
def NoDigitAhead (rest : List Char) : Prop :=
  ∀ d ∈ rest.head?, Text.isDigit d = false

theorem noDigitAhead_iff {rest : List Char} :
    NoDigitAhead rest ↔ ¬ rest.head?.any Text.isDigit = true := by
  cases rest <;> simp [NoDigitAhead]

theorem takeWhile_of_noDigitAhead {rest : List Char} (h : NoDigitAhead rest) :
    rest.takeWhile Text.isDigit = [] ∧ rest.dropWhile Text.isDigit = rest := by
  cases rest with
  | nil => exact ⟨rfl, rfl⟩
  | cons d rest =>
      have hd := h d rfl
      simp [hd]

theorem cut_of_isLexeme {category : Category} {c : Char} {cs rest : List Char}
    (h : IsLexeme category (c :: cs)) (hr : category = .integer → NoDigitAhead rest) :
    cut c (cs ++ rest) = (c :: cs, rest) := by
  obtain ⟨hi, hdigits⟩ | ⟨_, d, hw, hd, _⟩ := digits_or_single_of_isLexeme h
  · have hcs : ∀ d ∈ cs, Text.isDigit d = true := fun d hd => hdigits d (.tail c hd)
    obtain ⟨ht, hd⟩ := takeWhile_of_noDigitAhead (hr hi)
    simp [cut, hdigits c (by simp), List.takeWhile_append_of_pos hcs,
      List.dropWhile_append_of_pos hcs, ht, hd]
  · obtain ⟨rfl, rfl⟩ := List.cons.inj hw
    simp [cut, hd]

theorem cut_append (c : Char) (cs : List Char) : (cut c cs).1 ++ (cut c cs).2 = c :: cs := by
  unfold cut
  split <;> simp

/-- What is cut off in front of a text is a lexeme, and all of it. -/
theorem isLexeme_cut {c : Char} (hb : Text.isBlank c = false) (cs : List Char) :
    IsLexeme (classify c) (cut c cs).1 ∧
      (classify c = .integer → NoDigitAhead (cut c cs).2) := by
  cases hd : Text.isDigit c with
  | true =>
      rw [(classify_eq_integer_iff c).mpr hd]
      simp only [cut, hd, ite_true]
      refine ⟨⟨by simp, ?_⟩, fun _ => ?_⟩
      · intro d hm
        rcases List.mem_cons.mp hm with rfl | hm
        · exact hd
        · exact List.all_eq_true.mp List.all_takeWhile d hm
      · intro d hm
        have h := List.head?_dropWhile_not Text.isDigit cs
        rw [Option.mem_def.mp hm] at h
        simpa using h
  | false =>
      have hi : classify c ≠ .integer := by simp [classify_eq_integer_iff, hd]
      refine ⟨?_, fun h => absurd h hi⟩
      simp only [cut, hd, Bool.false_eq_true, ite_false, classify]
      split
      · next h => simp [h, IsLexeme]
      split
      · next h => simp [h, IsLexeme]
      split
      · next h => simp [h, IsLexeme]
      split
      · next h => simp [h, IsLexeme]
      · simp_all [IsLexeme]

end Scanner

namespace Token

/-- The characters of the lexeme; an end marker has none. -/
def letters (t : Token) : List Char :=
  (t.lexeme.getD "").toList

theorem width_eq (t : Token) : t.width = Text.byteLength t.letters :=
  rfl

end Token

/-- A lexeme of a text with the blanks before it. -/
structure Piece where
  gap : List Char
  category : Category
  lexeme : List Char
  gap_blank : ∀ c ∈ gap, Text.isBlank c = true
  isLexeme : IsLexeme category lexeme

namespace Piece

def text (p : Piece) : List Char :=
  p.gap ++ p.lexeme

def token (p : Piece) (start : Position) : Token :=
  ⟨p.category, some (String.ofList p.lexeme),
    ⟨start.advanceOver p.gap, (start.advanceOver p.gap).advanceOver p.lexeme⟩⟩

def tokens (start : Position) : List Piece → List Token
  | [] => []
  | p :: ps => p.token start :: tokens (start.advanceOver p.text) ps

/-- Two integers need a gap between them. -/
def Apart (p q : Piece) : Prop :=
  p.category = .integer → q.category = .integer → q.gap ≠ []

theorem lexeme_ne_nil (p : Piece) : p.lexeme ≠ [] := by
  have h := p.isLexeme
  intro hn
  rw [hn] at h
  cases hc : p.category <;> simp [hc, IsLexeme] at h

theorem letters_token (p : Piece) (start : Position) : (p.token start).letters = p.lexeme := by
  simp [token, Token.letters]

theorem categories_tokens (start : Position) (ps : List Piece) :
    (tokens start ps).map (·.category) = ps.map (·.category) := by
  induction ps generalizing start with
  | nil => rfl
  | cons p ps ih => simp [tokens, token, ih]

theorem isEnd_tokens (start : Position) (ps : List Piece) :
    ∀ t ∈ tokens start ps, t.isEnd = false := by
  intro t ht
  have hc : t.category ∈ ps.map (·.category) :=
    categories_tokens start ps ▸ List.mem_map_of_mem ht
  obtain ⟨p, _, hp⟩ := List.mem_map.mp hc
  have hl := p.isLexeme
  rw [hp] at hl
  cases h : t.category with
  | endOfInput =>
      rw [h] at hl
      cases hl
  | _ => simp [Token.isEnd, h]

theorem begins_with_digit_iff (p : Piece) (rest : List Char) :
    (p.text ++ rest).head?.any Text.isDigit = true ↔ p.gap = [] ∧ p.category = .integer := by
  cases hg : p.gap with
  | cons b gap =>
      have hb := Text.isDigit_of_isBlank (p.gap_blank b (by simp [hg]))
      simp [text, hg, hb]
  | nil =>
      obtain ⟨c, cs, hl⟩ := List.exists_cons_of_ne_nil p.lexeme_ne_nil
      have hc : c ∈ p.lexeme := by simp [hl]
      rw [← isDigit_iff_of_isLexeme p.isLexeme hc]
      simp [text, hg, hl]

theorem noDigitAhead_text_append (p : Piece)
    (h : p.category = .integer → p.gap ≠ []) (rest : List Char) :
    Scanner.NoDigitAhead (p.text ++ rest) := by
  rw [Scanner.noDigitAhead_iff, p.begins_with_digit_iff]
  exact fun ⟨hg, hi⟩ => h hi hg

end Piece

/-- The pieces of a text and the blanks behind the last of them. -/
structure TakenApart (text : List Char) (ps : List Piece) (gap : List Char) : Prop where
  text_eq : text = ps.flatMap Piece.text ++ gap
  apart : ps.IsChain Piece.Apart
  gap_blank : ∀ c ∈ gap, Text.isBlank c = true

theorem noDigitAhead_of_blank {gap : List Char} (h : ∀ c ∈ gap, Text.isBlank c = true) :
    Scanner.NoDigitAhead gap :=
  fun _ hd => Text.isDigit_of_isBlank (h _ (List.mem_of_mem_head? hd))

/-- Behind an integer the next piece shows where it ends. -/
theorem TakenApart.noDigitAhead {p : Piece} {ps : List Piece} {text gap : List Char}
    (h : TakenApart text (p :: ps) gap) (hp : p.category = .integer) :
    Scanner.NoDigitAhead (ps.flatMap Piece.text ++ gap) := by
  cases ps with
  | nil => exact noDigitAhead_of_blank h.gap_blank
  | cons q ps =>
      have hq : p.Apart q := (List.isChain_cons.mp h.apart).1 q rfl
      rw [List.flatMap_cons, List.append_assoc]
      exact q.noDigitAhead_text_append (hq hp) _

theorem TakenApart.tail {p : Piece} {ps : List Piece} {text gap : List Char}
    (h : TakenApart text (p :: ps) gap) :
    TakenApart (ps.flatMap Piece.text ++ gap) ps gap :=
  ⟨rfl, (List.isChain_cons.mp h.apart).2, h.gap_blank⟩

namespace Scanner

theorem skipBlanks_append (s : Scanner) (gap rest : List Char)
    (hg : ∀ c ∈ gap, Text.isBlank c = true) (hr : ∀ c ∈ rest.head?, Text.isBlank c = false)
    (hs : s.rest = gap ++ rest) :
    s.skipBlanks =
      { s with
        rest := rest
        position := s.position.advanceOver gap
        blanks := s.blanks + gap.length } := by
  have hrest : rest.takeWhile Text.isBlank = [] ∧ rest.dropWhile Text.isBlank = rest := by
    cases rest with
    | nil => exact ⟨rfl, rfl⟩
    | cons c rest => simp [hr c rfl]
  simp [skipBlanks, hs, List.takeWhile_append_of_pos hg, List.dropWhile_append_of_pos hg, hrest]

theorem next_piece (s : Scanner) (p : Piece) {rest : List Char} (hf : s.finished = false)
    (hs : s.rest = p.text ++ rest) (hr : p.category = .integer → NoDigitAhead rest) :
    s.next = (some (p.token s.position),
      { s with
        rest := rest
        position := s.position.advanceOver p.text
        blanks := s.blanks + p.gap.length }) := by
  obtain ⟨c, cs, hl⟩ := List.exists_cons_of_ne_nil p.lexeme_ne_nil
  have hlex : IsLexeme p.category (c :: cs) := hl ▸ p.isLexeme
  obtain ⟨hc, hb⟩ := classify_of_isLexeme hlex
  have hskip := s.skipBlanks_append p.gap (c :: (cs ++ rest)) p.gap_blank
    (by simp [hb]) (by simp [hs, Piece.text, hl])
  simp only [next, hf, hskip, cut_of_isLexeme hlex hr, Bool.false_eq_true, ite_false, hc, hl,
    Piece.token, Piece.text, Position.advanceOver_append]

theorem next_of_blank (s : Scanner) (hf : s.finished = false)
    (hs : ∀ c ∈ s.rest, Text.isBlank c = true) :
    s.next = (some (.endMarker (.emptyAt (s.position.advanceOver s.rest))),
      { rest := []
        position := s.position.advanceOver s.rest
        blanks := s.blanks + s.rest.length
        finished := true }) := by
  have hskip := s.skipBlanks_append s.rest [] hs (by simp) (by simp)
  simp only [next, hf, hskip, Bool.false_eq_true, ite_false]

theorem collect_of_finished (s : Scanner) (hf : s.finished = true) (n : Nat)
    (done : List Token) : collect n s done = (done.reverse, s) := by
  cases n with
  | zero => rfl
  | succ n => simp [collect, next, hf]

theorem collect_pieces {ps : List Piece} {gap : List Char} {n : Nat} {s : Scanner}
    (done : List Token) (hf : s.finished = false) (h : TakenApart s.rest ps gap)
    (hn : ps.length < n) :
    collect n s done =
      (done.reverse ++ Piece.tokens s.position ps ++
          [.endMarker (.emptyAt (s.position.advanceOver s.rest))],
        { rest := []
          position := s.position.advanceOver s.rest
          blanks := s.blanks + (ps.flatMap Piece.gap ++ gap).length
          finished := true }) := by
  induction ps generalizing n s done with
  | nil =>
      cases n with
      | zero => cases hn
      | succ n =>
          have hrest : s.rest = gap := h.text_eq
          have hnext := s.next_of_blank hf (hrest ▸ h.gap_blank)
          simp [collect, hnext, collect_of_finished, Piece.tokens, hrest]
  | cons p ps ih =>
      cases n with
      | zero => cases hn
      | succ n =>
          have hrest : s.rest = p.text ++ (ps.flatMap Piece.text ++ gap) := by
            simp [h.text_eq]
          have hnext := s.next_piece p hf hrest h.noDigitAhead
          have htail : TakenApart (s.next).2.rest ps gap := by simpa only [hnext] using h.tail
          have hlater := ih (p.token s.position :: done) (by simpa only [hnext] using hf) htail
            (Nat.lt_of_succ_lt_succ hn)
          rw [hnext] at hlater
          simp only [collect, hnext, hlater]
          simp [Piece.tokens, hrest, Position.advanceOver_append, Nat.add_assoc]

theorem length_le_of_takenApart {ps : List Piece} {text gap : List Char}
    (h : TakenApart text ps gap) : ps.length ≤ text.length := by
  induction ps generalizing text with
  | nil => exact Nat.zero_le _
  | cons p ps ih =>
      have hl := List.length_pos_iff.mpr p.lexeme_ne_nil
      have hps := ih h.tail
      rw [h.text_eq]
      simp only [List.length_append, List.length_cons, List.flatMap_cons, Piece.text] at hps ⊢
      omega

theorem run_pieces {ps : List Piece} {gap : List Char} {s : Scanner}
    (hf : s.finished = false) (h : TakenApart s.rest ps gap) :
    s.run =
      (Piece.tokens s.position ps ++ [.endMarker (.emptyAt (s.position.advanceOver s.rest))],
        { rest := []
          position := s.position.advanceOver s.rest
          blanks := s.blanks + (ps.flatMap Piece.gap ++ gap).length
          finished := true }) := by
  have hn : ps.length < s.sizeHint.2 := by
    simp only [sizeHint, hf, Bool.false_eq_true, ite_false]
    have := length_le_of_takenApart h
    omega
  simp [run, collect_pieces [] hf h hn]

end Scanner

theorem TakenApart.cons {ps : List Piece} {rest gap : List Char} (h : TakenApart rest ps gap)
    (p : Piece) (hr : p.category = .integer → Scanner.NoDigitAhead rest) :
    TakenApart (p.text ++ rest) (p :: ps) gap := by
  refine ⟨by simp [h.text_eq], List.isChain_cons.mpr ⟨?_, h.apart⟩, h.gap_blank⟩
  intro q hq hp hqi hg
  obtain ⟨qs, rfl⟩ := List.head?_eq_some_iff.mp hq
  have hrest : rest = q.text ++ (qs.flatMap Piece.text ++ gap) := by simp [h.text_eq]
  have hno := Scanner.noDigitAhead_iff.mp (hr hp)
  rw [hrest, q.begins_with_digit_iff] at hno
  exact hno ⟨hg, hqi⟩

theorem exists_takenApart (text : List Char) : ∃ ps gap, TakenApart text ps gap := by
  induction hn : text.length using Nat.strongRecOn generalizing text with
  | ind n ih =>
      have hgap : ∀ c ∈ text.takeWhile Text.isBlank, Text.isBlank c = true :=
        List.all_eq_true.mp List.all_takeWhile
      have htext := List.takeWhile_append_dropWhile (p := Text.isBlank) (l := text)
      cases hd : text.dropWhile Text.isBlank with
      | nil =>
          rw [hd, List.append_nil] at htext
          exact ⟨[], text, rfl, .nil, htext ▸ hgap⟩
      | cons c cs =>
          have hb : Text.isBlank c = false := by
            have h := List.head?_dropWhile_not Text.isBlank text
            rw [hd] at h
            simpa using h
          obtain ⟨hlex, hdig⟩ := Scanner.isLexeme_cut hb cs
          let p : Piece := ⟨_, _, _, hgap, hlex⟩
          have hp : text = p.text ++ (Scanner.cut c cs).2 := by
            rw [Piece.text, List.append_assoc, Scanner.cut_append, ← hd, htext]
          have hlt : (Scanner.cut c cs).2.length < n := by
            have hl := List.length_pos_iff.mpr p.lexeme_ne_nil
            have hlen := congrArg List.length hp
            simp only [Piece.text, List.length_append] at hlen
            omega
          obtain ⟨ps, gap, h⟩ := ih _ hlt _ rfl
          exact ⟨p :: ps, gap, hp ▸ h.cons p hdig⟩

theorem scan_takenApart {text : String} {ps : List Piece} {gap : List Char}
    (h : TakenApart text.toList ps gap) :
    scan text = Piece.tokens .start ps ++
      [.endMarker (.emptyAt (Position.start.advanceOver text.toList))] := by
  rw [scan, Scanner.run_pieces rfl h]
  rfl

end ExprCheck
