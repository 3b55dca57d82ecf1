import ExprCheck.Check
import ExprCheck.Proofs.Grammar.Derivation
import ExprCheck.Proofs.Token.Pieces

/-!
Programs as texts. The grammar of the tokens is read with a category written as
one of its lexemes and blanks before it:

    program    → expression blank*
    expression → term (blank* '+' term)*
    term       → factor (blank* '*' factor)*
    factor     → blank* digit+ | blank* '(' expression blank* ')'

Scanning takes whole runs of digits. It loses no derivation by that, since two
integers never follow each other in an expression.
-/

namespace ExprCheck
namespace Grammar

/-- A category is written as a lexeme with blanks before it. -/
def Spelling.text : Spelling Char :=
  fun c w => ∃ gap lexeme, (∀ b ∈ gap, Text.isBlank b = true) ∧ IsLexeme c lexeme ∧
    w = gap ++ lexeme

/-- A text is a program with at most `limit` parentheses open at once. -/
def IsProgram (limit : Nat) (text : List Char) : Prop :=
  ∃ body gap, text = body ++ gap ∧ Derives .text .expression limit body ∧
    ∀ b ∈ gap, Text.isBlank b = true

theorem spelling_text_iff {c : Category} {w : List Char} :
    Spelling.text c w ↔ ∃ p : Piece, p.category = c ∧ p.text = w := by
  constructor
  · rintro ⟨gap, lexeme, hg, hl, rfl⟩
    exact ⟨⟨gap, c, lexeme, hg, hl⟩, rfl, rfl⟩
  · rintro ⟨p, rfl, rfl⟩
    exact ⟨p.gap, p.lexeme, p.gap_blank, p.isLexeme, rfl⟩

theorem exists_pieces_of_derives {phrase : Phrase} {d : Nat} {w : List Char}
    (h : Derives .text phrase d w) :
    ∃ ps : List Piece, w = ps.flatMap Piece.text ∧
      Derives .plain phrase d (ps.map (·.category)) := by
  induction h with
  | expression _ _ ihv ihw | term _ _ ihv ihw =>
      obtain ⟨ps, rfl, hp⟩ := ihv
      obtain ⟨qs, rfl, hq⟩ := ihw
      refine ⟨ps ++ qs, by simp, ?_⟩
      rw [List.map_append]
      constructor <;> assumption
  | noSum | noProduct => exact ⟨[], rfl, by constructor⟩
  | sum ho _ _ ihv ihw =>
      obtain ⟨o, hc, rfl⟩ := spelling_text_iff.mp ho
      obtain ⟨ps, rfl, hp⟩ := ihv
      obtain ⟨qs, rfl, hq⟩ := ihw
      exact ⟨o :: ps ++ qs, by simp, by simpa [hc] using Derives.sum rfl hp hq⟩
  | product ho _ _ ihv ihw =>
      obtain ⟨o, hc, rfl⟩ := spelling_text_iff.mp ho
      obtain ⟨ps, rfl, hp⟩ := ihv
      obtain ⟨qs, rfl, hq⟩ := ihw
      exact ⟨o :: ps ++ qs, by simp, by simpa [hc] using Derives.product rfl hp hq⟩
  | integer hv =>
      obtain ⟨p, hc, rfl⟩ := spelling_text_iff.mp hv
      exact ⟨[p], by simp, by simpa [hc] using Derives.integer rfl⟩
  | group ho _ hcl ihv =>
      obtain ⟨o, hoc, rfl⟩ := spelling_text_iff.mp ho
      obtain ⟨c, hcc, rfl⟩ := spelling_text_iff.mp hcl
      obtain ⟨ps, rfl, hp⟩ := ihv
      exact ⟨o :: ps ++ [c], by simp, by simpa [hoc, hcc] using Derives.group rfl hp rfl⟩

theorem derives_of_pieces {phrase : Phrase} {d : Nat} {u : List Category}
    (h : Derives .plain phrase d u) {ps : List Piece} (hps : ps.map (·.category) = u) :
    Derives .text phrase d (ps.flatMap Piece.text) := by
  have spell (p : Piece) : Spelling.text p.category p.text :=
    spelling_text_iff.mpr ⟨p, rfl, rfl⟩
  induction h generalizing ps with
  | expression _ _ ihv ihw | term _ _ ihv ihw =>
      obtain ⟨x, y, rfl, hx, hy⟩ := List.map_eq_append_iff.mp hps
      have hv := ihv hx
      have hw := ihw hy
      rw [List.flatMap_append]
      constructor <;> assumption
  | noSum | noProduct =>
      obtain rfl := List.map_eq_nil_iff.mp hps
      constructor
  | sum ho _ _ ihv ihw =>
      cases ho
      obtain ⟨_, y, rfl, hx, hy⟩ := List.map_eq_append_iff.mp hps
      obtain ⟨o, x, rfl, ho, hx⟩ := List.map_eq_cons_iff.mp hx
      rw [List.flatMap_append, List.flatMap_cons]
      exact .sum (ho ▸ spell o) (ihv hx) (ihw hy)
  | product ho _ _ ihv ihw =>
      cases ho
      obtain ⟨_, y, rfl, hx, hy⟩ := List.map_eq_append_iff.mp hps
      obtain ⟨o, x, rfl, ho, hx⟩ := List.map_eq_cons_iff.mp hx
      rw [List.flatMap_append, List.flatMap_cons]
      exact .product (ho ▸ spell o) (ihv hx) (ihw hy)
  | integer hv =>
      cases hv
      obtain ⟨p, x, rfl, hp, hx⟩ := List.map_eq_cons_iff.mp hps
      obtain rfl := List.map_eq_nil_iff.mp hx
      simpa using Derives.integer (hp ▸ spell p)
  | group ho _ hc ihv =>
      cases ho
      cases hc
      obtain ⟨_, y, rfl, hx, hy⟩ := List.map_eq_append_iff.mp hps
      obtain ⟨o, x, rfl, ho, hx⟩ := List.map_eq_cons_iff.mp hx
      obtain ⟨c, z, rfl, hc, hz⟩ := List.map_eq_cons_iff.mp hy
      obtain rfl := List.map_eq_nil_iff.mp hz
      rw [List.flatMap_append, List.flatMap_cons, List.flatMap_singleton]
      exact .group (ho ▸ spell o) (ihv hx) (hc ▸ spell c)

/-- Behind an integer no operand is read, and so no other integer. -/
theorem Progress.Reaches.isChain {limit : Nat} {p q : Progress} {w : List Token}
    (h : Reaches limit p w q) :
    (Token.categories w).IsChain fun c d => c = .integer → d ≠ .integer := by
  induction h with
  | refl _ => exact .nil
  | @move p q _ t _ hm hr ih =>
      refine List.isChain_cons.mpr ⟨fun d hd ht hdi => ?_, ih⟩
      have hq : q.needsOperand = false := by
        obtain ⟨_, _, rfl⟩ | ⟨_, hc, _⟩ | ⟨_, hc | hc, _⟩ | ⟨_, hc, _⟩ := move_on_cases hm
        · rfl
        all_goals simp [hc] at ht
      cases hr with
      | refl => cases hd
      | move hm' _ =>
          cases hd
          obtain ⟨hn, _⟩ | ⟨_, hc, _⟩ | ⟨_, hc | hc, _⟩ | ⟨_, hc, _⟩ := move_on_cases hm'
          · rw [hq] at hn
            cases hn
          all_goals simp [hc] at hdi

theorem apart_of_derives {limit : Nat} {ps : List Piece}
    (h : Derives .plain .expression limit (ps.map (·.category))) : ps.IsChain Piece.Apart := by
  rw [← Piece.categories_tokens .start ps] at h
  obtain ⟨q, hr, _⟩ := (Progress.reaches_complete_iff limit _).mpr h
  have hc := hr.isChain
  rw [Token.categories, Piece.categories_tokens, List.isChain_map] at hc
  exact hc.imp fun p q hpq hp hq => absurd hq (hpq hp)

theorem recognize_endMarked_iff (settings : GrammarSettings) {w : List Token} {e : Token}
    (hw : ∀ t ∈ w, t.isEnd = false) (he : e.isEnd = true) :
    recognize settings (w ++ [e]) = .ok () ↔
      Derives .plain .expression settings.depthLimit (Token.categories w) := by
  rw [recognize_ok_iff]
  constructor
  · rintro ⟨v, rfl | ⟨e', _, h⟩, hv, hd⟩
    · have := hv e (by simp)
      rw [he] at this
      cases this
    · rw [List.append_inj_left' h rfl]
      exact hd
  · exact fun h => ⟨w, .inr ⟨e, he, rfl⟩, hw, h⟩

/-- The tokens of a text are recognized if and only if it is a program. -/
theorem recognize_scan_iff (settings : GrammarSettings) (text : String) :
    recognize settings (scan text) = .ok () ↔ IsProgram settings.depthLimit text.toList := by
  constructor
  · intro h
    obtain ⟨ps, gap, hps⟩ := exists_takenApart text.toList
    rw [scan_takenApart hps, recognize_endMarked_iff settings (Piece.isEnd_tokens _ ps) rfl] at h
    rw [Token.categories, Piece.categories_tokens] at h
    exact ⟨_, gap, hps.text_eq, derives_of_pieces h rfl, hps.gap_blank⟩
  · rintro ⟨body, gap, htext, hbody, hgap⟩
    obtain ⟨ps, rfl, hd⟩ := exists_pieces_of_derives hbody
    have hps : TakenApart text.toList ps gap := ⟨htext, apart_of_derives hd, hgap⟩
    rw [scan_takenApart hps, recognize_endMarked_iff settings (Piece.isEnd_tokens _ ps) rfl]
    rwa [Token.categories, Piece.categories_tokens]

end Grammar

theorem ofText_accepts_iff (settings : Settings) (text : String) (length : Nat) :
    (∃ a, (Pass.ofText settings text length).outcome = .ok a) ↔
      Grammar.recognize settings.grammar (scan text) = .ok () := by
  have hr : Grammar.recognize settings.grammar (scan text) =
      (Grammar.Recognizer.ofTokens settings.grammar
        (Scanner.ofText text).run.1).recognize.1 := rfl
  rw [hr]
  unfold Pass.ofText Analyzer.scan
  cases h : (Grammar.Recognizer.ofTokens settings.grammar
    (Scanner.ofText text).run.1).recognize.1 <;> simp [h]

/-- A text is accepted if and only if it is not too long in bytes and is a
program within the depth that is allowed. -/
theorem check_accepts_iff_isProgram (settings : Settings) (text : String) :
    (∃ a, (check settings text).outcome = .ok a) ↔
      Text.byteLength text.toList ≤ settings.scanning.inputLimit ∧
      Grammar.IsProgram settings.grammar.depthLimit text.toList := by
  by_cases h : Text.byteLength text.toList ≤ settings.scanning.inputLimit
  · simp only [check, h, ite_true, true_and]
    rw [ofText_accepts_iff, Grammar.recognize_scan_iff]
  · simp [check, h]

end ExprCheck
