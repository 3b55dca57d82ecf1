import ExprCheck.Proofs.Grammar.FaultCodes
import Mathlib.Data.List.Infix

/-!
Balanced parentheses and the fault that speaks of them. The fault is raised at
one token, wherever only a closing parenthesis was expected or a closing one has
no partner. At the end and at a closing parenthesis that settles the balance of
the whole text. Where an operand follows another within a group, it settles
nothing: what is behind the fault may close all that is open.
-/

namespace ExprCheck
namespace Token

variable {v w : List Token}

/-- Nothing is closed that is not open, and nothing is left open. -/
structure Balanced (ts : List Token) : Prop where
  nonneg : ∀ v, v <+: ts → 0 ≤ unclosed v
  settled : unclosed ts = 0

theorem balanced_iff_inits :
    ts.inits.all (0 ≤ unclosed ·) = true ∧ unclosed ts = 0 ↔ Balanced ts := by
  simp only [List.all_eq_true, decide_eq_true_eq, List.mem_inits]
  exact ⟨fun ⟨hn, h0⟩ => ⟨hn, h0⟩, fun h => ⟨h.nonneg, h.settled⟩⟩

instance (ts : List Token) : Decidable (Balanced ts) :=
  decidable_of_iff _ balanced_iff_inits

/-- The tokens behind `v` have to close what `v` leaves open, and no more. -/
theorem balanced_append_iff (hv : ∀ u, u <+: v → 0 ≤ unclosed u) :
    Balanced (v ++ w) ↔
      (∀ u, u <+: w → -unclosed v ≤ unclosed u) ∧ unclosed w = -unclosed v := by
  constructor
  · rintro ⟨hn, h0⟩
    rw [unclosed_append] at h0
    refine ⟨fun u hu => ?_, by omega⟩
    have hvu := hn (v ++ u) ((List.prefix_append_right_inj v).mpr hu)
    rw [unclosed_append] at hvu
    omega
  · rintro ⟨hn, h0⟩
    refine ⟨fun x hx => ?_, by rw [unclosed_append]; omega⟩
    obtain hx' | ⟨u, rfl⟩ := List.prefix_or_prefix_of_prefix hx (List.prefix_append v w)
    · exact hv x hx'
    · have hu := hn u ((List.prefix_append_right_inj v).mp hx)
      rw [unclosed_append]
      omega

end Token

namespace Grammar
namespace Progress

variable {limit : Nat} {p q : Progress} {t : Token} {v w : List Token} {f : Fault}

theorem Reaches.of_append (h : Reaches limit p (v ++ w) q) : ∃ r, Reaches limit p v r := by
  induction v generalizing p with
  | nil => exact ⟨p, .refl p⟩
  | cons t v ih =>
      cases h with
      | move hm hr =>
          obtain ⟨r, hv⟩ := ih hr
          exact ⟨r, .move hm hv⟩

theorem Reaches.unclosed_nonneg (h : Reaches limit {} w q) :
    ∀ v, v <+: w → 0 ≤ Token.unclosed v := by
  rintro v ⟨u, rfl⟩
  obtain ⟨r, hv⟩ := h.of_append
  rw [← hv.tracks_start.opened]
  exact Int.natCast_nonneg r.opened

/-- The fault is raised behind an operand: within a group at another operand and at
the end, and outside of groups at what would close one. -/
theorem Refuses.unmatchedParen_cases (h : Refuses limit q t f) (hcode : f.code = .unmatchedParen) :
    q.needsOperand = false ∧
      (q.opened ≠ 0 ∧ (t.category = .integer ∨ t.category = .openParen) ∨
        q.opened ≠ 0 ∧ t.category = .endOfInput ∨
        q.opened = 0 ∧ t.category = .closeParen) := by
  cases h with
  | tooDeep => cases hcode
  | noOperand hn ht | unclosed hn h0 ht | pastEnd hn h0 ht =>
      simp only [Fault.code, Fault.ofToken] at hcode
      cases hc : t.category <;> simp_all [Fault.unexpectedCode]

end Progress

/-- The fault is right about the end and about a closing parenthesis. At an
operand it tells that the tokens before it lack closing parentheses, and nothing
else: they complete a program, and the text is balanced if those behind do. -/
theorem balance_of_unmatchedParen (settings : GrammarSettings) (text : String) (f : Fault)
    (h : recognize settings (scan text) = .error f) (hcode : f.code = .unmatchedParen) :
    ∃ (p : List Token) (t : Token) (rest : List Token) (k : Nat), scan text = p ++ t :: rest ∧
      f.index (Recognizer.ofTokens settings (scan text)).recognize.2.consumed = p.length ∧
      f.Blames t ∧ Token.unclosed p = k ∧
      ((t.category = .endOfInput ∨ t.category = .closeParen) ∧
          ¬ Token.Balanced (scan text) ∨
        (t.category = .integer ∨ t.category = .openParen) ∧ 0 < k ∧
          (∀ close : Token, close.category = .closeParen →
            recognize settings (p ++ List.replicate k close) = .ok ()) ∧
          (Token.Balanced (scan text) ↔
            (∀ u, u <+: t :: rest → -(k : Int) ≤ Token.unclosed u) ∧
              Token.unclosed (t :: rest) = -k)) := by
  obtain ⟨p, q, t, rest, hscan, hr, hrefuses, hlast, hindex⟩ := Progress.exists_refused_of_scan h
  have hk : Token.unclosed p = q.opened := hr.tracks_start.opened.symm
  have hbalanced := Token.balanced_append_iff (w := t :: rest) hr.unclosed_nonneg
  rw [← hscan, hk] at hbalanced
  refine ⟨p, t, rest, q.opened, hscan, hindex, hrefuses.blames, hk, ?_⟩
  obtain ⟨hn, ⟨h0, ht⟩ | ⟨h0, ht⟩ | ⟨h0, ht⟩⟩ := hrefuses.unmatchedParen_cases hcode
  · refine .inr ⟨ht, Nat.pos_of_ne_zero h0, fun close hclose => ?_, hbalanced⟩
    rw [recognize_eq_result, hr.run_append]
    exact Progress.run_closing hn hclose
  · refine .inl ⟨.inl ht, fun hb => h0 ?_⟩
    obtain rfl := hlast (by simp [Token.isEnd, ht])
    have hend := (hbalanced.mp hb).2
    rw [Token.unclosed_endOfInput ht] at hend
    omega
  · refine .inl ⟨.inr ht, fun hb => ?_⟩
    have hclose := (hbalanced.mp hb).1 [t] (by simp)
    rw [Token.unclosed_closeParen ht] at hclose
    omega

/-- One parenthesis is open at the second integer, and closed behind it. -/
theorem balance_of_unmatchedParen_in_group :
    ∃ f, recognize .builtin (scan "(1 2)") = .error f ∧ f.code = .unmatchedParen ∧
      ∃ (p : List Token) (t : Token) (rest : List Token) (k : Nat),
        scan "(1 2)" = p ++ t :: rest ∧ f.Blames t ∧
        (t.category = .integer ∨ t.category = .openParen) ∧ 0 < k ∧ Token.unclosed p = k ∧
        Token.unclosed (t :: rest) = -k := by
  obtain ⟨f, h, hcode⟩ : ∃ f, recognize .builtin (scan "(1 2)") = .error f ∧
      f.code = .unmatchedParen := by
    rw [recognize_eq_result]
    exact ⟨_, rfl, rfl⟩
  have hbalanced : Token.Balanced (scan "(1 2)") := by decide
  obtain ⟨p, t, rest, k, hscan, -, hblames, hk, ⟨-, hnot⟩ | ⟨ht, h0, -, hiff⟩⟩ :=
    balance_of_unmatchedParen .builtin _ f h hcode
  · exact absurd hbalanced hnot
  · exact ⟨f, h, hcode, p, t, rest, k, hscan, hblames, ht, h0, hk, (hiff.mp hbalanced).2⟩

/-- A balanced text whose fault is described as a lack of balance. -/
theorem balanced_with_unmatchedParen :
    (∃ f, recognize .builtin (scan "(1 2)") = .error f ∧ f.code = .unmatchedParen ∧
      f.code.entry.description = "Parentheses are not balanced") ∧
      Token.Balanced (scan "(1 2)") := by
  refine ⟨?_, by decide⟩
  rw [recognize_eq_result]
  exact ⟨_, rfl, rfl, rfl⟩

end Grammar
end ExprCheck
