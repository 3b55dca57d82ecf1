import ExprCheck.Proofs.Check.Reports
import ExprCheck.Proofs.Grammar.Closure
import ExprCheck.Proofs.Token.Counts
import Mathlib.Algebra.Group.Even

/-!
How the counts of an accepted text add up. The analyzer counts tokens by their
categories, the recognizer counts what it consumes and how deep it goes; neither
knows of the other. That they agree is what a reading knows of the tokens behind
it.
-/

namespace ExprCheck

/-- A kind of two categories is counted by counting both. -/
theorem Token.countP_kind {c d : Category} (hne : c ≠ d) {kind : Category → Bool}
    (hkind : ∀ e, kind e = true ↔ e = c ∨ e = d) (ts : List Token) :
    ts.countP (kind ·.category) =
      ts.countP (·.category = c) + ts.countP (·.category = d) := by
  induction ts with
  | nil => rfl
  | cons t ts ih =>
      simp only [List.countP_cons, ih, hkind, decide_eq_true_eq]
      by_cases hc : t.category = c
      · simp [hc, hne]
        omega
      · simp [hc]
        omega

theorem Token.countP_isParen (ts : List Token) :
    ts.countP (·.category.isParen) =
      ts.countP (·.category = .openParen) + ts.countP (·.category = .closeParen) :=
  countP_kind (by decide) (fun e => by cases e <;> decide) ts

theorem Token.countP_isOperator (ts : List Token) :
    ts.countP (·.category.isOperator) =
      ts.countP (·.category = .plus) + ts.countP (·.category = .times) :=
  countP_kind (by decide) (fun e => by cases e <;> decide) ts

namespace Grammar
namespace Progress

variable {limit : Nat} {p q : Progress} {t : Token} {done w : List Token}

/-- What a reading that stands at `p` knows of the tokens behind it. -/
structure AddsUp (done : List Token) (p : Progress) : Prop where
  operands : done.countP (·.category = .integer) + (if p.needsOperand then 1 else 0) =
    done.countP (·.category.isOperator) + 1
  groups : done.countP (·.category = .openParen) =
    done.countP (·.category = .closeParen) + p.opened
  invalid : done.countP (·.category = .invalid) = 0
  deepest_le : p.deepest ≤ done.countP (·.category = .openParen)
  deepest_eq_zero_iff : p.deepest = 0 ↔ done.countP (·.category = .openParen) = 0

theorem addsUp_start : AddsUp [] {} where
  operands := rfl
  groups := rfl
  invalid := rfl
  deepest_le := Nat.le_refl 0
  deepest_eq_zero_iff := Iff.rfl

theorem AddsUp.move (h : AddsUp done p) (hm : p.move limit t = .on q) :
    AddsUp (done ++ [t]) q := by
  obtain ⟨ho, hg, hi, hd, hz⟩ := h
  -- A move adds to one count, and changes where the reading stands by as much.
  obtain ⟨hn, ht, rfl⟩ | ⟨hn, ht, _, rfl⟩ | ⟨hn, ht | ht, rfl⟩ | ⟨hn, ht, h0, rfl⟩ :=
    move_on_cases hm <;>
  constructor <;>
    simp [hn, ht, Category.isOperator] at * <;> omega

theorem Reaches.addsUp (h : Reaches limit p w q) (hp : AddsUp done p) : AddsUp (done ++ w) q := by
  induction h generalizing done with
  | refl p => simpa using hp
  | move hm _ ih => simpa using ih (hp.move hm)

/-- An expression has an operand more than operators and as many closing
parentheses as opening ones. -/
theorem Completes.addsUp {m : Nat} (h : Completes limit w m) :
    w.countP (·.category = .integer) = w.countP (·.category.isOperator) + 1 ∧
      w.countP (·.category.isParen) = 2 * w.countP (·.category = .openParen) ∧
      w.countP (·.category = .invalid) = 0 ∧
      m ≤ w.countP (·.category = .openParen) ∧
      (m = 0 ↔ w.countP (·.category = .openParen) = 0) := by
  obtain ⟨q, hr, ⟨hn, h0⟩, rfl⟩ := h
  have hq := hr.addsUp addsUp_start
  rw [List.nil_append] at hq
  have hoperands := hq.operands
  have hgroups := hq.groups
  simp only [hn, Bool.false_eq_true, ite_false] at hoperands
  refine ⟨hoperands, ?_, hq.invalid, hq.deepest_le, hq.deepest_eq_zero_iff⟩
  rw [Token.countP_isParen]
  omega

end Progress
end Grammar

/-- What is told of an accepted text comes from the reading of its tokens and
from the tally of them. -/
theorem exists_completes_of_accepted {settings : Settings} {text : String} {a : Acceptance}
    (h : (check settings text).outcome = .ok a) :
    ∃ w e, scan text = w ++ [e] ∧ e.isEnd = true ∧
      Grammar.Progress.Completes settings.grammar.depthLimit w a.maxDepth ∧
      a.tokensConsumed = (scan text).length ∧ a.tokenCount = (scan text).length ∧
      a.tally = .ofTokens settings.scanning.detailed (scan text)
        (Scanner.ofText text).run.2.blanks := by
  have hlength : Text.byteLength text.toList ≤ settings.scanning.inputLimit := by
    by_contra hlong
    rw [(check_of_tooLarge (Nat.not_le.mp hlong)).1] at h
    cases h
  rw [check_outcome hlength] at h
  obtain ⟨w, e, hscan, _, he⟩ := exists_scan_eq_concat text
  cases ho : ({} : Grammar.Progress).run settings.grammar.depthLimit (scan text) with
  | mk result consumed deepest =>
      rw [ho] at h
      cases result with
      | error f => cases h
      | ok _ =>
          cases h
          obtain ⟨hw, hc⟩ := (Grammar.Progress.run_scan_eq_ok_iff ..).mp ho
          rw [hscan, List.dropLast_concat] at hw hc
          exact ⟨w, e, hscan, he, hw, by rw [hc, hscan, List.length_append]; rfl, rfl, rfl⟩

/-- In an accepted text there is an operand more than there are operators, and
nesting takes two parentheses a level. As many tokens were counted as consumed:
the parentheses, the operands, and behind each operand an operator or the end. -/
theorem accepted_counts_add_up (settings : Settings) (text : String) (a : Acceptance)
    (h : (check settings text).outcome = .ok a) (hd : settings.scanning.detailed = true) :
    a.tally.integers = a.tally.operators + 1 ∧ a.tally.invalid = 0 ∧
      Even a.tally.parens ∧ a.maxDepth ≤ a.tally.parens / 2 ∧
      (a.maxDepth = 0 ↔ a.tally.parens = 0) ∧
      a.tokenCount = a.tokensConsumed ∧ a.tokensConsumed = a.tally.total ∧
      a.tally.total = 2 * a.tally.integers + a.tally.parens := by
  obtain ⟨w, e, hscan, he, hw, hconsumed, hcount, htally⟩ := exists_completes_of_accepted h
  obtain ⟨hoperands, hparens, hinvalid, hdepth, hflat⟩ := hw.addsUp
  have hc : a.tally.Counts (scan text) := by
    rw [htally, hd]
    exact Tally.ofTokens_counts ..
  -- The end marker is of none of the kinds that are counted.
  have hend : e.category = .endOfInput := by simpa [Token.isEnd] using he
  have hcounts (kind : Category → Bool) (hk : kind .endOfInput = false) :
      (scan text).countP (kind ·.category) = w.countP (kind ·.category) := by
    simp [hscan, hend, hk]
  have hi := hc.integers.trans (hcounts (· = .integer) rfl)
  have ho := hc.operators.trans (hcounts Category.isOperator rfl)
  have hp := hc.parens.trans (hcounts Category.isParen rfl)
  have hv := hc.invalid.trans (hcounts (· = .invalid) rfl)
  have htotal := hc.total_eq_sum
  have hlength := hc.total
  refine ⟨by omega, by omega, ?_, by omega, by omega, by omega, by omega, by omega⟩
  exact ⟨_, (hp.trans hparens).trans (Nat.two_mul _)⟩

/-- Three operands, one of them a digit of two bytes in two groups. -/
theorem accepted_counts_add_up_in_product :
    let settings := ({} : Overrides).toSettings
    let a : Acceptance :=
      { inputLength := 15
        tally :=
          { total := 12, integers := 3, operators := 2, parens := 6, blanks := 2
            longestInteger := 2 }
        tokenCount := 12
        tokensConsumed := 12
        maxDepth := 2 }
    ((check settings "(1+22) * ((\u0663))").outcome = .ok a ∧ settings.scanning.detailed = true) ∧
      a.tally.integers = a.tally.operators + 1 ∧ a.tally.invalid = 0 ∧ Even a.tally.parens ∧
      a.maxDepth ≤ a.tally.parens / 2 ∧ (a.maxDepth = 0 ↔ a.tally.parens = 0) ∧
      a.tokenCount = a.tokensConsumed ∧ a.tokensConsumed = a.tally.total ∧
      a.tally.total = 2 * a.tally.integers + a.tally.parens := by
  intro settings a
  have h : (check settings "(1+22) * ((\u0663))").outcome = .ok a := by
    rw [check_outcome (by decide)]
    rfl
  exact ⟨⟨h, rfl⟩, accepted_counts_add_up settings _ a h rfl⟩

end ExprCheck
