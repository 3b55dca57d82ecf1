import ExprCheck.Proofs.Check.Reports
import ExprCheck.Proofs.Grammar.Unplaced
import ExprCheck.Proofs.Token.Splice

/-!
Blanks put into a text. They move what stands behind them and are counted, and
nothing else comes of it, unless they take an integer apart. Then the text is no
program.
-/

namespace ExprCheck

theorem Tally.ofTokens_unplaced (detailed : Bool) (ts : List Token) (blanks : Nat) :
    ofTokens detailed (ts.map Token.unplaced) blanks = ofTokens detailed ts blanks := by
  rw [ofTokens, List.foldl_map]
  rfl

/-- Outcomes of checks with the same verdict, that differ only in the length of
the text, the blanks in it and the place of a fault. -/
inductive SameUpToBlanks : (a b : Except Rejection Acceptance) → Prop where
  | accepted {a b : Acceptance} :
      a.tokenCount = b.tokenCount → a.tokensConsumed = b.tokensConsumed →
      a.maxDepth = b.maxDepth → { a.tally with blanks := 0 } = { b.tally with blanks := 0 } →
      SameUpToBlanks (.ok a) (.ok b)
  | rejected {f g : Grammar.Fault} :
      f.unplaced = g.unplaced → f.code = g.code →
      SameUpToBlanks (.error (.fault f)) (.error (.fault g))

theorem sameUpToBlanks_of_unplaced {settings : Settings} {t u : String} {o p : Grammar.Outcome}
    (hts : (scan t).map Token.unplaced = (scan u).map Token.unplaced)
    (ho : o.unplaced = p.unplaced) :
    SameUpToBlanks (concluded settings t o) (concluded settings u p) := by
  obtain ⟨r, c, d⟩ := o
  obtain ⟨s, c', d'⟩ := p
  obtain ⟨hr, rfl, rfl⟩ := Grammar.Outcome.mk.inj ho
  cases r with
  | ok _ =>
      cases s with
      | error g => cases hr
      | ok _ =>
          have htally := congrArg (Tally.ofTokens settings.scanning.detailed · 0) hts
          have hlen := congrArg List.length hts
          simp only [Tally.ofTokens_unplaced, List.length_map] at htally hlen
          exact .accepted hlen rfl rfl htally
  | error f =>
      cases s with
      | ok _ => cases hr
      | error g =>
          have hfg : f.unplaced = g.unplaced := Except.error.inj hr
          have hcode : f.code = g.code := by
            rw [← f.code_unplaced, hfg, g.code_unplaced]
          exact .rejected hfg hcode

/-- Blanks between two texts change nothing but places and the count of blanks,
unless digits meet there. A text in which they part such digits is rejected. -/
theorem check_with_blanks_between (settings : Settings) (u v w : String) (hw : w ≠ "")
    (hb : ∀ c ∈ w.toList, Text.isBlank c = true)
    (hlen : Text.byteLength (u ++ w ++ v).toList ≤ settings.scanning.inputLimit) :
    (¬ DigitsMeet u.toList v.toList →
      SameUpToBlanks (check settings (u ++ w ++ v)).outcome (check settings (u ++ v)).outcome) ∧
    (DigitsMeet u.toList v.toList →
      ∃ f, (check settings (u ++ w ++ v)).outcome = .error (.fault f)) := by
  have hscan := unplaced_scan_append (u := u) (v := v) hb (.inl hw)
  rw [check_outcome hlen]
  constructor
  · intro hd
    have hshort : Text.byteLength (u ++ v).toList ≤ settings.scanning.inputLimit := by
      simp only [String.toList_append, Text.byteLength_append] at hlen ⊢
      omega
    have hplain := unplaced_scan_append (u := u) (v := v) (x := "") (by simp) (.inr hd)
    rw [String.append_empty] at hplain
    rw [check_outcome hshort]
    refine sameUpToBlanks_of_unplaced (hscan.trans hplain.symm) ?_
    rw [← Grammar.Progress.run_unplaced, ← Grammar.Progress.run_unplaced, hscan, hplain]
  · intro hd
    cases hr : (({} : Grammar.Progress).run settings.grammar.depthLimit
        (scan (u ++ w ++ v))).result with
    | error f => exact ⟨f, by simp [concluded, hr]⟩
    | ok _ =>
        exfalso
        have hchain := Grammar.integers_apart_of_accepted hr
        obtain ⟨hu, hv⟩ := integers_meet hd
        rw [categories_scan_append hb (.inl hw), List.isChain_append] at hchain
        exact hchain.2.2 _ hu _ hv rfl rfl

/-- A blank of two bytes and a newline, put into a sum and between digits of two scripts. -/
theorem check_with_blanks_in_sum_and_integer :
    let settings := ({} : Overrides).toSettings
    let w := "\u00a0\n"
    (w ≠ "" ∧ (∀ c ∈ w.toList, Text.isBlank c = true) ∧
      Text.byteLength ("(1+" ++ w ++ "2)").toList ≤ settings.scanning.inputLimit ∧
      ¬ DigitsMeet "(1+".toList "2)".toList ∧ DigitsMeet "1".toList "\u0663".toList) ∧
    SameUpToBlanks (check settings ("(1+" ++ w ++ "2)")).outcome
      (check settings ("(1+" ++ "2)")).outcome ∧
    ∃ f, (check settings ("1" ++ w ++ "\u0663")).outcome = .error (.fault f) := by
  intro settings w
  have hw : w ≠ "" := by decide
  have hb : ∀ c ∈ w.toList, Text.isBlank c = true := by
    rw [← List.all_eq_true]
    decide
  have hsum : Text.byteLength ("(1+" ++ w ++ "2)").toList ≤ settings.scanning.inputLimit := by
    decide
  have hdigits : Text.byteLength ("1" ++ w ++ "\u0663").toList ≤ settings.scanning.inputLimit := by
    decide
  have hapart : ¬ DigitsMeet "(1+".toList "2)".toList := by decide
  have hmeet : DigitsMeet "1".toList "\u0663".toList := by decide
  exact ⟨⟨hw, hb, hsum, hapart, hmeet⟩,
    (check_with_blanks_between settings "(1+" "2)" w hw hb hsum).1 hapart,
    (check_with_blanks_between settings "1" "\u0663" w hw hb hdigits).2 hmeet⟩

end ExprCheck
