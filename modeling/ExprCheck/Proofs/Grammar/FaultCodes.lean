import ExprCheck.Proofs.Grammar.NestingLimit
import ExprCheck.Proofs.Grammar.ViablePrefix
import ExprCheck.Proofs.Token.Reading

/-!
What the code of a fault says about the text. A reading can be refused in four
ways, and the code follows from the way and from the token. So each code is a
fact about the tokens before the fault and the one at it: whether they lack an
operand, are a program as they are, or have parentheses open.
-/

namespace ExprCheck.Grammar
namespace Progress

variable {limit : Nat} {p q : Progress} {t e : Token} {v w rest : List Token} {f : Fault}

/-- A reading that stands at `q` cannot go on with `t`. -/
inductive Refuses (limit : Nat) (q : Progress) (t : Token) : Fault → Prop where
  | noOperand : q.needsOperand = true → t.category ∉ [.integer, .openParen] →
      Refuses limit q t (.ofToken [.integer, .openParen] t)
  | tooDeep : q.needsOperand = true → t.category = .openParen → q.opened = limit →
      Refuses limit q t (.nestingTooDeep (q.opened + 1) limit t.span)
  | unclosed : q.needsOperand = false → q.opened ≠ 0 →
      t.category ∉ [.plus, .times, .closeParen] → Refuses limit q t (.ofToken [.closeParen] t)
  | pastEnd : q.needsOperand = false → q.opened = 0 →
      t.category ∉ [.plus, .times, .endOfInput] → Refuses limit q t (.ofToken [.endOfInput] t)

theorem Refuses.blames (h : Refuses limit q t f) : f.Blames t := by
  cases h with
  | noOperand | unclosed | pastEnd => exact Fault.ofToken_blames ..
  | tooDeep _ ht _ => exact ⟨ht, rfl⟩

theorem refuses_of_unexpected (hread : ∀ s, q.move limit t ≠ .on s)
    (hopen : q.needsOperand = true → t.category ≠ .openParen)
    (hend : t.category = .endOfInput → ¬ q.Complete) :
    Refuses limit q t (.ofToken q.expected t) := by
  cases hn : q.needsOperand with
  | true =>
      have hexpected : q.expected = [.integer, .openParen] := by simp [expected, hn]
      rw [hexpected]
      refine .noOperand hn fun hmem => ?_
      obtain hc | hc : t.category = .integer ∨ t.category = .openParen := by simpa using hmem
      · exact hread q.takeInteger (by simp [move, hn, hc])
      · exact hopen hn hc
  | false =>
      have hoperator (hc : t.category = .plus ∨ t.category = .times) : False :=
        hread q.takeOperator (by obtain hc | hc := hc <;> simp [move, hn, hc])
      by_cases h0 : q.opened = 0
      · have hexpected : q.expected = [.endOfInput] := by simp [expected, hn, h0]
        rw [hexpected]
        refine .pastEnd hn h0 fun hmem => ?_
        obtain hc | hc | hc : t.category = .plus ∨ t.category = .times ∨
            t.category = .endOfInput := by simpa using hmem
        · exact hoperator (.inl hc)
        · exact hoperator (.inr hc)
        · exact hend hc ⟨hn, h0⟩
      · have hexpected : q.expected = [.closeParen] := by simp [expected, hn, h0]
        rw [hexpected]
        refine .unclosed hn h0 fun hmem => ?_
        obtain hc | hc | hc : t.category = .plus ∨ t.category = .times ∨
            t.category = .closeParen := by simpa using hmem
        · exact hoperator (.inl hc)
        · exact hoperator (.inr hc)
        · exact hread q.closeGroup (by simp [move, hn, hc, h0])

theorem refuses_of_move_stop (ho : q.opened ≤ limit) (he : t.isEnd = false)
    (hm : q.move limit t = .stop f p) :
    Refuses limit q t f ∧ f.index p.consumed = q.consumed := by
  obtain ⟨rfl, rfl⟩ | ⟨hn, ht, hl, rfl, rfl⟩ := move_stop_cases hm
  · refine ⟨refuses_of_unexpected ?_ ?_ ?_, rfl⟩
    · intro s hs
      rw [hm] at hs
      cases hs
    · intro hn hc
      by_cases hl : p.opened < limit <;> simp [move, hn, hc, hl, Fault.ofToken] at hm
    · intro hc
      simp [Token.isEnd, hc] at he
  · exact ⟨.tooDeep hn ht (Nat.le_antisymm ho hl), rfl⟩

theorem eq_nil_of_append_end (hw : ∀ t ∈ w, t.isEnd = false)
    (hts : w ++ [e] = v ++ t :: rest) (ht : t.isEnd = true) : rest = [] := by
  obtain rfl | ⟨rest, x, rfl⟩ := List.eq_nil_or_concat rest
  · rfl
  · rw [List.concat_eq_append, ← List.cons_append, ← List.append_assoc] at hts
    have hend := hw t (by rw [List.append_inj_left' hts rfl]; simp)
    rw [ht] at hend
    cases hend

theorem exists_refused (hw : ∀ t ∈ w, t.isEnd = false) (he : e.isEnd = true)
    (h : (({} : Progress).run limit (w ++ [e])).result = .error f) :
    ∃ v q t rest, w ++ [e] = v ++ t :: rest ∧ Reaches limit {} v q ∧ Refuses limit q t f ∧
      f.index (({} : Progress).run limit (w ++ [e])).consumed = v.length := by
  obtain ⟨v, q, rest, hts, hr, hs⟩ := run_splits limit {} (w ++ [e])
  have hq := hr.tracks_start
  have hopened : q.opened ≤ limit := hq.opened_le.trans hq.within
  have hconsumed : q.consumed = v.length := by simpa using hr.consumed
  generalize ({} : Progress).run limit (w ++ [e]) = o at h hs
  cases hs with
  | ranOut =>
      have hend := hr.isEnd e (by rw [← List.append_nil v, ← hts]; simp)
      rw [he] at hend
      cases hend
  | @ended t rest ht =>
      obtain rfl := eq_nil_of_append_end hw hts ht
      have hc : ¬ q.Complete := fun hc => by simp [finish, hc] at h
      rw [finish_of_not_complete hc] at h ⊢
      cases h
      refine ⟨v, q, t, [], hts, hr, refuses_of_unexpected ?_ ?_ fun _ => hc, hconsumed⟩
      · intro s hs
        rw [isEnd_of_move_on hs] at ht
        cases ht
      · intro _ ho
        simp [Token.isEnd, ho] at ht
  | @stopped t rest g s ht hm =>
      cases h
      obtain ⟨hrefuses, hindex⟩ := refuses_of_move_stop hopened ht hm
      exact ⟨v, q, t, rest, hts, hr, hrefuses, hindex.trans hconsumed⟩

theorem run_closing {close : Token} (hn : q.needsOperand = false)
    (hc : close.category = .closeParen) :
    (q.run limit (.replicate q.opened close)).result = .ok () := by
  have hclose : ∀ u ∈ List.replicate q.opened close, u.category = .closeParen := by
    intro u hu
    rw [List.eq_of_mem_replicate hu, hc]
  obtain ⟨s, hs, hcomplete⟩ := reaches_of_closing hn List.length_replicate hclose
  exact (run_ok_iff ..).mpr ⟨_, s, hs, hcomplete, .inl rfl⟩

/-- An operand and parentheses to close complete a program where an operand has
to come, and nowhere else. -/
theorem run_operand_closed_iff {one close : Token} (ho : one.category = .integer)
    (hc : close.category = .closeParen) :
    (q.run limit (one :: List.replicate q.opened close)).result = .ok () ↔
      q.needsOperand = true := by
  constructor
  · intro h
    by_contra hn
    have hn : q.needsOperand = false := by simpa using hn
    rw [run_of_unexpected (t := one)] at h
    · cases h
    · by_cases h0 : q.opened = 0 <;> simp [expected, hn, h0, ho]
    · simp [ho]
  · intro hn
    have hm : q.move limit one = .on q.takeInteger := by simp [move, hn, ho]
    have hr : Reaches limit q [one] q.takeInteger := .move hm (.refl _)
    rw [← List.singleton_append, hr.run_append]
    exact run_closing rfl hc

theorem run_end_iff (he : e.isEnd = true) :
    (q.run limit [e]).result = .ok () ↔ q.Complete := by
  rw [(Settles.ended he).run_eq, finish_ok_iff]
  simp

/-- A scan that is refused is read up to a token of it, and refused there. -/
theorem exists_refused_of_scan {settings : GrammarSettings} {text : String}
    (h : recognize settings (scan text) = .error f) :
    ∃ p q t rest, scan text = p ++ t :: rest ∧ Reaches settings.depthLimit {} p q ∧
      Refuses settings.depthLimit q t f ∧ (t.isEnd = true → rest = []) ∧
      f.index (Recognizer.ofTokens settings (scan text)).recognize.2.consumed = p.length := by
  obtain ⟨w, e, hscan, hw, he⟩ := exists_scan_eq_concat text
  rw [recognize_eq_result, hscan] at h
  obtain ⟨p, q, t, rest, hts, hr, hrefuses, hi⟩ := exists_refused hw he h
  refine ⟨p, q, t, rest, hscan.trans hts, hr, hrefuses, eq_nil_of_append_end hw hts, ?_⟩
  rw [← hi, ← hscan]
  exact congrArg (fun o : Outcome => f.index o.consumed) (Recognizer.outcome_ofTokens ..)

end Progress

/-- The tokens before a fault and the one at it decide about its code. The first
are the beginning of a program that lacks an operand and the closing of `k`
parentheses, or a program, or something that has only to be closed. -/
theorem fault_code_by_completions (settings : GrammarSettings) (text : String) (f : Fault)
    (h : recognize settings (scan text) = .error f) :
    ∃ (p : List Token) (t : Token) (rest : List Token) (k : Nat), scan text = p ++ t :: rest ∧
      f.index (Recognizer.ofTokens settings (scan text)).recognize.2.consumed = p.length ∧
      f.Blames t ∧ Token.unclosed p = k ∧
      ∀ one close e : Token,
        one.category = .integer → close.category = .closeParen → e.isEnd = true →
        let lacksOperand := recognize settings (p ++ one :: List.replicate k close) = .ok ()
        let isProgram := recognize settings (p ++ [e]) = .ok ()
        let endsEarly := t.category = .endOfInput ∧ lacksOperand
        let goesOn := isProgram ∧ (t.category = .integer ∨ t.category = .openParen)
        let tooDeep := t.category = .openParen ∧ k = settings.depthLimit ∧ lacksOperand
        let misplaced :=
          (t.category = .plus ∨ t.category = .times ∨ t.category = .closeParen) ∧ lacksOperand
        (f.code = .invalidToken ↔ t.category = .invalid) ∧
        (f.code = .unexpectedEnd ↔ endsEarly) ∧ (f.code = .trailingInput ↔ goesOn) ∧
        (f.code = .nestingTooDeep ↔ tooDeep) ∧ (f.code = .unexpectedToken ↔ misplaced) ∧
        (f.code = .unmatchedParen ↔
          ¬ (t.category = .invalid ∨ endsEarly ∨ goesOn ∨ tooDeep ∨ misplaced)) := by
  obtain ⟨p, q, t, rest, hscan, hr, hrefuses, -, hindex⟩ := Progress.exists_refused_of_scan h
  refine ⟨p, t, rest, q.opened, hscan, hindex, hrefuses.blames, hr.tracks_start.opened.symm, ?_⟩
  intro one close e hone hclose he lacksOperand isProgram
  have hlacks : lacksOperand ↔ q.needsOperand = true := by
    simp only [lacksOperand, recognize_eq_result, hr.run_append]
    exact Progress.run_operand_closed_iff hone hclose
  have hprogram : isProgram ↔ q.Complete := by
    simp only [isProgram, recognize_eq_result, hr.run_append]
    exact Progress.run_end_iff he
  simp only [hlacks, hprogram, Progress.Complete]
  cases hrefuses with
  | tooDeep hn ht hl => simp [Fault.code, hn, ht, hl]
  | noOperand hn ht | unclosed hn h0 ht | pastEnd hn h0 ht =>
      cases hc : t.category <;> simp_all [Fault.code, Fault.ofToken, Fault.unexpectedCode]

/-- One level is open at the second parenthesis, and only one is allowed. -/
theorem fault_code_by_completions_in_second_level :
    let settings : GrammarSettings := ⟨1, false⟩
    let one : Token := ⟨.integer, some "1", .dummy⟩
    let close : Token := ⟨.closeParen, some ")", .dummy⟩
    ∃ f, recognize settings (scan "(1+(2))") = .error f ∧ f.code = .nestingTooDeep ∧
      ∃ p t rest, scan "(1+(2))" = p ++ t :: rest ∧ p.length = 3 ∧ f.Blames t ∧
        t.category = .openParen ∧ Token.unclosed p = 1 ∧
        recognize settings (p ++ one :: [close]) = .ok () := by
  intro settings one close
  obtain ⟨span, ho⟩ : ∃ span, (Recognizer.ofTokens settings (scan "(1+(2))")).outcome =
      ⟨.error (.nestingTooDeep 2 1 span), 4, 1⟩ := by
    rw [Recognizer.outcome_ofTokens]
    exact ⟨_, rfl⟩
  obtain ⟨h, hi, -⟩ := Outcome.mk.inj ho
  obtain ⟨p, t, rest, k, hscan, hp, hb, hk, hcodes⟩ := fault_code_by_completions settings _ _ h
  obtain ⟨-, -, -, hdeep, -, -⟩ := hcodes one close (.endMarker .dummy) rfl rfl rfl
  obtain ⟨ht, rfl, hlacks⟩ := hdeep.mp rfl
  rw [hi] at hp
  exact ⟨_, h, rfl, p, t, rest, hscan, hp.symm, hb, ht, hk, hlacks⟩

/-- A token behind the end marker of a program. -/
theorem Progress.run_behind_end {limit : Nat} {w : List Token} {e : Token}
    (h : (({} : Progress).run limit (w ++ [e])).result = .ok ()) (he : e.isEnd = true)
    (x : Token) (rest : List Token) :
    ({} : Progress).run limit (w ++ e :: x :: rest) =
      { ({} : Progress).run limit (w ++ [e]) with result := .error (.ofToken [] x) } := by
  obtain ⟨q, hr, hq⟩ := (run_concat_end_ok_iff limit {} w he).mp h
  rw [hr.run_complete hq (.inr ⟨e, he, rfl⟩), hr.run_append, (Settles.ended he).run_eq]
  simp [finish, hq]

/-- A token behind the end marker of a program is rejected as one that nothing was expected for,
and with the counts of the program. The code is that of trailing tokens, but for an invalid
character, and but for another end marker: that is called an end before its time. -/
theorem fault_behind_end (settings : GrammarSettings) (w rest : List Token) (e x : Token)
    (he : e.category = .endOfInput) (h : recognize settings (w ++ [e]) = .ok ()) :
    let f : Fault := .unexpected [] x.category x.lexeme x.span
    recognize settings (w ++ e :: x :: rest) = .error f ∧
      (Recognizer.ofTokens settings (w ++ e :: x :: rest)).outcome =
        { (Recognizer.ofTokens settings (w ++ [e])).outcome with result := .error f } ∧
      (f.code = .invalidToken ↔ x.category = .invalid) ∧
      (f.code = .unexpectedEnd ↔ x.category = .endOfInput) ∧
      (f.code = .trailingInput ↔ x.category ≠ .invalid ∧ x.category ≠ .endOfInput) := by
  intro f
  have hend : e.isEnd = true := by simp [Token.isEnd, he]
  rw [recognize_eq_result] at h
  have hrun := Progress.run_behind_end h hend x rest
  refine ⟨?_, ?_, ?_⟩
  · rw [recognize_eq_result, hrun]
    rfl
  · rw [Recognizer.outcome_ofTokens, Recognizer.outcome_ofTokens, hrun]
    rfl
  · change (Fault.unexpectedCode [] x.category = _ ↔ _) ∧
      (Fault.unexpectedCode [] x.category = _ ↔ _) ∧
      (Fault.unexpectedCode [] x.category = _ ↔ _)
    cases x.category <;> decide

/-- A parenthesis behind the end marker, and more behind it. -/
theorem fault_behind_end_at_parenthesis :
    let one : Token := ⟨.integer, some "7", .dummy⟩
    let e : Token := .endMarker .dummy
    let x : Token := ⟨.closeParen, some ")", .dummy⟩
    recognize .builtin ([one] ++ [e]) = .ok () ∧
      recognize .builtin ([one] ++ e :: x :: [one]) =
        .error (.unexpected [] .closeParen (some ")") .dummy) ∧
      (Fault.unexpected [] .closeParen (some ")") .dummy).code = .trailingInput := by
  intro one e x
  have h : recognize .builtin ([one] ++ [e]) = .ok () := by
    rw [recognize_eq_result]
    rfl
  obtain ⟨hfault, -, -, -, htrailing⟩ := fault_behind_end .builtin [one] [one] e x rfl h
  exact ⟨h, hfault, htrailing.mpr (by decide)⟩

/-- A second end marker behind a program that is complete with the first. -/
theorem second_end_called_early :
    let one : Token := ⟨.integer, some "7", .dummy⟩
    let e : Token := .endMarker .dummy
    recognize .builtin ([one] ++ [e]) = .ok () ∧ e.category ≠ .invalid ∧
      ∃ f, recognize .builtin ([one] ++ [e] ++ [e]) = .error f ∧ f.expected = [] ∧
        f.code ≠ .trailingInput ∧ f.code = .unexpectedEnd ∧
        f.code.entry.description = "Input ended before the expression was complete" := by
  intro one e
  refine ⟨?_, by decide, ?_⟩
  · rw [recognize_eq_result]
    rfl
  · rw [recognize_eq_result]
    exact ⟨_, rfl, rfl, by decide, rfl, rfl⟩

end ExprCheck.Grammar
