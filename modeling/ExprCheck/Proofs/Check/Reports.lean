import ExprCheck.Proofs.Grammar.Descent
import ExprCheck.Report

/-!
A check and its report are the length, a plain scan and a plain recognition, and
nothing else. What is counted by category, traced or logged shows only in the
counts by category.
-/

namespace ExprCheck

/-! The two stages -/

theorem Analyzer.scan_tokens (a : Analyzer) (text : String) :
    (a.scan text).1.1 = ExprCheck.scan text := rfl

theorem Analyzer.scan_tally (a : Analyzer) (text : String) :
    (a.scan text).2.tally =
      .ofTokens a.settings.detailed (ExprCheck.scan text) (Scanner.ofText text).run.2.blanks :=
  rfl

/-- What is told of a text when recognition has come to `o`. -/
def concluded (settings : Settings) (text : String) (o : Grammar.Outcome) :
    Except Rejection Acceptance :=
  match o.result with
  | .ok _ => .ok
      { inputLength := Text.byteLength text.toList
        tally := .ofTokens settings.scanning.detailed (scan text)
          (Scanner.ofText text).run.2.blanks
        tokenCount := (scan text).length
        tokensConsumed := o.consumed
        maxDepth := o.deepest }
  | .error f => .error (.fault f)

theorem check_outcome {settings : Settings} {text : String}
    (h : Text.byteLength text.toList ≤ settings.scanning.inputLimit) :
    (check settings text).outcome =
      concluded settings text
        (({} : Grammar.Progress).run settings.grammar.depthLimit (scan text)) := by
  rw [← Grammar.Recognizer.outcome_ofTokens]
  simp only [check, h, ite_true, Pass.ofText, concluded, Grammar.Recognizer.outcome,
    Analyzer.scan_tokens, Analyzer.scan_tally]
  cases (Grammar.Recognizer.ofTokens settings.grammar (scan text)).recognize.1 <;> rfl

/-! What does not depend on the counts by category -/

/-- The counts that are kept whether or not tokens are counted by category. -/
def Tally.coarse (m : Tally) : Tally where
  total := m.total
  blanks := m.blanks

namespace Tally

theorem classify_coarse (m : Tally) (t : Token) : (m.classify t).coarse = m.coarse := by
  unfold classify
  split <;> rfl

theorem record_coarse (detailed : Bool) (m : Tally) (t : Token) :
    (record detailed m t).coarse = record false m.coarse t := by
  cases detailed with
  | false => rfl
  | true => exact classify_coarse _ t

theorem foldl_record_coarse (detailed : Bool) (ts : List Token) (m : Tally) :
    (ts.foldl (record detailed) m).coarse = ts.foldl (record false) m.coarse := by
  induction ts generalizing m with
  | nil => rfl
  | cons t ts ih => rw [List.foldl_cons, ih, record_coarse, List.foldl_cons]

/-- A count by category tells nothing else than a plain one. -/
theorem ofTokens_coarse (detailed : Bool) (ts : List Token) (blanks : Nat) :
    (ofTokens detailed ts blanks).coarse = ofTokens false ts blanks := by
  have hfold : (ts.foldl (record detailed) {}).coarse = ts.foldl (record false) {} :=
    foldl_record_coarse detailed ts {}
  have hblanks : (ofTokens detailed ts blanks).coarse =
      { (ts.foldl (record detailed) {}).coarse with blanks := blanks } := rfl
  rw [hblanks, hfold]
  rfl

end Tally

def Acceptance.coarse (a : Acceptance) : Acceptance :=
  { a with tally := a.tally.coarse }

/-- A report without its counts by category. -/
def Report.coarse (r : Report) : Report :=
  { r with tally := r.tally.map Tally.coarse }

section Stages

variable {settings : Settings} {text : String}

theorem check_of_tooLarge
    (h : settings.scanning.inputLimit < Text.byteLength text.toList) :
    (check settings text).outcome =
        .error (.inputTooLarge (Text.byteLength text.toList) settings.scanning.inputLimit) ∧
      (check settings text).tokenCount = 0 := by
  simp only [check, Nat.not_le.mpr h, ite_false, and_self]

theorem check_tokenCount (h : Text.byteLength text.toList ≤ settings.scanning.inputLimit) :
    (check settings text).tokenCount = (scan text).length := by
  simp only [check, h, ite_true, Pass.ofText, Analyzer.scan_tokens]
  cases (Grammar.Recognizer.ofTokens settings.grammar (scan text)).recognize.1 <;> rfl

theorem check_verdict (h : Text.byteLength text.toList ≤ settings.scanning.inputLimit) :
    (check settings text).outcome.map (fun _ => ()) =
      (Grammar.recognize settings.grammar (scan text)).mapError .fault := by
  rw [check_outcome h, Grammar.recognize_eq_result, concluded]
  cases (({} : Grammar.Progress).run settings.grammar.depthLimit (scan text)).result <;> rfl

theorem concluded_coarse (settings other : Settings) (text : String) (o : Grammar.Outcome) :
    (concluded other text o).map Acceptance.coarse =
      (concluded settings text o).map Acceptance.coarse := by
  unfold concluded
  cases o.result with
  | error f => rfl
  | ok _ => simp only [Except.map, Acceptance.coarse, Tally.ofTokens_coarse]

/-- Settings with the same limits tell the same of a text, but for counts by category. -/
theorem check_coarse (text : String) {other : Settings}
    (hinput : other.scanning.inputLimit = settings.scanning.inputLimit)
    (hdepth : other.grammar.depthLimit = settings.grammar.depthLimit) :
    (check other text).outcome.map Acceptance.coarse =
        (check settings text).outcome.map Acceptance.coarse ∧
      (check other text).tokenCount = (check settings text).tokenCount := by
  by_cases h : Text.byteLength text.toList ≤ settings.scanning.inputLimit
  · have ho : Text.byteLength text.toList ≤ other.scanning.inputLimit := hinput ▸ h
    constructor
    · rw [check_outcome h, check_outcome ho, hdepth]
      exact concluded_coarse settings other text _
    · rw [check_tokenCount h, check_tokenCount ho]
  · have hs := check_of_tooLarge (Nat.not_le.mp h)
    have ho := check_of_tooLarge (hinput ▸ Nat.not_le.mp h : other.scanning.inputLimit < _)
    constructor
    · rw [hs.1, ho.1, hinput]
    · rw [hs.2, ho.2]

end Stages

namespace Pass

variable {p : Pass}

theorem verdict_eq_accepted_iff : p.verdict = .accepted ↔ ∃ a, p.outcome = .ok a := by
  rw [verdict]
  cases p.outcome <;> simp

theorem verdict_eq_rejected_iff : p.verdict = .rejected ↔ ∃ r, p.outcome = .error r := by
  rw [verdict]
  cases p.outcome <;> simp

end Pass

namespace Report

/-- What a report says of an outcome: the verdict and a tally, or the verdict and an error. -/
structure Tells (report : Report) (outcome : Except Rejection Acceptance) : Prop where
  accepted_iff : report.verdict = .accepted ↔ ∃ a, outcome = .ok a
  rejected_iff : report.verdict = .rejected ↔ ∃ r, outcome = .error r
  of_ok : ∀ a, outcome = .ok a → report.error = none ∧ report.tally = some a.tally
  of_error : ∀ r, outcome = .error r →
    report.error = some (.ofRejection r) ∧ report.tally = none
  of_fault : ∀ f, outcome = .error (.fault f) → ∃ d, report.error = some d ∧
    d.code = f.code.id ∧ d.span = some f.span ∧ d.expected = f.expected ∧ d.found = some f.found

theorem tells_ofPass (moment : Moment) (text : String) (p : Pass) :
    (ofPass moment text p).Tells p.outcome where
  accepted_iff := Pass.verdict_eq_accepted_iff
  rejected_iff := Pass.verdict_eq_rejected_iff
  of_ok a h := by simp only [ofPass, h, and_self]
  of_error r h := by simp only [ofPass, h, and_self]
  of_fault f h := ⟨.ofRejection (.fault f), by simp only [ofPass, h], rfl, rfl, rfl, rfl⟩

/-- The verdict, the error and the tally of a report go together. -/
theorem Tells.verdict_iff {report : Report} {outcome : Except Rejection Acceptance}
    (h : report.Tells outcome) :
    (report.verdict = .accepted ↔ report.error = none) ∧
      (report.error = none ↔ report.tally.isSome = true) := by
  rw [h.accepted_iff]
  cases ho : outcome with
  | ok a =>
      obtain ⟨herror, htally⟩ := h.of_ok a ho
      simp [herror, htally]
  | error r =>
      obtain ⟨herror, htally⟩ := h.of_error r ho
      simp [herror, htally]

/-- A report shows of a pass no more than its outcome and its count of tokens. -/
theorem ofPass_coarse {moment : Moment} {text : String} {p q : Pass}
    (ho : p.outcome.map Acceptance.coarse = q.outcome.map Acceptance.coarse)
    (hcount : p.tokenCount = q.tokenCount) :
    (ofPass moment text p).coarse = (ofPass moment text q).coarse := by
  obtain ⟨op, np, sp⟩ := p
  obtain ⟨oq, nq, sq⟩ := q
  cases hcount
  cases op with
  | error e =>
      cases oq with
      | ok b => cases ho
      | error f =>
          cases ho
          rfl
  | ok a =>
      cases oq with
      | error f => cases ho
      | ok b =>
          have htally : a.tally.coarse = b.tally.coarse :=
            congrArg Acceptance.tally (Except.ok.inj ho)
          simp only [ofPass, coarse, Pass.verdict, Option.map_some, htally]

end Report

/-- A text that is too long is rejected as such, with no tokens and no place.
Any other is accepted if its plain scan is recognized, or rejected with the very
fault, and its tokens are counted in both cases. A report has the tally of what was
accepted or the diagnosis of why it was not, as its verdict says, and settings with
the same limits give the same check and report but for the counts by category. -/
theorem check_is_two_stages (settings : Settings) (text : String) (moment : Moment) :
    let length := Text.byteLength text.toList
    let limit := settings.scanning.inputLimit
    let outcome := (check settings text).outcome
    let report := Report.ofPass moment text (check settings text)
    (limit < length →
      outcome = .error (.inputTooLarge length limit) ∧ report.tokenCount = 0 ∧
        ∃ d, report.error = some d ∧ d.span = none) ∧
    (length ≤ limit →
      outcome.map (fun _ => ()) =
          (Grammar.recognize settings.grammar (scan text)).mapError .fault ∧
        report.tokenCount = (scan text).length) ∧
    report.Tells outcome ∧
    ((report.verdict = .accepted ↔ report.error = none) ∧
      (report.error = none ↔ report.tally.isSome = true)) ∧
    ∀ other : Settings, other.scanning.inputLimit = limit →
      other.grammar.depthLimit = settings.grammar.depthLimit →
      (check other text).outcome.map Acceptance.coarse = outcome.map Acceptance.coarse ∧
        (Report.ofPass moment text (check other text)).coarse = report.coarse := by
  intro length limit outcome report
  have htells : report.Tells outcome := Report.tells_ofPass moment text _
  refine ⟨?long, ?short, htells, htells.verdict_iff, ?same⟩
  case long =>
    intro h
    obtain ⟨ho, hcount⟩ := check_of_tooLarge h
    exact ⟨ho, hcount, _, (htells.of_error _ ho).1, rfl⟩
  case short =>
    intro h
    exact ⟨check_verdict h, check_tokenCount h⟩
  case same =>
    intro other hinput hdepth
    obtain ⟨ho, hcount⟩ := check_coarse text hinput hdepth
    exact ⟨ho, Report.ofPass_coarse ho hcount⟩

/-- A text of three characters and four bytes, under a limit of three bytes and
under limits that bound the settings, with and without counts, traces and logs. -/
theorem check_is_two_stages_sum :
    let text := "1+\u0663"
    let length := Text.byteLength text.toList
    let short := ({ maxInputLength := some 3 } : Overrides).toSettings
    let settings := ({ maxInputLength := some 5000000 } : Overrides).toSettings
    let other :=
      ({ detailed := some false, traceTokens := some true, traceProductions := some true,
         structured := some true, console := some false, level := some .debug,
         timing := some true } : Overrides).toSettings
    (short.scanning.inputLimit < length ∧ length ≤ settings.scanning.inputLimit ∧
      other.scanning.inputLimit = settings.scanning.inputLimit ∧
      other.grammar.depthLimit = settings.grammar.depthLimit) ∧
    (check short text).outcome = .error (.inputTooLarge 4 3) ∧
    (Report.ofPass {} text (check short text)).verdict = .rejected ∧
    (check settings text).outcome.map (fun _ => ()) =
      (Grammar.recognize settings.grammar (scan text)).mapError .fault ∧
    (Report.ofPass {} text (check other text)).coarse =
      (Report.ofPass {} text (check settings text)).coarse := by
  intro text length short settings other
  have hlong : short.scanning.inputLimit < length := by decide
  have hshort : length ≤ settings.scanning.inputLimit := by decide
  have hinput : other.scanning.inputLimit = settings.scanning.inputLimit := by decide
  have hdepth : other.grammar.depthLimit = settings.grammar.depthLimit := by decide
  have hbytes : length = 4 := by decide
  have hlimit : short.scanning.inputLimit = 3 := by decide
  have hrejected := ((check_is_two_stages short text {}).1 hlong).1
  rw [hlimit, show Text.byteLength text.toList = 4 from hbytes] at hrejected
  have htells := (check_is_two_stages short text {}).2.2.1
  exact ⟨⟨hlong, hshort, hinput, hdepth⟩, hrejected, htells.rejected_iff.mpr ⟨_, hrejected⟩,
    ((check_is_two_stages settings text {}).2.1 hshort).1,
    ((check_is_two_stages settings text {}).2.2.2.2 other hinput hdepth).2⟩

end ExprCheck
