import ExprCheck.Proofs.Check.Quiet
import ExprCheck.Proofs.Console.Printing

/-!
What a run's status and first stream depend on. A run fails just when there are
no settings for it or nothing to check, and then it prints nothing of a text.
What is asked of logging and tracing shows on the second stream only.
-/

namespace ExprCheck

theorem Verdict.ne_accepted_iff (v : Verdict) : v ≠ .accepted ↔ v = .rejected := by
  cases v <;> decide

namespace Console
open Output (outText outText_append outText_cons outText_nil shown)

/-- What the file with settings says, if one is named. -/
def Invocation.overrides (i : Invocation) (s : Surroundings) : Except Settings.Fault Overrides :=
  match i.config with
  | none => .ok {}
  | some path =>
    match s.file path with
    | .error cause => .error (.unreadable path cause)
    | .ok text =>
      match Overrides.ofText text with
      | .error problem => .error (.malformed problem)
      | .ok overrides => .ok overrides

/-- Why a run has no settings. -/
inductive Unconfigured (i : Invocation) (s : Surroundings) : Prop where
  | unreadable {path : String} {cause : ReadFault} :
      i.config = some path → s.file path = .error cause → Unconfigured i s
  | malformed {path : String} {text : List Char} {problem : Toml.Problem} :
      i.config = some path → s.file path = .ok text → Overrides.ofText text = .error problem →
      Unconfigured i s
  | invalid {overrides : Overrides} {fault : Settings.Fault} :
      i.overrides s = .ok overrides →
      (Settings.resolve s.environment overrides).validate = .error fault → Unconfigured i s

/-- Why a run checks nothing. -/
inductive Unchecked (i : Invocation) (s : Surroundings) (line : Except ReadFault (List Char)) :
    Prop where
  | unconfigured : Unconfigured i s → Unchecked i s line
  | unreadLine {cause : ReadFault} :
      i.source = .stdin → line = .error cause → Unchecked i s line
  | unreadFile {path : String} {cause : ReadFault} :
      i.source = .file path → s.file path = .error cause → Unchecked i s line
  | emptyBatch {path : String} {contents : List Char} :
      i.source = .file path → s.file path = .ok contents →
      (Text.lines contents).countP Batch.isShown = 0 → Unchecked i s line
  | tooManyLines {path : String} {contents : List Char} :
      i.source = .file path → s.file path = .ok contents →
      100000 < (Text.lines contents).countP Batch.isShown → Unchecked i s line

/-- The texts that a run checks: the argument, the line without its end, or the
lines of the file that are not blank. -/
def Invocation.texts (i : Invocation) (s : Surroundings) (line : Except ReadFault (List Char)) :
    List String :=
  match i.source with
  | .argument text => [text]
  | .stdin =>
    match line with
    | .error _ => []
    | .ok line => [String.ofList (Text.trimEnd (fun c => c == '\r' || c == '\n') line)]
  | .file path =>
    match s.file path with
    | .error _ => []
    | .ok contents => ((Text.lines contents).filter Batch.isShown).map String.ofList

section Settings

variable {i : Invocation} {s : Surroundings}

/-- Settings from a file are validated twice, which comes to the same. -/
theorem settings_eq (i : Invocation) (s : Surroundings) :
    i.settings s =
      (i.overrides s).bind fun overrides =>
        (Settings.resolve s.environment overrides).validate.map fun _ =>
          Settings.resolve s.environment overrides := by
  unfold Invocation.settings Invocation.overrides Settings.ofFile Settings.ofText
  have htwice (settings : Settings) :
      (settings.validate.map fun _ => settings).bind (fun settings =>
        settings.validate.bind fun _ => .ok settings) =
        settings.validate.map fun _ => settings := by
    cases h : settings.validate <;> simp [Except.map, Except.bind, h]
  cases i.config with
  | none =>
      cases h : (Settings.resolve s.environment {}).validate <;>
        simp [Bind.bind, Except.bind, Except.map, Pure.pure, Except.pure, h]
  | some path =>
      dsimp only
      cases s.file path with
      | error cause => rfl
      | ok text =>
          dsimp only
          cases Overrides.ofText text with
          | error problem => rfl
          | ok overrides => exact htwice _

theorem unconfigured_of_overrides {f : Settings.Fault} (h : i.overrides s = .error f) :
    Unconfigured i s := by
  unfold Invocation.overrides at h
  cases hc : i.config with
  | none =>
      rw [hc] at h
      cases h
  | some path =>
      cases hf : s.file path with
      | error cause => exact .unreadable hc hf
      | ok text =>
          cases ht : Overrides.ofText text with
          | error problem => exact .malformed hc hf ht
          | ok overrides => simp [hc, hf, ht] at h

theorem unconfigured_iff : Unconfigured i s ↔ ∃ f, i.settings s = .error f := by
  constructor
  · rintro (⟨hc, hf⟩ | ⟨hc, hf, ht⟩ | ⟨ho, hv⟩)
    · exact ⟨_, by simp only [settings_eq, Invocation.overrides, hc, hf]; rfl⟩
    · exact ⟨_, by simp only [settings_eq, Invocation.overrides, hc, hf, ht]; rfl⟩
    · exact ⟨_, by simp only [settings_eq, ho, Except.bind, hv]; rfl⟩
  · rintro ⟨f, hf⟩
    cases ho : i.overrides s with
    | error g => exact unconfigured_of_overrides ho
    | ok overrides =>
        cases hv : (Settings.resolve s.environment overrides).validate with
        | error g => exact .invalid ho hv
        | ok _ =>
            simp only [settings_eq, ho, Except.bind, hv] at hf
            cases hf

end Settings

/-! A run by itself -/

theorem Answer.statusOf_eq_zero_iff (v : Verdict) : statusOf v = 0 ↔ v = .accepted := by
  cases v <;> decide

theorem Answer.statusOf_eq_one_iff (v : Verdict) : statusOf v = 1 ↔ v = .rejected := by
  cases v <;> decide

theorem Answer.statusOf_ne_failed (v : Verdict) : statusOf v ≠ failed := by
  cases v <;> decide

section Perform

variable {i : Invocation} {s : Surroundings} {line : Except ReadFault (List Char)}
  {settings : Settings}

theorem perform_of_settings_error {f : Settings.Fault} (h : i.settings s = .error f) :
    (perform i s line).status = Answer.failed ∧
      ∀ moment, outText ((perform i s line).outputs moment) = "" := by
  simp only [perform, plan, h]
  exact ⟨rfl, fun _ => rfl⟩

/-- A batch that fails has not printed any of its lines. -/
theorem perform_of_batch_error {path : String} (hsettings : i.settings s = .ok settings)
    (hsource : i.source = .file path)
    (hfails : ∀ contents, s.file path = .ok contents →
      ∃ f, Batch.check settings contents = .error f) :
    (perform i s line).status = Answer.failed ∧
      ∀ moment, outText ((perform i s line).outputs moment) = "" := by
  simp only [perform, plan, hsettings, hsource]
  cases hread : s.file path with
  | error cause =>
      refine ⟨rfl, fun moment => ?_⟩
      simp [Dialogue.conclude, Answer.after, batch, Answer.failure, shown]
  | ok contents =>
      obtain ⟨f, hf⟩ := hfails contents hread
      simp only [batch, hf]
      refine ⟨rfl, fun moment => ?_⟩
      simp [Dialogue.conclude, Answer.after, Answer.failure, shown]

theorem perform_of_unchecked (h : Unchecked i s line) :
    (perform i s line).status = Answer.failed ∧
      (i.source ≠ .stdin → ∀ moment, outText ((perform i s line).outputs moment) = "") := by
  have hempty (h : (perform i s line).status = Answer.failed ∧
      ∀ moment, outText ((perform i s line).outputs moment) = "") :
      (perform i s line).status = Answer.failed ∧
        (i.source ≠ .stdin → ∀ moment, outText ((perform i s line).outputs moment) = "") :=
    ⟨h.1, fun _ => h.2⟩
  cases hsettings : i.settings s with
  | error f => exact hempty (perform_of_settings_error hsettings)
  | ok settings =>
      cases h with
      | unconfigured hc =>
          obtain ⟨f, hf⟩ := unconfigured_iff.mp hc
          rw [hsettings] at hf
          cases hf
      | unreadLine hsource hline =>
          simp only [perform, plan, hsettings, hsource, hline]
          exact ⟨rfl, fun hne => absurd rfl hne⟩
      | unreadFile hsource hfile =>
          refine hempty (perform_of_batch_error hsettings hsource fun contents hread => ?_)
          rw [hfile] at hread
          cases hread
      | emptyBatch hsource hfile hnone =>
          refine hempty (perform_of_batch_error hsettings hsource fun contents hread => ?_)
          obtain rfl := Except.ok.inj (hfile.symm.trans hread)
          exact ⟨_, Batch.check_eq_empty_iff.mpr hnone⟩
      | tooManyLines hsource hfile hmany =>
          refine hempty (perform_of_batch_error hsettings hsource fun contents hread => ?_)
          obtain rfl := Except.ok.inj (hfile.symm.trans hread)
          exact ⟨_, Batch.check_eq_tooManyLines_iff.mpr ⟨hmany, rfl, rfl⟩⟩

/-- Otherwise the status is that of one verdict on all that is checked. -/
theorem perform_of_not_unchecked (h : ¬ Unchecked i s line) :
    ∃ settings v, i.settings s = .ok settings ∧ (perform i s line).status = Answer.statusOf v ∧
      (v = .accepted ↔ ∀ text ∈ i.texts s line, (check settings text).verdict = .accepted) := by
  cases hsettings : i.settings s with
  | error f => exact absurd (.unconfigured (unconfigured_iff.mpr ⟨f, hsettings⟩)) h
  | ok settings =>
      cases hsource : i.source with
      | argument text =>
          exact ⟨settings, _, rfl, (perform_argument hsettings hsource line).1,
            by simp [Invocation.texts, hsource]⟩
      | stdin =>
          cases line with
          | error cause => exact absurd (.unreadLine hsource rfl) h
          | ok line =>
              exact ⟨settings, _, rfl, (perform_stdin hsettings hsource line).1,
                by simp [Invocation.texts, hsource]⟩
      | file path =>
          cases hfile : s.file path with
          | error cause => exact absurd (.unreadFile hsource hfile) h
          | ok contents =>
              have hsome : 0 < (Text.lines contents).countP Batch.isShown :=
                Nat.pos_of_ne_zero fun hempty => h (.emptyBatch hsource hfile hempty)
              have hfew : (Text.lines contents).countP Batch.isShown ≤ 100000 :=
                Nat.le_of_not_lt fun hmany => h (.tooManyLines hsource hfile hmany)
              obtain ⟨lines, hcheck⟩ : ∃ lines, Batch.check settings contents = .ok lines :=
                ⟨_, Batch.check_eq_ok_iff.mpr ⟨hsome, hfew, rfl⟩⟩
              refine ⟨settings, _, rfl, (perform_file hsettings hsource hfile hcheck line).1, ?_⟩
              simp only [Invocation.texts, hsource, hfile]
              exact Batch.verdict_checked_eq_accepted_iff hcheck

end Perform

/-! Two runs -/

/-- Two runs of which the same is asked, but for logging and tracing. What the files
with settings say of these has to be valid. -/
structure AskedAlike (i : Invocation) (s : Surroundings) (i' : Invocation) (s' : Surroundings) :
    Prop where
  expression : i'.expression = i.expression
  file : i'.file = i.file
  json : i'.json = i.json
  contents : ∀ path, i.source = .file path → s'.file path = s.file path
  environment : ∀ name ∉ filterVariable :: Environment.loudNames,
    s'.environment name = s.environment name
  overrides : (i'.overrides s').toOption.map Overrides.quiet =
    (i.overrides s).toOption.map Overrides.quiet

/-- Answers with one status and one text on the first stream. The time is seen in
JSON only. -/
structure Answer.SeenAlike (json : Bool) (a b : Answer) : Prop where
  status : b.status = a.status
  screen : ∀ moment moment', (json = true → moment' = moment) →
    outText (b.outputs moment') = outText (a.outputs moment)

section Alike

variable {i i' : Invocation} {s s' : Surroundings} {settings settings' : Settings}

theorem AskedAlike.source (h : AskedAlike i s i' s') : i'.source = i.source := by
  rw [Invocation.source, h.expression, h.file, Invocation.source]

theorem AskedAlike.settings_cases (h : AskedAlike i s i' s') :
    ((∃ f, i.settings s = .error f) ∧ ∃ f, i'.settings s' = .error f) ∨
      ∃ settings settings', i.settings s = .ok settings ∧ i'.settings s' = .ok settings' ∧
        settings'.quiet = settings.quiet := by
  have henv : (Overrides.ofEnvironment s'.environment).quiet =
      (Overrides.ofEnvironment s.environment).quiet := by
    refine Overrides.quiet_ofEnvironment fun name hname hloud => h.environment name ?_
    have hfilter : name ≠ filterVariable := by
      rintro rfl
      exact absurd hname (by decide)
    simp [hfilter, hloud]
  have hoverrides := h.overrides
  rw [settings_eq i, settings_eq i']
  cases ho : i.overrides s with
  | error f =>
      cases ho' : i'.overrides s' with
      | error f' => exact .inl ⟨⟨f, rfl⟩, f', rfl⟩
      | ok o' => simp [ho, ho', Except.toOption] at hoverrides
  | ok o =>
      cases ho' : i'.overrides s' with
      | error f' => simp [ho, ho', Except.toOption] at hoverrides
      | ok o' =>
          have hquiet : o'.quiet = o.quiet := by
            simpa [ho, ho', Except.toOption] using hoverrides
          have hresolve : (Settings.resolve s'.environment o').quiet =
              (Settings.resolve s.environment o).quiet := by
            rw [Settings.quiet_resolve, Settings.quiet_resolve, hquiet, henv]
          have hvalidate : (Settings.resolve s'.environment o').validate =
              (Settings.resolve s.environment o).validate := by
            rw [← Settings.validate_quiet, hresolve, Settings.validate_quiet]
          simp only [Except.bind, hvalidate]
          cases (Settings.resolve s.environment o).validate with
          | error f => exact .inl ⟨⟨f, rfl⟩, f, rfl⟩
          | ok _ => exact .inr ⟨_, _, rfl, rfl, hresolve⟩

theorem Answer.seenAlike_failure (json : Bool) (message message' : String) :
    SeenAlike json (.failure message) (.failure message') :=
  ⟨rfl, fun _ _ _ => rfl⟩

theorem Answer.SeenAlike.after {json : Bool} {a b : Answer} (h : SeenAlike json a b)
    {before before' : Moment → List Output} {prompt : String}
    (hbefore : ∀ moment, outText (before moment) = prompt)
    (hbefore' : ∀ moment, outText (before' moment) = prompt) :
    SeenAlike json (a.after before) (b.after before') where
  status := h.status
  screen moment moment' hm := by
    simp only [Answer.after, outText_append, hbefore, hbefore', h.screen moment moment' hm]

theorem seenAlike_single (hjson : i'.json = i.json) (hquiet : settings'.quiet = settings.quiet)
    (env env' : Environment) (log log' : LogSettings) (text : String) :
    Answer.SeenAlike i.json (single i settings (deskOf env log) text)
      (single i' settings' (deskOf env' log') text) := by
  have hsilent := check_silent_congr hquiet text
  have hverdict : (check settings' text).verdict = (check settings text).verdict := by
    rw [← Pass.verdict_silent, hsilent, Pass.verdict_silent]
  refine ⟨congrArg Answer.statusOf hverdict, fun moment moment' hm => ?_⟩
  simp only [single, outText_append, outText_tell]
  cases hj : i.json with
  | true =>
      obtain rfl := hm hj
      rw [outText_printReport_json hj, outText_printReport_json (hjson.trans hj),
        ← Report.ofPass_silent, hsilent, Report.ofPass_silent]
  | false =>
      rw [outText_printReport hj, outText_printReport (hjson.trans hj)]
      simp only [Report.ofPass, hverdict]

theorem outText_printBatch_silent (i : Invocation) (path : String) (lines : List Batch.Line)
    (moment : Moment) :
    outText (printBatch i path (lines.map Batch.Line.silent) moment) =
      outText (printBatch i path lines moment) := by
  cases hj : i.json with
  | true => rw [outText_printBatch_json hj, outText_printBatch_json hj, Batch.toJson_silent]
  | false =>
      rw [outText_printBatch hj, outText_printBatch hj, List.map_map, List.length_map,
        Batch.accepted_silent, Batch.rejected_silent]
      rfl

theorem outText_printBatch_congr (hjson : i'.json = i.json) (path : String)
    (lines : List Batch.Line) {moment moment' : Moment}
    (hm : i.json = true → moment' = moment) :
    outText (printBatch i' path lines moment') = outText (printBatch i path lines moment) := by
  cases hj : i.json with
  | true =>
      obtain rfl := hm hj
      rw [outText_printBatch_json hj, outText_printBatch_json (hjson.trans hj)]
  | false => rw [outText_printBatch hj, outText_printBatch (hjson.trans hj)]

theorem seenAlike_batch (hjson : i'.json = i.json) (hquiet : settings'.quiet = settings.quiet)
    (env env' : Environment) (log log' : LogSettings) (path : String)
    (read : Except ReadFault (List Char)) :
    Answer.SeenAlike i.json (batch i settings (deskOf env log) path read)
      (batch i' settings' (deskOf env' log') path read) := by
  cases read with
  | error cause => exact Answer.seenAlike_failure ..
  | ok contents =>
      have hcheck := Batch.check_silent_congr hquiet contents
      refine Answer.SeenAlike.after ?_ (fun _ => outText_tell ..) fun _ => outText_tell ..
      cases h : Batch.check settings contents with
      | error f =>
          cases h' : Batch.check settings' contents with
          | error f' => exact Answer.seenAlike_failure ..
          | ok lines' =>
              rw [h, h'] at hcheck
              cases hcheck
      | ok lines =>
          cases h' : Batch.check settings' contents with
          | error f' =>
              rw [h, h'] at hcheck
              cases hcheck
          | ok lines' =>
              rw [h, h'] at hcheck
              have hlines : lines'.map Batch.Line.silent = lines.map Batch.Line.silent :=
                Except.ok.inj hcheck
              refine ⟨congrArg Answer.statusOf ?_, fun moment moment' hm => ?_⟩
              · rw [← Batch.verdict_silent, hlines, Batch.verdict_silent]
              · dsimp only
                rw [← outText_printBatch_silent i', hlines, outText_printBatch_silent]
                exact outText_printBatch_congr hjson path lines hm

theorem AskedAlike.seenAlike (h : AskedAlike i s i' s') (line : Except ReadFault (List Char)) :
    Answer.SeenAlike i.json (perform i s line) (perform i' s' line) := by
  obtain ⟨⟨f, hf⟩, f', hf'⟩ | ⟨settings, settings', hs, hs', hquiet⟩ := h.settings_cases
  · simp only [perform, plan, hf, hf']
    exact Answer.seenAlike_failure ..
  · have hsource' := h.source
    simp only [perform, plan, hs, hs', hsource']
    cases hsource : i.source with
    | argument text =>
        exact (seenAlike_single h.json hquiet _ _ _ _ text).after (fun _ => outText_tell ..)
          fun _ => outText_tell ..
    | stdin =>
        have hprompt (env : Environment) (log : LogSettings) (ns : List Notice) (moment : Moment) :
            outText (tell (deskOf env log) ns moment ++ [.out "> "]) = "> " := by
          simp [shown]
        refine Answer.SeenAlike.after ?_ (fun _ => hprompt ..) fun _ => hprompt ..
        cases line with
        | error cause => exact Answer.seenAlike_failure ..
        | ok line => exact seenAlike_single h.json hquiet ..
    | file path =>
        simp only [h.contents path hsource]
        exact (seenAlike_batch h.json hquiet _ _ _ _ path _).after (fun _ => outText_tell ..)
          fun _ => outText_tell ..

end Alike

/-- A run fails if and only if it has no settings or nothing to check, and then its
first stream stays empty but for a prompt. Otherwise its status is 0 if all texts are
accepted and 1 if any is rejected. What is asked of logging and tracing changes
neither status nor first stream. -/
theorem status_and_first_stream (i : Invocation) (s : Surroundings)
    (line : Except ReadFault (List Char)) :
    ((perform i s line).status = 2 ↔ Unchecked i s line) ∧
    (¬ Unchecked i s line → ∃ settings, i.settings s = .ok settings ∧
      ((perform i s line).status = 0 ↔
        ∀ text ∈ i.texts s line, ∃ a, (check settings text).outcome = .ok a) ∧
      ((perform i s line).status = 1 ↔
        ∃ text ∈ i.texts s line, ∃ r, (check settings text).outcome = .error r)) ∧
    (i.source ≠ .stdin → (perform i s line).status = 2 →
      ∀ moment, outText ((perform i s line).outputs moment) = "") ∧
    ∀ i' s', AskedAlike i s i' s' →
      (perform i' s' line).status = (perform i s line).status ∧
      ∀ moment moment', (i.json = true → moment' = moment) →
        outText ((perform i' s' line).outputs moment') =
          outText ((perform i s line).outputs moment) := by
  have hfailed : (perform i s line).status = 2 ↔ Unchecked i s line := by
    refine ⟨fun hstatus => ?_, fun h => (perform_of_unchecked h).1⟩
    by_contra h
    obtain ⟨_, v, _, hv, _⟩ := perform_of_not_unchecked h
    exact Answer.statusOf_ne_failed v (hv.symm.trans hstatus)
  refine ⟨hfailed, fun h => ?_, fun hsource hstatus => ?_, fun i' s' h => ?_⟩
  · obtain ⟨settings, v, hsettings, hstatus, hv⟩ := perform_of_not_unchecked h
    refine ⟨settings, hsettings, ?_, ?_⟩
    · rw [hstatus, Answer.statusOf_eq_zero_iff, hv]
      simp only [Pass.verdict_eq_accepted_iff]
    · rw [hstatus, Answer.statusOf_eq_one_iff, ← Verdict.ne_accepted_iff, ne_eq, hv]
      simp only [not_forall, exists_prop, ← ne_eq, Verdict.ne_accepted_iff,
        Pass.verdict_eq_rejected_iff]
  · exact (perform_of_unchecked (hfailed.mp hstatus)).2 hsource
  · exact ⟨(h.seenAlike line).status, (h.seenAlike line).screen⟩

/-- A file in which the second line is rejected, with and without all that can be asked of
logging, a file without a line to check, and a number as an argument. -/
theorem status_and_first_stream_of_files :
    let line : Except ReadFault (List Char) := .error .notText
    let s : Surroundings :=
      { environment := fun _ => none
        file := fun path => .ok (if path = "sums" then "1\n(".toList else "\n \n".toList) }
    let s' : Surroundings :=
      { s with environment := fun name =>
          if name ∈ filterVariable :: Environment.loudNames then some "true" else none }
    let i : Invocation := { file := some "sums" }
    let i' : Invocation := { file := some "sums", verbosity := 2, structuredLogs := true }
    let blank : Invocation := { file := some "blanks" }
    let number : Invocation := { expression := some "1" }
    (AskedAlike i s i' s' ∧ ¬ Unchecked i s line ∧ Unchecked blank s line ∧
        ¬ Unchecked number s line) ∧
      (perform number s line).status = 0 ∧
      (perform i s line).status = 1 ∧ (perform i' s' line).status = 1 ∧
      (∀ moment, outText ((perform i' s' line).outputs moment) =
        outText ((perform i s line).outputs moment)) ∧
      (perform blank s line).status = 2 ∧
      ∀ moment, outText ((perform blank s line).outputs moment) = "" := by
  intro line s s' i i' blank number
  have halike : AskedAlike i s i' s' :=
    { expression := rfl, file := rfl, json := rfl, contents := fun _ _ => rfl,
      environment := fun name hname => if_neg hname, overrides := rfl }
  have hchecked : ¬ Unchecked i s line := by
    rintro (hc | ⟨hsource, _⟩ | ⟨_, hfile⟩ | ⟨hsource, hfile, hcount⟩ | ⟨hsource, hfile, hcount⟩)
    · obtain ⟨f, hf⟩ := unconfigured_iff.mp hc
      cases hf
    · cases hsource
    · cases hfile
    · cases hsource
      cases hfile
      exact absurd hcount (by decide)
    · cases hsource
      cases hfile
      exact absurd hcount (by decide)
  have hnumber : ¬ Unchecked number s line := by
    rintro (hc | ⟨hsource, _⟩ | ⟨hsource, _⟩ | ⟨hsource, _⟩ | ⟨hsource, _⟩)
    · obtain ⟨f, hf⟩ := unconfigured_iff.mp hc
      cases hf
    all_goals cases hsource
  have hblank : Unchecked blank s line := .emptyBatch rfl rfl (by decide)
  obtain ⟨-, hverdict, -, htwo⟩ := status_and_first_stream i s line
  obtain ⟨hfailed, -, hsilent, -⟩ := status_and_first_stream blank s line
  obtain ⟨settings, hsettings, -, hrejected⟩ := hverdict hchecked
  have hstatus : (perform i s line).status = 1 := by
    obtain rfl : ({} : Overrides).toSettings = settings := Except.ok.inj hsettings
    have hscan : scan "(" =
        [⟨.openParen, some "(", ⟨⟨0, 1, 1⟩, ⟨1, 1, 2⟩⟩⟩, .endMarker (.emptyAt ⟨1, 1, 2⟩)] := by
      decide
    have hmem : "(" ∈ i.texts s line := by decide
    refine hrejected.mpr ⟨"(", hmem, ?_⟩
    rw [check_outcome (by decide), hscan]
    exact ⟨_, rfl⟩
  have haccepted : (perform number s line).status = 0 := by
    obtain ⟨settings, hsettings, hzero, -⟩ := (status_and_first_stream number s line).2.1 hnumber
    obtain rfl : ({} : Overrides).toSettings = settings := Except.ok.inj hsettings
    have hscan : scan "1" =
        [⟨.integer, some "1", ⟨⟨0, 1, 1⟩, ⟨1, 1, 2⟩⟩⟩, .endMarker (.emptyAt ⟨1, 1, 2⟩)] := by
      decide
    refine hzero.mpr fun text htext => ?_
    obtain rfl : text = "1" := List.mem_singleton.mp htext
    rw [check_outcome (by decide), hscan]
    exact ⟨_, rfl⟩
  obtain ⟨hsame, hscreen⟩ := htwo i' s' halike
  exact ⟨⟨halike, hchecked, hblank, hnumber⟩, haccepted, hstatus, hsame.trans hstatus,
    fun moment => hscreen moment moment fun _ => rfl, hfailed.mpr hblank,
    hsilent (by decide) (hfailed.mpr hblank)⟩

end Console
end ExprCheck
