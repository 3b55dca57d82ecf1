import ExprCheck.Proofs.Batch.Lines
import ExprCheck.Proofs.Check.Reports
import ExprCheck.Settings.Environment
import ExprCheck.Settings.Fault

/-!
Settings for logging and tracing. They decide what is said during a check and
nothing else: without its notices, a check is the same under settings that agree
on everything else, and so is a batch.
-/

namespace ExprCheck

/-- The values for something else than logging and tracing. -/
def Overrides.quiet (o : Overrides) : Overrides where
  detailed := o.detailed
  maxInputLength := o.maxInputLength
  maxDepth := o.maxDepth

/-- The settings, with the built-in ones for logging and tracing. -/
def Settings.quiet (s : Settings) : Settings where
  scanning := { s.scanning with traceTokens := false }
  grammar := { s.grammar with traceProductions := GrammarSettings.builtin.traceProductions }
  log := ({} : Overrides).toSettings.log

/-- A pass of which nothing has been said. -/
def Pass.silent (p : Pass) : Pass :=
  { p with notices := [] }

def Batch.Line.silent (l : Batch.Line) : Batch.Line :=
  { l with pass := l.pass.silent }

/-- The variables that set something for logging and tracing. -/
def Environment.loudNames : List String :=
  ["SEL_LEXICAL_TRACE_TOKENS", "SEL_SYNTAX_TRACE_PRODUCTIONS", "SEL_LOGGING_USE_STRUCTURED",
   "SEL_LOGGING_ENABLE_CONSOLE", "SEL_LOGGING_MIN_LEVEL", "SEL_LOGGING_LOG_PERFORMANCE"]

section Resolve

variable {env env' : Environment}

theorem Overrides.quiet_ofEnvironment
    (h : ∀ name ∈ Environment.names, name ∉ Environment.loudNames → env' name = env name) :
    (ofEnvironment env').quiet = (ofEnvironment env).quiet := by
  have hdetailed := h "SEL_LEXICAL_DETAILED_METRICS" (by decide) (by decide)
  have hlength := h "SEL_LEXICAL_MAX_INPUT_LENGTH" (by decide) (by decide)
  have hdepth := h "SEL_SYNTAX_MAX_PARSE_DEPTH" (by decide) (by decide)
  simp only [quiet, ofEnvironment, hdetailed, hlength, hdepth]

theorem Settings.quiet_resolve (env : Environment) (o : Overrides) :
    (resolve env o).quiet = (o.quiet.orElse (Overrides.ofEnvironment env).quiet).toSettings := rfl

theorem Settings.validate_quiet (s : Settings) : s.quiet.validate = s.validate := rfl

end Resolve

section Check

variable {settings settings' : Settings}

theorem check_quiet (settings : Settings) (text : String) :
    (check settings.quiet text).silent = (check settings text).silent := by
  by_cases h : Text.byteLength text.toList ≤ settings.scanning.inputLimit
  · have hq : Text.byteLength text.toList ≤ settings.quiet.scanning.inputLimit := h
    simp only [Pass.silent, Pass.mk.injEq, and_true]
    rw [check_outcome h, check_outcome hq, check_tokenCount h, check_tokenCount hq]
    exact ⟨rfl, rfl⟩
  · have hq : ¬ Text.byteLength text.toList ≤ settings.quiet.scanning.inputLimit := h
    simp only [check, if_neg h, if_neg hq]
    rfl

theorem check_silent_congr (h : settings'.quiet = settings.quiet) (text : String) :
    (check settings' text).silent = (check settings text).silent := by
  rw [← check_quiet, h, check_quiet]

theorem Report.ofPass_silent (moment : Moment) (text : String) (p : Pass) :
    ofPass moment text p.silent = ofPass moment text p := rfl

theorem Pass.verdict_silent (p : Pass) : p.silent.verdict = p.verdict := rfl

namespace Batch

theorem check_silent_congr (h : settings'.quiet = settings.quiet) (contents : List Char) :
    (check settings' contents).map (List.map Line.silent) =
      (check settings contents).map (List.map Line.silent) := by
  have hline (e : Nat × List Char) :
      (checkLine settings' e).silent = (checkLine settings e).silent := by
    simp only [checkLine, Line.silent, ExprCheck.check_silent_congr h]
  simp only [check_eq]
  split
  · rfl
  · split
    · rfl
    · simp only [Except.map, List.map_map, Function.comp_def, hline]

theorem Line.isAccepted_silent (l : Line) : l.silent.isAccepted = l.isAccepted := rfl

theorem accepted_silent (lines : List Line) :
    accepted (lines.map Line.silent) = accepted lines :=
  accepted_map Line.isAccepted_silent lines

theorem rejected_silent (lines : List Line) :
    rejected (lines.map Line.silent) = rejected lines := by
  rw [rejected, List.length_map, accepted_silent, rejected]

theorem verdict_silent (lines : List Line) : verdict (lines.map Line.silent) = verdict lines := by
  rw [verdict, rejected_silent, verdict]

theorem toJson_silent (moment : Moment) (source : String) (lines : List Line) :
    toJson moment source (lines.map Line.silent) = toJson moment source lines := by
  rw [toJson, List.length_map, accepted_silent, rejected_silent, List.map_map]
  rfl

end Batch
end Check
end ExprCheck
