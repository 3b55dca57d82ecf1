import ExprCheck.Proofs.Toml.Documents
import ExprCheck.Settings.Document

/-!
Settings written as a document and read back. Every setting is written, so that nothing is
left for the environment to fill in.
-/

namespace ExprCheck

open Toml (Item Line Table)

theorem Level.ofLabel?_label (l : Level) : ofLabel? l.label = some l := by
  cases l <;> rfl

theorem Level.isPlain_label (l : Level) : (Item.string l.label).IsPlain := by
  cases l <;> simp [Item.IsPlain, label, Toml.isPrintable]

namespace Settings

/-- The lines of the document for settings. -/
def lines (s : Settings) : List Line :=
  [.header "lexical",
   .pair "collect_detailed_metrics" (.boolean s.scanning.detailed),
   .pair "trace_tokens" (.boolean s.scanning.traceTokens),
   .pair "max_input_length" (.integer s.scanning.maxInputLength),
   .blank,
   .header "syntax",
   .pair "max_parse_depth" (.integer s.grammar.maxDepth),
   .pair "trace_productions" (.boolean s.grammar.traceProductions),
   .blank,
   .header "logging",
   .pair "use_structured_logging" (.boolean s.log.structured),
   .pair "enable_console_logging" (.boolean s.log.console),
   .pair "min_log_level" (.string s.log.level.label),
   .pair "log_performance_events" (.boolean s.log.timing)]

/-- The tables of that document, the latest first. -/
def tables (s : Settings) : Table :=
  [("logging", .table .header
      [("log_performance_events", .boolean s.log.timing),
       ("min_log_level", .string s.log.level.label),
       ("enable_console_logging", .boolean s.log.console),
       ("use_structured_logging", .boolean s.log.structured)]),
   ("syntax", .table .header
      [("trace_productions", .boolean s.grammar.traceProductions),
       ("max_parse_depth", .integer s.grammar.maxDepth)]),
   ("lexical", .table .header
      [("max_input_length", .integer s.scanning.maxInputLength),
       ("trace_tokens", .boolean s.scanning.traceTokens),
       ("collect_detailed_metrics", .boolean s.scanning.detailed)])]

/-- The overrides that leave nothing open. -/
def overrides (s : Settings) : Overrides where
  detailed := some s.scanning.detailed
  traceTokens := some s.scanning.traceTokens
  maxInputLength := some s.scanning.maxInputLength
  maxDepth := some s.grammar.maxDepth
  traceProductions := some s.grammar.traceProductions
  structured := some s.log.structured
  console := some s.log.console
  level := some s.log.level
  timing := some s.log.timing

theorem resolve_overrides (env : Environment) (s : Settings) : resolve env s.overrides = s := rfl

variable {s : Settings}

theorem assemble_lines (s : Settings) :
    Toml.assemble (Line.sections .document [] s.lines) = some s.tables := by
  rfl

theorem ofDocument?_tables (s : Settings) : Overrides.ofDocument? s.tables = some s.overrides := by
  have hlevel : Item.level? (.string s.log.level.label) = some s.log.level :=
    Level.ofLabel?_label _
  have hsize (n : Nat) : Item.size? (.integer n) = some n := by simp [Item.size?]
  have hscanning : Overrides.groupOf s.tables "lexical" Overrides.scanningNames =
      some [some (.boolean s.scanning.detailed), some (.boolean s.scanning.traceTokens),
        some (.integer s.scanning.maxInputLength)] := rfl
  have hgrammar : Overrides.groupOf s.tables "syntax" Overrides.grammarNames =
      some [some (.integer s.grammar.maxDepth), some (.boolean s.grammar.traceProductions)] := rfl
  have hlog : Overrides.groupOf s.tables "logging" Overrides.logNames =
      some [some (.boolean s.log.structured), some (.boolean s.log.console),
        some (.string s.log.level.label), some (.boolean s.log.timing)] := rfl
  simp only [Overrides.ofDocument?, hscanning, hgrammar, hlog, setting, Item.boolean?, hsize,
    hlevel, Option.map_some, bind, Option.bind, pure]
  rfl

theorem isPlain_of_mem_lines (hi : s.scanning.maxInputLength < Number.signedBound)
    (hd : s.grammar.maxDepth < Number.signedBound) : ∀ l ∈ s.lines, l.IsPlain := by
  have hboolean (b : Bool) : (Item.boolean b).IsPlain := trivial
  have hinteger {n : Nat} (h : n < Number.signedBound) : (Item.integer n).IsPlain :=
    ⟨Int.natCast_nonneg n, Int.ofNat_lt.mpr h⟩
  simp only [lines, List.forall_mem_cons, Line.IsPlain, hboolean, hinteger hi, hinteger hd,
    Level.isPlain_label, List.not_mem_nil, false_implies, implies_true, and_true, true_and]
  -- What is left are the names.
  decide

theorem toList_pair {value : String} {item : Item} (name : String)
    (h : value.toList = item.spelling) : (pair name value).toList = (Line.pair name item).text := by
  change (name ++ " = " ++ value ++ "\n").toList = _
  simp [Line.text, h]

theorem toToml_eq (hi : s.scanning.maxInputLength < Number.signedBound)
    (hd : s.grammar.maxDepth < Number.signedBound) :
    s.toToml = .ok (String.ofList (s.lines.flatMap Line.text)) := by
  have hboolean (name : String) (b : Bool) :
      (pair name (toString b)).toList = (Line.pair name (.boolean b)).text :=
    toList_pair name (by cases b <;> rfl)
  have hinteger (name : String) (n : Nat) :
      (pair name (toString n)).toList = (Line.pair name (.integer n)).text :=
    toList_pair name Nat.toList_repr
  have hstring (name label : String) :
      (pair name s!"\"{label}\"").toList = (Line.pair name (.string label)).text := by
    apply toList_pair
    change ("\"" ++ label ++ "\"").toList = _
    simp [Item.spelling]
  have hlexical : "[lexical]\n".toList = (Line.header "lexical").text := rfl
  have hsyntax : "\n[syntax]\n".toList = Line.blank.text ++ (Line.header "syntax").text := rfl
  have hlogging : "\n[logging]\n".toList = Line.blank.text ++ (Line.header "logging").text := rfl
  rw [toToml, if_pos ⟨hi, hd⟩]
  refine congrArg Except.ok (String.toList_inj.mp ?_)
  simp only [String.toList_append, String.toList_ofList, hboolean, hinteger, hstring, hlexical,
    hsyntax, hlogging, lines, List.flatMap_cons, List.flatMap_nil, List.append_assoc,
    List.append_nil]

/-- Settings whose numbers fit into 64 bits with sign are written, and in any environment the
document is read as these settings, or refused with what is wrong with them. Greater numbers
cannot be written. -/
theorem ofText_toToml (env : Environment) (s : Settings) :
    (s.scanning.maxInputLength < Number.signedBound ∧
        s.grammar.maxDepth < Number.signedBound →
      ∃ text, s.toToml = .ok text ∧
        ofText env text.toList = s.validate.map fun _ => s) ∧
    (Number.signedBound ≤ s.scanning.maxInputLength ∨
        Number.signedBound ≤ s.grammar.maxDepth →
      s.toToml = .error .unwritable) := by
  constructor
  · rintro ⟨hi, hd⟩
    refine ⟨_, toToml_eq hi hd, ?_⟩
    have hparse := Toml.parse_lines (isPlain_of_mem_lines hi hd) (assemble_lines s)
    have hread : Overrides.ofText (s.lines.flatMap Line.text) = .ok s.overrides := by
      simp only [Overrides.ofText, hparse, bind, Except.bind, ofDocument?_tables]
      rfl
    rw [String.toList_ofList, ofText, hread]
    dsimp only
    rw [resolve_overrides]
  · intro h
    rw [toToml, if_neg (by omega)]

/-- An environment with another value for every setting, settings that are taken, some that are
refused, and some that cannot be written. -/
theorem ofText_toToml_despite_environment :
    let env : Environment := fun name => if name ∈ Environment.names then some "3" else none
    let s : Settings :=
      { scanning := ⟨false, true, 9⟩
        grammar := ⟨4096, true⟩
        log := ⟨true, false, .info, true⟩ }
    let refused := { s with grammar := ⟨0, true⟩ }
    let great := { s with grammar := ⟨Number.signedBound, true⟩ }
    (s.scanning.maxInputLength < Number.signedBound ∧ s.grammar.maxDepth < Number.signedBound ∧
      refused.grammar.maxDepth < Number.signedBound ∧
      Number.signedBound ≤ great.grammar.maxDepth ∧ (resolve env {}).scanning.maxInputLength = 3 ∧
      (resolve env {}).log.level = .debug) ∧
    (∃ text, s.toToml = .ok text ∧ ofText env text.toList = .ok s) ∧
    (∃ text, refused.toToml = .ok text ∧ ofText env text.toList =
      .error (.invalidValue "syntax.max_parse_depth" "must be at least 1")) ∧
    great.toToml = .error .unwritable := by
  intro env s refused great
  have hinput : s.scanning.maxInputLength < Number.signedBound := by decide
  have hdepth : s.grammar.maxDepth < Number.signedBound := by decide
  have hzero : refused.grammar.maxDepth < Number.signedBound := by decide
  have hgreat : Number.signedBound ≤ great.grammar.maxDepth := by decide
  refine ⟨⟨hinput, hdepth, hzero, hgreat, by decide, by decide⟩, ?_, ?_, ?_⟩
  · exact (ofText_toToml env s).1 ⟨hinput, hdepth⟩
  · exact (ofText_toToml env refused).1 ⟨hinput, hzero⟩
  · exact (ofText_toToml env great).2 (.inr hgreat)

end Settings
end ExprCheck
