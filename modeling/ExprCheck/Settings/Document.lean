import ExprCheck.Settings.Environment
import ExprCheck.Settings.Fault

/-!
Settings in TOML documents: a table for each group of settings, and a key for
each setting.
-/

namespace ExprCheck

open Toml (Item Table)

/-! Reading -/

namespace Toml.Item

def boolean? : Item → Option Bool
  | boolean b => some b
  | _ => none

def size? : Item → Option Nat
  | integer n => if 0 ≤ n then some n.toNat else none
  | _ => none

def isEmpty : Item → Bool
  | array [] | inline [] | table _ [] => true
  | _ => false

/-- One of several names, as a string or as the only key, with nothing under it. -/
def name? : Item → Option String
  | string s => some s
  | inline [(name, item)] | table _ [(name, item)] => if item.isEmpty then some name else none
  | _ => none

def level? (item : Item) : Option Level :=
  item.name?.bind Level.ofLabel?

/-- The items of a group's keys. A group is a table, or an array with the values
in their order; a date has no key of a group. -/
def group? (names : List String) : Item → Option (List (Option Item))
  | table _ entries | inline entries => some (names.map fun name => entries.lookup name)
  | array items => some (names.mapIdx fun i _ => items[i]?)
  | datetime => some (names.map fun _ => none)
  | _ => none

end Toml.Item

/-- Reads a setting that may be missing. -/
def setting (read : Item → Option α) : Option Item → Option (Option α)
  | none => some none
  | some item => (read item).map some

namespace Overrides

def scanningNames : List String :=
  ["collect_detailed_metrics", "trace_tokens", "max_input_length"]

def grammarNames : List String :=
  ["max_parse_depth", "trace_productions"]

def logNames : List String :=
  ["use_structured_logging", "enable_console_logging", "min_log_level",
   "log_performance_events"]

/-- The items of a group in a document. -/
def groupOf (document : Table) (group : String) (names : List String) :
    Option (List (Option Item)) :=
  match document.lookup group with
  | none => some (names.map fun _ => none)
  | some item => item.group? names

/-- What a document sets, unless a value is of the wrong kind. -/
def ofDocument? (document : Table) : Option Overrides := do
  match ← groupOf document "lexical" scanningNames, ← groupOf document "syntax" grammarNames,
      ← groupOf document "logging" logNames with
  | [detailed, traceTokens, maxInputLength], [maxDepth, traceProductions],
      [structured, console, level, timing] =>
    return {
      detailed := ← setting Item.boolean? detailed
      traceTokens := ← setting Item.boolean? traceTokens
      maxInputLength := ← setting Item.size? maxInputLength
      maxDepth := ← setting Item.size? maxDepth
      traceProductions := ← setting Item.boolean? traceProductions
      structured := ← setting Item.boolean? structured
      console := ← setting Item.boolean? console
      level := ← setting Item.level? level
      timing := ← setting Item.boolean? timing }
  | _, _, _ => none

def ofText (text : List Char) : Except Toml.Problem Overrides := do
  match ofDocument? (← Toml.parse text) with
  | some overrides => return overrides
  | none => throw .mistyped

end Overrides

namespace Settings

/-- The settings of a document, in an environment. -/
def ofText (env : Environment) (text : List Char) : Except Fault Settings :=
  match Overrides.ofText text with
  | .error problem => .error (.malformed problem)
  | .ok overrides =>
    let settings := resolve env overrides
    settings.validate.map fun _ => settings

/-- The settings of a file, given what reading it comes to. -/
def ofFile (env : Environment) (path : String) (contents : Except ReadFault (List Char)) :
    Except Fault Settings :=
  match contents with
  | .error cause => .error (.unreadable path cause)
  | .ok text => ofText env text

/-! Writing -/

def pair (name value : String) : String :=
  s!"{name} = {value}\n"

/-- The document for settings. Its integers have 64 bits with sign. -/
def toToml (s : Settings) : Except Fault String :=
  if s.scanning.maxInputLength < Number.signedBound ∧ s.grammar.maxDepth < Number.signedBound then
    .ok <|
      "[lexical]\n"
        ++ pair "collect_detailed_metrics" (toString s.scanning.detailed)
        ++ pair "trace_tokens" (toString s.scanning.traceTokens)
        ++ pair "max_input_length" (toString s.scanning.maxInputLength)
        ++ "\n[syntax]\n"
        ++ pair "max_parse_depth" (toString s.grammar.maxDepth)
        ++ pair "trace_productions" (toString s.grammar.traceProductions)
        ++ "\n[logging]\n"
        ++ pair "use_structured_logging" (toString s.log.structured)
        ++ pair "enable_console_logging" (toString s.log.console)
        ++ pair "min_log_level" s!"\"{s.log.level.label}\""
        ++ pair "log_performance_events" (toString s.log.timing)
  else .error .unwritable

end Settings
end ExprCheck
