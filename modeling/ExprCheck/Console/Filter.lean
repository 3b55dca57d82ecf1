import ExprCheck.Settings.Environment
import ExprCheck.Text.Characters
import ExprCheck.Text.Lines

/-!
Which records are printed. The threshold comes from the settings, and directives
in a variable may replace it: a level for all targets, or one for the targets
whose names start in a certain way. Of several that fit the longest counts.
-/

namespace ExprCheck.Console

/-- A threshold for the targets whose names start with `target`. -/
structure Directive where
  target : String
  /-- Nothing is printed without one. -/
  threshold : Option Level
deriving DecidableEq, Repr

namespace Directive

/-- The threshold with a name, in any case. Traces are as good as debug events. -/
def threshold? (name : String) : Option (Option Level) :=
  match String.ofList (name.toList.map Char.toLower) with
  | "off" => some none
  | "error" => some (some .error)
  | "warn" => some (some .warning)
  | "info" => some (some .info)
  | "debug" | "trace" => some (some .debug)
  | _ => none

def trim (cs : List Char) : String :=
  String.ofList (Text.trimEnd Text.isBlank (cs.dropWhile Text.isBlank))

/-- Reads a level, a target, or a target and a level. -/
def parse? (spec : String) : Option Directive :=
  match spec.splitOn "=" with
  | [""] => none
  | [word] =>
    match threshold? word with
    | some threshold => some ⟨"", threshold⟩
    | none => some ⟨word, some .debug⟩
  | [target, level] =>
    if level = "" then some ⟨target, some .debug⟩
    else (threshold? (trim level.toList)).map (⟨target, ·⟩)
  | _ => none

/-- The directives between commas. -/
def parseAll (text : String) : List Directive :=
  (text.splitOn ",").filterMap fun spec => parse? (trim spec.toList)

/-- The directive with the longest fitting target, the last of several. -/
def select (ds : List Directive) (target : String) : Option Directive :=
  ds.foldl
    (fun best d =>
      if d.target.toList.isPrefixOf target.toList
          ∧ best.all (fun b => b.target.length ≤ d.target.length) then some d
      else best)
    none

end Directive

/-- The variable with the directives. -/
def filterVariable : String := "RUST_LOG"

/-- The threshold for records under a target. -/
def recordThreshold (env : Environment) (level : Level) (target : String) : Option Level :=
  let directives := ⟨"", some level⟩ :: Directive.parseAll ((env filterVariable).getD "")
  ((Directive.select directives target).map (·.threshold)).getD none

end ExprCheck.Console
