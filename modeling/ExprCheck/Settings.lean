import ExprCheck.Limits
import ExprCheck.Log.Level

/-!
What a user can set. Each setting has a value that counts without the user, and
settings that could exceed a limit are kept within it where they are used.
-/

namespace ExprCheck

structure ScanSettings where
  /-- Whether tokens are counted by category. -/
  detailed : Bool
  traceTokens : Bool
  /-- Bytes of a text that is checked. -/
  maxInputLength : Nat
deriving DecidableEq, Repr

def ScanSettings.inputLimit (s : ScanSettings) : Nat :=
  min s.maxInputLength Limits.inputLength

structure GrammarSettings where
  /-- Parentheses open at once. -/
  maxDepth : Nat
  traceProductions : Bool
deriving DecidableEq, Repr

namespace GrammarSettings

def builtin : GrammarSettings where
  maxDepth := 1024
  traceProductions := false

/-- One level is always allowed. -/
def depthLimit (s : GrammarSettings) : Nat :=
  max 1 (min s.maxDepth Limits.depth)

end GrammarSettings

structure LogSettings where
  /-- Whether events are printed as JSON. -/
  structured : Bool
  /-- Whether events are printed at all. -/
  console : Bool
  level : Level
  /-- Whether the time that a check took is an event. -/
  timing : Bool
deriving DecidableEq, Repr

/-- The settings and limits that logging obeys, a line for each. -/
def LogSettings.summary (s : LogSettings) : String :=
  s!"=== Logging Configuration ===\n"
    ++ s!"Minimum level: {s.level.name}\n"
    ++ s!"Structured: {s.structured}\n"
    ++ s!"Console: {s.console}\n"
    ++ s!"Performance events: {s.timing}\n"
    ++ s!"Buffer size: {Limits.memory}\n"
    ++ s!"Max message length: {Limits.messageLength}\n"

structure Settings where
  scanning : ScanSettings
  grammar : GrammarSettings
  log : LogSettings
deriving DecidableEq, Repr

/-- Values for some of the settings. -/
structure Overrides where
  detailed : Option Bool := none
  traceTokens : Option Bool := none
  maxInputLength : Option Nat := none
  maxDepth : Option Nat := none
  traceProductions : Option Bool := none
  structured : Option Bool := none
  console : Option Bool := none
  level : Option Level := none
  timing : Option Bool := none
deriving DecidableEq, Repr

namespace Overrides

/-- Takes from `p` what `o` leaves open. -/
def orElse (o p : Overrides) : Overrides where
  detailed := o.detailed <|> p.detailed
  traceTokens := o.traceTokens <|> p.traceTokens
  maxInputLength := o.maxInputLength <|> p.maxInputLength
  maxDepth := o.maxDepth <|> p.maxDepth
  traceProductions := o.traceProductions <|> p.traceProductions
  structured := o.structured <|> p.structured
  console := o.console <|> p.console
  level := o.level <|> p.level
  timing := o.timing <|> p.timing

/-- The settings, with built-in values for what is left open. -/
def toSettings (o : Overrides) : Settings where
  scanning :=
    { detailed := o.detailed.getD true
      traceTokens := o.traceTokens.getD false
      maxInputLength := o.maxInputLength.getD Limits.inputLength }
  grammar :=
    { maxDepth := o.maxDepth.getD GrammarSettings.builtin.maxDepth
      traceProductions := o.traceProductions.getD GrammarSettings.builtin.traceProductions }
  log :=
    { structured := o.structured.getD false
      console := o.console.getD true
      level := o.level.getD .warning
      timing := o.timing.getD false }

end Overrides
end ExprCheck
