/-!
The words of the command line. They are taken from left to right, and the first
problem counts. A word that follows an option as its value is looked at only when
the next known word, or the end, is reached.
-/

namespace ExprCheck.Console

/-- What a command line asks for. -/
structure Invocation where
  expression : Option String := none
  file : Option String := none
  json : Bool := false
  config : Option String := none
  /-- How often more was asked for, up to 255. -/
  verbosity : Nat := 0
  structuredLogs : Bool := false
deriving DecidableEq, Repr

/-- Where the expressions come from. -/
inductive Source where
  | argument (text : String)
  | file (path : String)
  | stdin
deriving DecidableEq, Repr

def Invocation.source (i : Invocation) : Source :=
  match i.expression, i.file with
  | some text, _ => .argument text
  | none, some path => .file path
  | none, none => .stdin

/-- What is wrong with a command line. -/
inductive UsageFault where
  | unknownArgument
  /-- Two words that exclude each other, or one twice. -/
  | conflict
  | invalidValue
  /-- A value for an option that takes none. -/
  | unneededValue
deriving DecidableEq, Repr

def UsageFault.message : UsageFault → String
  | unknownArgument => "unexpected argument found"
  | conflict => "an argument cannot be used with another one, or twice"
  | invalidValue => "a value is required for an option but none was supplied"
  | unneededValue => "unexpected value found for an option that takes none"

/-- Why the command line is not carried out. -/
inductive Stop where
  | fault (f : UsageFault)
  | help
  | version
deriving DecidableEq, Repr

/-- Options that take a path. -/
inductive PathOption where
  | file
  | config
deriving DecidableEq, Repr

/-- The words taken so far. -/
structure Taken where
  invocation : Invocation := {}
  /-- The option that was met last, and its value if that has been met too. -/
  pending : Option (PathOption × Option String) := none
deriving DecidableEq, Repr

namespace Taken

def path (t : Taken) : PathOption → Option String
  | .file => t.invocation.file
  | .config => t.invocation.config

def setPath (t : Taken) (option : PathOption) (path : String) : Taken :=
  match option with
  | .file => { t with invocation.file := some path }
  | .config => { t with invocation.config := some path }

/-- Gives an option its value. It must be the first, and not empty. -/
def give (t : Taken) (option : PathOption) (value : String) : Except Stop Taken :=
  if (t.path option).isSome then .error (.fault .conflict)
  else if value = "" then .error (.fault .invalidValue)
  else .ok (t.setPath option value)

/-- Deals with the option that was met last. -/
def settle (t : Taken) : Except Stop Taken :=
  match t.pending with
  | none => .ok t
  | some (_, none) => .error (.fault .invalidValue)
  | some (option, some value) => { t with pending := none }.give option value

/-- Meets an option, with a value if that is part of the same word. -/
def meet (t : Taken) (option : PathOption) (value : Option String) : Except Stop Taken := do
  let t ← t.settle
  match value with
  | some value => t.give option value
  | none => return { t with pending := some (option, none) }

def meetJson (t : Taken) : Except Stop Taken := do
  let t ← t.settle
  if t.invocation.json then throw (.fault .conflict)
  return { t with invocation.json := true }

def meetStructuredLogs (t : Taken) : Except Stop Taken := do
  let t ← t.settle
  if t.invocation.structuredLogs then throw (.fault .conflict)
  return { t with invocation.structuredLogs := true }

def meetVerbose (t : Taken) : Except Stop Taken := do
  let t ← t.settle
  return { t with invocation.verbosity := min (t.invocation.verbosity + 1) 255 }

def stopWith (t : Taken) (stop : Stop) : Except Stop Taken := do
  let _ ← t.settle
  throw stop

/-- A word with two dashes, split at its first equals sign. -/
def long (t : Taken) (name : String) (value : Option String) : Except Stop Taken :=
  match name, value with
  | "file", value => t.meet .file value
  | "config", value => t.meet .config value
  | "json", none => t.meetJson
  | "structured-logs", none => t.meetStructuredLogs
  | "verbose", none => t.meetVerbose
  | "help", none => t.stopWith .help
  | "version", none => t.stopWith .version
  | "json", some _ | "structured-logs", some _ | "verbose", some _ | "help", some _
  | "version", some _ => .error (.fault .unneededValue)
  | _, _ => .error (.fault .unknownArgument)

/-- The value in a word behind an option's letter; an equals sign may stand between. -/
def attached : List Char → Option String
  | [] => none
  | '=' :: cs => some (String.ofList cs)
  | cs => some (String.ofList cs)

/-- The letters of a word with one dash. -/
def short (t : Taken) : List Char → Except Stop Taken
  | [] => .ok t
  | c :: cs =>
    match c with
    | 'f' => t.meet .file (attached cs)
    | 'c' => t.meet .config (attached cs)
    | 'v' => do short (← t.meetVerbose) cs
    | 'h' => t.stopWith .help
    | 'V' => t.stopWith .version
    | _ => .error (.fault .unknownArgument)

/-- A word that is the expression; there can be only one. -/
def positional (t : Taken) (word : String) : Except Stop Taken := do
  if t.invocation.expression.isSome then throw (.fault .unknownArgument)
  let t ← t.settle
  return { t with invocation.expression := some word }

/-- A word before the double dash. A single dash is no option. -/
def word (t : Taken) (word : String) : Except Stop Taken :=
  match word.toList with
  | '-' :: '-' :: cs =>
    t.long (String.ofList (cs.takeWhile (· ≠ '=')))
      (match cs.dropWhile (· ≠ '=') with
      | _ :: value => some (String.ofList value)
      | [] => none)
  | '-' :: c :: cs => t.short (c :: cs)
  | _ =>
    match t.pending with
    | some (option, none) => .ok { t with pending := some (option, some word) }
    | _ => t.positional word

/-- Takes all words. -/
def words (t : Taken) : List String → Except Stop Taken
  | [] => .ok t
  | "--" :: rest => rest.foldlM positional t
  | w :: rest => do words (← t.word w) rest

end Taken

/-- What a command line asks for. An expression and a file exclude each other. -/
def parse (args : List String) : Except Stop Invocation := do
  let t ← (← Taken.words {} args).settle
  let i := t.invocation
  if i.expression.isSome ∧ i.file.isSome then throw (.fault .conflict)
  return i

end ExprCheck.Console
