import ExprCheck.Json.Writer
import ExprCheck.Limits
import ExprCheck.Log.Code
import ExprCheck.Log.Level
import ExprCheck.Source.Span

/-!
Events, and how they are shown.
-/

namespace ExprCheck

/-- The details of an event: a value for each of some keys, in the order of the keys. -/
structure Context where
  pairs : List (String × String) := []
deriving DecidableEq, Repr, Inhabited

namespace Context

/-- Puts a pair at its key's place, in the stead of the pair with that key. -/
def insertPair (key value : String) : List (String × String) → List (String × String)
  | [] => [(key, value)]
  | (k, v) :: rest =>
    if key < k then (key, value) :: (k, v) :: rest
    else if key = k then (key, value) :: rest
    else (k, v) :: insertPair key value rest

def insert (c : Context) (key value : String) : Context :=
  ⟨insertPair key value c.pairs⟩

/-- Of several values for a key the last one counts. -/
def ofList (pairs : List (String × String)) : Context :=
  pairs.foldl (fun c (k, v) => c.insert k v) {}

def isEmpty (c : Context) : Bool :=
  c.pairs.isEmpty

end Context

structure Event where
  /-- Seconds since the start of 1970. -/
  time : Int := 0
  level : Level
  code : String
  message : String
  span : Option Span := none
  context : Context := {}
deriving DecidableEq, Repr

namespace Event

/-- An event with its message cut to what is kept. -/
def of (level : Level) (code message : String) : Event where
  level := level
  code := code
  message := String.ofList (Text.abridge Limits.messageLength message.toList)

def error (code message : String) : Event := of .error code message

def warning (message : String) : Event := of .warning "W000" message

/-- A warning that carries a code of its own. -/
def warningUnder (code message : String) : Event := of .warning code message

/-- An event that carries a code for what went well. -/
def success (code message : String) : Event := of .info code message

def info (message : String) : Event := of .info "I000" message

def debug (message : String) : Event := of .debug "D000" message

def withSpan (e : Event) (span : Span) : Event :=
  { e with span := some span }

def withContext (e : Event) (key value : String) : Event :=
  { e with context := e.context.insert key value }

def isError (e : Event) : Bool := e.level == .error

def isInfo (e : Event) : Bool := e.level == .info

/-- What is known about the event's code. -/
def entry (e : Event) : Code.Entry := .ofId e.code

/-- The event on a line for people. -/
def line (e : Event) : String :=
  let place := match e.span with
    | some span => s!" at {span.start.text}"
    | none => ""
  s!"[{e.level.name}] {e.code} - {e.message}{place}"

/-! The members of objects stand in the order of their names. -/

/-- The members that tell what is known about a code. -/
def metadata (entry : Code.Entry) : List (String × Json.Value) :=
  [("description", .string entry.description),
   ("recommended_action", .string entry.action),
   ("recoverable", .bool entry.recoverable)]

/-- The members that tell where a span lies. -/
def place (span : Span) : List (String × Json.Value) :=
  [("end_column", .ofNat span.stop.column), ("end_line", .ofNat span.stop.line),
   ("start_column", .ofNat span.start.column), ("start_line", .ofNat span.start.line)]

def details (context : Context) : List (String × Json.Value) :=
  context.pairs.map fun (k, v) => (k, .string v)

/-- The members that tell of an event. Times before 1970 are taken for its start. -/
def members (e : Event) : List (String × Json.Value) :=
  [("category", .string e.entry.category), ("code", .string e.code)]
  ++ (if e.context.isEmpty then [] else [("context", .object (details e.context))])
  ++ (if e.isError then [("error_metadata", .object (metadata e.entry))] else [])
  ++ [("level", .string e.level.name), ("message", .string e.message),
      ("severity", .string e.entry.severity.name)]
  ++ (match e.span with
    | some span => [("span", .object (place span))]
    | none => [])
  ++ [("timestamp", .ofNat e.time.toNat)]

/-- The event for programs. -/
def toJson (e : Event) : Json.Value :=
  .object e.members

/-- The event as one line of JSON. -/
def jsonLine (e : Event) : String :=
  e.toJson.compact

end Event
end ExprCheck
