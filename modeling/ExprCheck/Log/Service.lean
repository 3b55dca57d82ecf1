import ExprCheck.Log.Event
import ExprCheck.Text.Lines
import ExprCheck.Text.Terminal

/-!
Where events go. A service lets an event through by its level and hands it to
one sink, or to many behind a threshold of their own; a sink prints it or keeps
it in a memory.
-/

namespace ExprCheck

/-- A memory for the last so many things. It is kept as two stacks, so that adding
to a full window costs no more than adding to an empty one. -/
structure Window (α : Type) where
  /-- The older things, oldest first. -/
  older : List α := []
  /-- The newer things, newest first. -/
  newer : List α := []
  size : Nat := 0

namespace Window

variable {α : Type}

/-- What the window holds, oldest first. -/
def toList (w : Window α) : List α :=
  w.older ++ w.newer.reverse

/-- Forgets the oldest thing. -/
def dropOldest (w : Window α) : Window α :=
  match w.older with
  | _ :: older => { w with older := older, size := w.size - 1 }
  | [] => { older := w.newer.reverse.tail, newer := [], size := w.size - 1 }

/-- Adds a thing, in the stead of the oldest if there are `capacity` already. -/
def push (capacity : Nat) (w : Window α) (a : α) : Window α :=
  let w := if w.size < capacity then w else w.dropOldest
  { w with newer := a :: w.newer, size := w.size + 1 }

end Window

/-- Text on one of the two standard streams. -/
inductive Output where
  | out (text : String)
  | err (text : String)
deriving DecidableEq, Repr

namespace Output

/-- All that goes to the first stream. -/
def outText (outputs : List Output) : String :=
  outputs.foldl (fun acc o => match o with | out s => acc ++ s | err _ => acc) ""

/-- All that goes to the second stream. -/
def errText (outputs : List Output) : String :=
  outputs.foldl (fun acc o => match o with | out _ => acc | err s => acc ++ s) ""

end Output

/-- The name under which events are handed on as records. -/
def recordTarget : String := "sel_recognizer"

/-- A record's text: code, message, span, and the details in the order of their keys. -/
def Event.recordText (e : Event) : String :=
  let place := match e.span with
    | some span => s!" at {span.text}"
    | none => ""
  let details := String.join (e.context.pairs.map fun (k, v) => s!" {k}={v}")
  s!"{e.code} {e.message}{place}{details}"

/-- A record as it is printed: the level in five columns, and every line but the
first four columns in. Nothing in it reaches a terminal as more than text. -/
def Event.record (e : Event) : String :=
  let padding := String.ofList (List.replicate (5 - e.level.name.length) ' ')
  let text := s!"[{e.level.name}{padding} {recordTarget}] {e.recordText}"
  String.ofList (Text.Terminal.strip (Text.indentRest 4 text.toList ++ ['\n']))

inductive Sink where
  /-- Lines for people: errors and warnings on the second stream. -/
  | console (level : Level)
  /-- Lines of JSON on the second stream. -/
  | structured (level : Level)
  /-- Records on the second stream; without a threshold none. -/
  | records (threshold : Option Level)
  /-- The memory with a number. -/
  | memory (slot : Nat)
deriving DecidableEq, Repr

/-- What a sink prints of an event. -/
def Sink.print (sink : Sink) (e : Event) : List Output :=
  match sink with
  | console level =>
    if e.level ≤ level then
      if e.level ≤ .warning then [.err (e.line ++ "\n")] else [.out (e.line ++ "\n")]
    else []
  | structured level => if e.level ≤ level then [.err (e.jsonLine ++ "\n")] else []
  | records threshold => if threshold.any (e.level ≤ ·) then [.err e.record] else []
  | memory _ => []

inductive Outlet where
  | one (sink : Sink)
  | many (level : Level) (sinks : List Sink)
deriving DecidableEq, Repr

structure Service where
  outlet : Outlet
  level : Level
deriving DecidableEq, Repr

namespace Service

def wants (s : Service) (level : Level) : Bool :=
  level ≤ s.level

/-- The sinks that an event reaches, in their order. -/
def receivers (s : Service) (e : Event) : List Sink :=
  if s.wants e.level then
    match s.outlet with
    | .one sink => [sink]
    | .many level sinks => if e.level ≤ level then sinks else []
  else []

def print (s : Service) (e : Event) : List Output :=
  (s.receivers e).flatMap (·.print e)

end Service

/-- The events that a memory keeps. -/
abbrev Memory := Window Event

namespace Memory

def store (m : Memory) (e : Event) : Memory :=
  Window.push Limits.memory m e

def withCode (m : Memory) (code : String) : List Event :=
  m.toList.filter (·.code == code)

def hasError (m : Memory) (code : String) : Bool :=
  m.toList.any fun e => e.isError && e.code == code

def hasSuccess (m : Memory) (code : String) : Bool :=
  m.toList.any fun e => e.isInfo && e.code == code

end Memory

/-- The memories after a service has been given an event. -/
def Service.remember (s : Service) (e : Event) (memories : List Memory) : List Memory :=
  (s.receivers e).foldl
    (fun memories sink =>
      match sink with
      | .memory slot => memories.modify slot (·.store e)
      | _ => memories)
    memories

end ExprCheck
