import ExprCheck.Check
import ExprCheck.Moment
import ExprCheck.Time.Instant

/-!
Reports: what is told about a check.
-/

namespace ExprCheck

inductive Verdict where
  | accepted
  | rejected
deriving DecidableEq, Repr

namespace Verdict

def message : Verdict → String
  | accepted => "Syntax OK!"
  | rejected => "Bad syntax!"

def label : Verdict → String
  | accepted => "accepted"
  | rejected => "rejected"

def ofLabel? (s : String) : Option Verdict :=
  [accepted, rejected].find? (·.label == s)

end Verdict

def Pass.verdict (p : Pass) : Verdict :=
  match p.outcome with
  | .ok _ => .accepted
  | .error _ => .rejected

/-- What is wrong with a text that was rejected. -/
structure Diagnosis where
  code : String
  message : String
  description : String
  span : Option Span
  expected : List Category
  found : Option Category
deriving DecidableEq, Repr

namespace Diagnosis

def ofRejection (r : Rejection) : Diagnosis where
  code := r.code.id
  message := r.message
  description := r.code.entry.description
  span := r.span?
  expected := (r.fault?.map (·.expected)).getD []
  found := r.fault?.map (·.found)

/-- The diagnosis for people, under the line that it is about if there is one. -/
def render (d : Diagnosis) (source : String) : String :=
  match d.span with
  | some span =>
    Excerpt.render source.toList span s!"[{d.code}] {d.description}" ++ s!"  = {d.message}\n"
  | none => s!"[{d.code}] {d.message}\n"

end Diagnosis

structure Report where
  input : String
  verdict : Verdict
  message : String
  error : Option Diagnosis
  tokenCount : Nat
  tally : Option Tally
  milliseconds : Float
  checkedAt : Instant

namespace Report

/-- The report on a check. Only for an accepted text it says how long it took. -/
def ofPass (moment : Moment) (text : String) (p : Pass) : Report where
  input := text
  verdict := p.verdict
  message := p.verdict.message
  error := match p.outcome with
    | .ok _ => none
    | .error r => some (.ofRejection r)
  tokenCount := p.tokenCount
  tally := match p.outcome with
    | .ok a => some a.tally
    | .error _ => none
  milliseconds := match p.outcome with
    | .ok _ => moment.elapsed.milliseconds
    | .error _ => 0.0
  checkedAt := .ofNanos moment.nanos

def isAccepted (r : Report) : Bool :=
  r.verdict == .accepted

end Report

/-- What is said when a check is reported. -/
def Pass.reportNotices (p : Pass) : List Notice :=
  match p.outcome with
  | .ok _ => p.notices
  | .error r => p.notices ++ [.rejected r.code]

end ExprCheck
