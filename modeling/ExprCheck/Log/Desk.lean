import ExprCheck.Log.Service
import ExprCheck.Notice.Event
import ExprCheck.Settings.Environment

/-!
The log desk of a process. It has at most one service, and settings that are
fixed as soon as anybody asks for them; until a service is installed notices are
dropped.
-/

namespace ExprCheck

structure Desk where
  environment : Environment
  settings : Option LogSettings := none
  service : Option Service := none

namespace Desk

/-- Why something is not installed. -/
inductive Refusal where
  | settingsFixed
  | serviceInstalled
deriving DecidableEq, Repr

def Refusal.message : Refusal → String
  | settingsFixed => "Runtime logging preferences already initialized"
  | serviceInstalled => "Global logger already initialized"

/-- The settings, which from now on stay as they are. -/
def settle (d : Desk) : LogSettings × Desk :=
  let settings := d.settings.getD (Settings.resolve d.environment {}).log
  (settings, { d with settings := some settings })

def installSettings (d : Desk) (settings : LogSettings) : Except Refusal Desk :=
  match d.settings with
  | some _ => .error .settingsFixed
  | none => .ok { d with settings := some settings }

def installService (d : Desk) (service : Service) : Except Refusal Desk :=
  match d.service with
  | some _ => .error .serviceInstalled
  | none => .ok { d with service := some service }

/-- The service that settings ask for. -/
def configuredService (settings : LogSettings) : Service where
  level := settings.level
  outlet :=
    if settings.console = false then .many settings.level []
    else if settings.structured then .one (.structured settings.level)
    else .one (.console settings.level)

/-- Whether debug events are wanted. Only a service that would take them asks
for the settings. -/
def debugEnabled (d : Desk) : Bool × Desk :=
  if d.service.any (·.wants .debug) then
    let (settings, d) := d.settle
    (settings.level == .debug, d)
  else (false, d)

/-- Whether a notice is passed on: one for debugging if such are wanted, and one
about time if the settings ask for it. -/
def admits (d : Desk) (n : Notice) : Bool × Desk :=
  match n with
  | .timing _ =>
    let (settings, d) := d.settle
    (settings.timing, d)
  | _ => if n.level = .debug then d.debugEnabled else (true, d)

/-- The event for which a notice is handed to the service, if it is. -/
def post (d : Desk) (moment : Moment) (n : Notice) : Option Event × Desk :=
  let (admitted, d) := d.admits n
  (if admitted ∧ d.service.isSome then some (n.event moment) else none, d)

/-- The events for which notices are handed to the service. -/
def postAll (d : Desk) (moment : Moment) (ns : List Notice) : List Event × Desk :=
  let (events, d) := ns.foldl
    (fun (events, d) n =>
      let (event, d) := d.post moment n
      (event.toList ++ events, d))
    ([], d)
  (events.reverse, d)

/-- What the service prints of an event. -/
def print (d : Desk) (e : Event) : List Output :=
  match d.service with
  | some service => service.print e
  | none => []

def printAll (d : Desk) (es : List Event) : List Output :=
  es.flatMap d.print

/-- A message for debugging, if such are wanted. -/
def debug (d : Desk) (message : String) : List Output × Desk :=
  let (enabled, d) := d.debugEnabled
  (if enabled then d.print (.debug message) else [], d)

/-- A message about how long something took, if the settings ask for it. -/
def timing (d : Desk) (code message : String) (elapsed : Duration) : List Output × Desk :=
  let (settings, d) := d.settle
  let event := (Event.success code message).withContext "duration_ms"
    (Number.plain elapsed.milliseconds)
  (if settings.timing then d.print event else [], d)

/-- Installs the service that the settings ask for. The settings are fixed even
if there is a service already. -/
def start (d : Desk) (moment : Moment) : Except Refusal (List Output) × Desk :=
  let (settings, d) := d.settle
  match d.installService (configuredService settings) with
  | .error refusal => (.error refusal, d)
  | .ok d => (.ok (d.print (Notice.serviceReady.event moment)), d)

end Desk
end ExprCheck
