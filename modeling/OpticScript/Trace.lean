import OpticScript.Log

/-!
# Traces

A trace tells which rules a parse has tried. Each event carries the path of rules that
leads to it, the innermost first; an attempt adds its rule to the path and the outcome
of the rule takes it off again (`Trace.attempt`, `Trace.success`, `Trace.failure`). An
error takes it off without an event (`Trace.abandon`).
-/

namespace OpticScript

/-- The rules that are being tried, the innermost first. -/
abbrev RulePath := List String

/-- The path from the outermost rule, with arrows between the rules. -/
def RulePath.render (path : RulePath) : String := String.intercalate "->" path.reverse

/-- Something that happened to the rule at the head of the path. -/
inductive TraceEvent where
  | attempt (path : RulePath)
  /-- The rule matched up to the token with the number `stop`. -/
  | success (path : RulePath) (stop : Nat)
  | failure (path : RulePath)
  deriving DecidableEq

/-- The event in words. -/
def TraceEvent.message : TraceEvent → String
  | attempt path => path.render ++ "?"
  | success path stop => path.render ++ " = .." ++ stop.repr ++ "!"
  | failure path => path.render ++ " not found"

/-- The event as it is told to a log. -/
def TraceEvent.toRecord (event : TraceEvent) : LogRecord :=
  { level := .trace, message := event.message }

/-- The events so far, and the rules that are being tried. -/
structure Trace where
  path : RulePath := []
  events : Array TraceEvent := #[]
  deriving DecidableEq, Inhabited

namespace Trace

def attempt (trace : Trace) (label : String) : Trace :=
  let path := label :: trace.path
  { path, events := trace.events.push (.attempt path) }

def success (trace : Trace) (stop : Nat) : Trace :=
  { path := trace.path.tail, events := trace.events.push (.success trace.path stop) }

def failure (trace : Trace) : Trace :=
  { path := trace.path.tail, events := trace.events.push (.failure trace.path) }

/-- The end of an attempt that an error cut short. -/
def abandon (trace : Trace) : Trace := { trace with path := trace.path.tail }

end Trace

end OpticScript
