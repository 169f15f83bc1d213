import BoundQuery.Diagnostic
import BoundQuery.Json.Decode

/-!
# Failures

A failure is what a command reports: a cause, and around it the lines that say what was being done.
A fault among the causes is shown as a diagnostic under the outermost line; any other failure is its
lines in a row. The exit code tells faults of the settings from faults of the request, and both from
everything else.
-/

namespace BoundQuery

/-- What lies at the bottom of a failure. -/
inductive Cause where
  | fault (fault : Fault)
  | refusal (refusal : Refusal)
  | other (message : String)

namespace Cause

/-- The line of a cause; a malformed document has none. -/
def message? : Cause → Option String
  | .fault reason => some reason.message
  | .refusal why => why.message?
  | .other text => some text

end Cause

/-- A cause and the lines around it, the outermost first. -/
structure Failure where
  contexts : List String
  cause : Cause

namespace Failure

def ofFault (fault : Fault) : Failure := ⟨[], .fault fault⟩

def ofMessage (message : String) : Failure := ⟨[], .other message⟩

/-- Puts a line around a failure. -/
def within (context : String) (failure : Failure) : Failure :=
  { failure with contexts := context :: failure.contexts }

/-- The lines of a failure, the outermost first. -/
def lines (failure : Failure) : List String :=
  failure.contexts ++ failure.cause.message?.toList

/-- The outermost line. -/
def message (failure : Failure) : String := failure.lines.headD ""

def fault? (failure : Failure) : Option Fault :=
  match failure.cause with
  | .fault reason => some reason
  | _ => none

/-- How a failure is shown in a terminal. -/
def render (failure : Failure) (colors : Bool) : String :=
  Paint.boldRed.apply colors "Error:" ++ " " ++
    match failure.fault? with
    | some fault => failure.message ++ "\n" ++ fault.diagnostic.render colors
    | none => ": ".intercalate failure.lines

/-- The exit code: 3 for a fault of the settings, 2 for a fault of the request, 1 for anything
else. -/
def exitCode (failure : Failure) : Nat :=
  match failure.fault? with
  | some fault =>
      if fault.code.isSettings then 3
      else if fault.code.isTree || fault.code.isBinding || fault.code.isPlaceholder then 2
      else 1
  | none => 1

/-- A rule's answer as a command's answer. -/
def lift {α : Type} : Except Fault α → Except Failure α
  | .ok value => .ok value
  | .error fault => .error (ofFault fault)

end Failure

end BoundQuery
