import BoundQuery.Diagnostic
import BoundQuery.Json.Decode

/-!
# Diagnostics as documents

A code is its number, a span an object of two offsets, and a diagnostic an object of four members
that are always written; a span and advice that are missing are null.
-/

namespace BoundQuery

namespace Code

def encode (code : Code) : Json := .ofNat code.number.toNat

def decode (json : Json) : Decoded Code := do return ⟨UInt16.ofNat (← json.asNatOf 16)⟩

end Code

namespace Span

def encode (span : Span) : Json := .record [("start", .ofNat span.start), ("end", .ofNat span.stop)]

/-- Takes up one offset of a span's document. -/
def readField (state : Option Nat × Option Nat) (key : String) (json : Json) :
    Decoded (Option Nat × Option Nat) :=
  match key with
  | "start" => do return (some (← json.asNatOf 64), state.2)
  | "end" => do return (state.1, some (← json.asNatOf 64))
  | _ => Json.refuse

def decode : Decoder Span := fun budget json =>
  Json.enter budget fun _ => do
    let (start, stop) ← json.fields ["start", "end"] 2 (none, none) readField
    return ⟨← Json.required start, ← Json.required stop⟩

end Span

namespace Diagnostic

def encode (diagnostic : Diagnostic) : Json :=
  .record [("code", diagnostic.code.encode), ("message", .string diagnostic.message),
    ("span", (diagnostic.span.map Span.encode).getD .null), ("help", .ofString? diagnostic.help)]

/-- The parts of a diagnostic's document. -/
structure Parts where
  code : Option Code
  message : Option String
  span : Option Span
  help : Option String

/-- Takes up one part of a diagnostic's document. -/
def Parts.readField (budget : Nat) (parts : Parts) (key : String) (json : Json) : Decoded Parts :=
  match key with
  | "code" => do return { parts with code := some (← Code.decode json) }
  | "message" => do return { parts with message := some (← json.asString) }
  | "span" => do return { parts with span := ← json.asOptional (Span.decode budget) }
  | "help" => do return { parts with help := ← json.asOptional Json.asString }
  | _ => Json.refuse

def decode : Decoder Diagnostic := fun budget json =>
  Json.enter budget fun budget => do
    let parts ← json.fields ["code", "message", "span", "help"] 4 ⟨none, none, none, none⟩
      (Parts.readField budget)
    return ⟨← Json.required parts.code, ← Json.required parts.message, parts.span, parts.help⟩

end Diagnostic

end BoundQuery
