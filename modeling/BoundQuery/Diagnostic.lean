import BoundQuery.Fault

/-!
# Diagnostics

A diagnostic is a fault prepared for a reader: code, message, the place in the fragment and advice.
`Fault.diagnostic` chooses its words; a numbered placeholder out of sequence names the numbers that
would be accepted. `Diagnostic.render` lays it out for a terminal, with or without colours.
-/

namespace BoundQuery

/-- The colours of terminal output. -/
inductive Paint where
  | boldRed
  | boldGreen
  | green
  | cyan

namespace Paint

/-- The parameters of the escape sequence that starts a colour. -/
def parameters : Paint → String
  | .boldRed => "1;31"
  | .boldGreen => "1;32"
  | .green => "32"
  | .cyan => "36"

/-- A text in a colour, or plain where colours are off. -/
def apply (paint : Paint) (colors : Bool) (text : String) : String :=
  if colors then "\x1b[" ++ paint.parameters ++ "m" ++ text ++ "\x1b[0m" else text

end Paint

/-- A fault prepared for a reader. -/
structure Diagnostic where
  code : Code
  message : String
  span : Option Span
  help : Option String
  deriving DecidableEq

namespace Diagnostic

/-- A diagnostic with the standing advice of its code. -/
def ofCode (code : Code) (message : String) : Diagnostic :=
  ⟨code, message, none, code.advice?⟩

def withSpan (diagnostic : Diagnostic) (span : Span) : Diagnostic :=
  { diagnostic with span := some span }

def withHelp (diagnostic : Diagnostic) (help : String) : Diagnostic :=
  { diagnostic with help := some help }

/-- One line without colours. -/
def text (diagnostic : Diagnostic) : String :=
  "error: " ++ diagnostic.code.text ++ " - " ++ diagnostic.message ++
    match diagnostic.span with
    | some span => " at " ++ span.describe
    | none => ""

/-- The layout for a terminal: the message, the place, and the advice on a line of its own. -/
def render (diagnostic : Diagnostic) (colors : Bool) : String :=
  let head := Paint.boldRed.apply colors "error" ++ "[" ++ diagnostic.code.text ++ "]: " ++
    diagnostic.message
  let place := match diagnostic.span with
    | some span => " " ++ Paint.cyan.apply colors ("at " ++ span.describe)
    | none => ""
  let advice := match diagnostic.help with
    | some help => "\n  " ++ Paint.green.apply colors "help:" ++ " " ++ help
    | none => ""
  head ++ place ++ advice

end Diagnostic

namespace Fault

/-- Which numbers a placeholder may carry when `expected` is the next one. -/
def sequenceAdvice (expected : Nat) : String :=
  if expected ≤ 1 then "use `?` or `?1` for the first parameter"
  else "use `?` or `?" ++ toString expected ++ "` for the next parameter, or `?1`..`?" ++
    toString (expected - 1) ++ "` to reuse a bound one"

/-- The diagnostic of a fault. -/
def diagnostic (fault : Fault) : Diagnostic :=
  match fault with
  | .conflict name existing incoming =>
      (Diagnostic.ofCode fault.code
        ("parameter \"" ++ name ++ "\" bound to " ++ existing.describe ++ " and " ++
          incoming.describe)).withHelp
        ("give one comparison its own name, e.g. .named(\"" ++ name ++ "_2\")")
  | .outOfSequence fragment expected _ span =>
      ((Diagnostic.ofCode fault.code
        (sequenceText ++ ": `" ++ span.slice fragment ++ "` in `" ++ fragment ++ "`")).withSpan
        span).withHelp (sequenceAdvice expected)
  | _ => Diagnostic.ofCode fault.code fault.explain

end Fault

end BoundQuery
