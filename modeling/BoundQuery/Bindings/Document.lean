import BoundQuery.Bindings
import BoundQuery.Json.Decode

/-!
# Binding styles as documents

A style is written as its bare name.
-/

namespace BoundQuery.Style

def encode (style : Style) : Json := .string style.text

def decode : Decoder Style
  | 0, json => json.bare named?
  | _ + 1, json => json.variant named? fun _ => none

end BoundQuery.Style
