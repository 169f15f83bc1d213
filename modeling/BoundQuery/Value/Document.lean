import BoundQuery.Json.Decode
import BoundQuery.Value

/-!
# Values as documents

A value is written as an object whose one key names its kind, and null as the bare name `null`.
Decimals are written as strings and read from strings and numbers. Bindings are an object from names
to values; a repeated name keeps its place and takes the last value.
-/

namespace BoundQuery

def Decimal.encode (d : Decimal) : Json := .string d.text

/-- A decimal from a string or a number. -/
def Decimal.decode : Json → Decoded Decimal
  | .string s => Json.required (Decimal.ofText? s)
  | .number spelling => Json.required (Numeral.ofSpelling spelling.toList).decimal?
  | _ => Json.refuse

def Date.encode (date : Date) : Json := .string date.text

def Date.decode (json : Json) : Decoded Date := do Json.required (Date.ofText? (← json.asString))

def DateTime.encode (moment : DateTime) : Json := .string (moment.textWith 'T')

def DateTime.decode (json : Json) : Decoded DateTime := do
  Json.required (DateTime.ofText? (← json.asString))

namespace Value

mutual

def encode : Value → Json
  | .null => .string "null"
  | .boolean b => .record [("boolean", .boolean b)]
  | .integer n => .record [("integer", .ofInt n.toInt)]
  | .decimal d => .record [("decimal", d.encode)]
  | .string s => .record [("string", .string s)]
  | .date d => .record [("date", d.encode)]
  | .dateTime moment => .record [("date_time", moment.encode)]
  | .list items => .record [("list", .array (encodeItems items))]

def encodeItems : List Value → List Json
  | [] => []
  | item :: rest => item.encode :: encodeItems rest

end

/-- The one value that carries nothing. -/
def named (name : String) : Option Value :=
  match name with
  | "null" => some .null
  | _ => none

/-- What the kinds of values that hold no other values carry. -/
def simple (kind : String) : Option (Json → Decoded Value) :=
  match kind with
  | "boolean" => some fun payload => .boolean <$> payload.asBool
  | "integer" => some fun payload => .integer <$> payload.asInt64
  | "decimal" => some fun payload => .decimal <$> Decimal.decode payload
  | "string" => some fun payload => .string <$> payload.asString
  | "date" => some fun payload => .date <$> Date.decode payload
  | "date_time" => some fun payload => .dateTime <$> DateTime.decode payload
  | _ => none

mutual

def decode : Decoder Value
  | 0, json => json.bare named
  | budget + 1, json => json.variant named fun kind =>
      match kind with
      | "list" => some fun payload => .list <$> decodeItems budget payload
      | _ => simple kind

def decodeItems : Decoder (List Value)
  | 0, _ => Json.refuse
  | budget + 1, json => json.each (decode budget)

end

end Value

namespace Dict

def encode {α : Type} (one : α → Json) (dict : Dict α) : Json :=
  .record (dict.entries.map fun (key, value) => (key, one value))

/-- Decodes an object whose keys are free. -/
def decode {α : Type} (one : Decoder α) : Decoder (Dict α) := fun budget json =>
  Json.enter budget fun budget => ofList <$> json.eachMember (one budget)

end Dict

end BoundQuery
