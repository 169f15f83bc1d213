import BoundQuery.Tree.Basic
import BoundQuery.Value.Document

/-!
# Trees as documents

Encoders and decoders of conditions, clauses, arguments and what they hold. A decoder reads the
parts of a structure and then hands them to the same constructors that callers use, so a document
cannot describe a tree that breaks their rules.
-/

namespace BoundQuery

namespace Field

def encode (field : Field) : Json := .string field.text

def decode (json : Json) : Decoded Field := do Json.checked (ofText (← json.asString))

end Field

namespace Fields

def encode (fields : Fields) : Json := .array (fields.toList.map Field.encode)

def decode : Decoder Fields := fun budget json =>
  Json.enter budget fun _ => do Json.checked (ofList (← json.each Field.decode))

end Fields

namespace Aggregate

def encode (aggregate : Aggregate) : Json :=
  .record [("fields", aggregate.fields.encode), ("with", aggregate.outputs.encode .string)]

/-- Takes up one field of an aggregate's document. -/
def readField (budget : Nat) (state : Option Fields × Dict String) (key : String) (json : Json) :
    Decoded (Option Fields × Dict String) :=
  match key with
  | "fields" => do return (some (← Fields.decode budget json), state.2)
  | "with" => do return (state.1, ← Dict.decode (fun _ json => json.asString) budget json)
  | _ => Json.refuse

def decode : Decoder Aggregate := fun budget json =>
  Json.enter budget fun budget => do
    let (fields, outputs) ←
      json.fields ["fields", "with"] 1 (none, Dict.empty) (readField budget)
    return ⟨← Json.required fields, outputs⟩

end Aggregate

namespace Mark

def encode : Mark → Json
  | .skip => .string "skip"
  | .noValue => .string "no_value"

def named (name : String) : Option Mark :=
  match name with
  | "skip" => some .skip
  | "no_value" => some .noValue
  | _ => none

def decode : Decoder Mark
  | 0, json => json.bare named
  | _ + 1, json => json.variant named fun _ => none

end Mark

namespace Paging

def encode : Paging → Json
  | .offset n => .record [("offset", .ofNat n.toNat)]
  | .limit n => .record [("limit", .ofNat n.toNat)]

def decode : Decoder Paging := fun budget json =>
  Json.enter budget fun _ => json.variant (fun _ => none) fun kind =>
    match kind with
    | "offset" => some fun payload => do return .offset (UInt64.ofNat (← payload.asNatOf 64))
    | "limit" => some fun payload => do return .limit (UInt64.ofNat (← payload.asNatOf 64))
    | _ => none

end Paging

/-- The members that give an operator and a name around the right side of a comparison. -/
def Comparison.encodeWith (field : Field) (operator : Option Phrase) (operand : Json)
    (name : Option Phrase) : Json :=
  .record (("field", field.encode) :: Json.optional "op" (operator.map (.string ·.text)) ++
    ("value", operand) :: Json.optional "name" (name.map (.string ·.text)))

/-- An item of a group: a condition, with its conjunction unless it is the first. -/
def Group.encodeItem (conjunction : Option Phrase) (child : Json) : Json :=
  .record (Json.optional "conjunction" (conjunction.map (.string ·.text)) ++ [("criteria", child)])

mutual

def Comparison.encode : Comparison → Json
  | .bare field mark =>
      Comparison.encodeWith field none (.record [("sentinel", mark.encode)]) none
  | .isNull field operator name => Comparison.encodeWith field operator (.string "null") name
  | .scalar field operator value name =>
      Comparison.encodeWith field operator (.record [("scalar", value.value.encode)]) name
  | .nested field operator clause name =>
      Comparison.encodeWith field operator (.record [("nested", clause.encode)]) name

def Group.encode : Group → Json
  | .empty negated => .record [("not", .boolean negated), ("items", .array [])]
  | .joined negated first rest =>
      .record [("not", .boolean negated),
        ("items", .array (Group.encodeItem none first.encode :: Group.encodeRest rest))]

def Group.encodeRest : List (Phrase × Condition) → List Json
  | [] => []
  | (conjunction, child) :: rest =>
      Group.encodeItem (some conjunction) child.encode :: Group.encodeRest rest

def Condition.encode : Condition → Json
  | .comparison comparison => .record [("comparison", comparison.encode)]
  | .group group => .record [("composite", group.encode)]
  | .sub snippet => .record [("sub", snippet.encode)]
  | .native snippet => .record [("native", snippet.encode)]

def Snippet.encode : Snippet → Json
  | .mk text arguments =>
      .record (("text", .string text) :: Json.unlessEmpty "args" (Argument.encodeAll arguments))

def Argument.encode : Argument → Json
  | .value value => .record [("value", value.encode)]
  | .mapping bindings => .record [("map", bindings.encode Value.encode)]
  | .clause clause => .record [("statement", clause.encode)]
  | .paging paging => .record [("inject", paging.encode)]

def Argument.encodeAll : List Argument → List Json
  | [] => []
  | argument :: rest => argument.encode :: Argument.encodeAll rest

def Having.encode : Having → Json
  | .condition condition => .record [("criteria", condition.encode)]
  | .text snippet => .record [("text", snippet.encode)]

def Clause.encode : Clause → Json
  | .condition condition => .record [("criteria", condition.encode)]
  | .groupBy fields => .record [("group_by", fields.encode)]
  | .orderBy fields => .record [("order_by", fields.encode)]
  | .having having => .record [("having", having.encode)]
  | .sub snippet => .record [("sub", snippet.encode)]
  | .native snippet => .record [("native", snippet.encode)]
  | .aggregate aggregate => .record [("aggregate", aggregate.encode)]

end

def Operand.encode : Operand → Json
  | .scalar value => .record [("scalar", value.encode)]
  | .null => .string "null"
  | .nested clause => .record [("nested", clause.encode)]
  | .marked mark => .record [("sentinel", mark.encode)]

/-- The one right side that carries nothing. -/
def Operand.named (name : String) : Option Operand :=
  match name with
  | "null" => some .null
  | _ => none

/-- The parts of a comparison's document. -/
structure Comparison.Parts where
  field : Option String
  operator : Option String
  operand : Operand
  name : Option String

namespace Comparison.Parts

/-- The parts where no field is given. -/
def start : Parts := ⟨none, none, .null, none⟩

/-- Takes up one field of a comparison's document. -/
def readField (operand : Json → Decoded Operand) (parts : Parts) (key : String) (json : Json) :
    Decoded Parts :=
  match key with
  | "field" => do return { parts with field := some (← json.asString) }
  | "op" => do return { parts with operator := ← json.asOptional Json.asString }
  | "value" => do return { parts with operand := ← operand json }
  | "name" => do return { parts with name := ← json.asOptional Json.asString }
  | _ => Json.refuse

/-- The comparison that the parts describe. -/
def build (parts : Parts) : Decoded Comparison := do
  Json.checked (Comparison.ofParts (← Json.required parts.field) parts.operator parts.operand
    parts.name)

end Comparison.Parts

/-- An item of a group's document: a conjunction and a condition, both of which may be missing. -/
abbrev Group.Item := Option String × Option Condition

/-- Takes up one field of an item's document. -/
def Group.readItemField (condition : Json → Decoded Condition) (item : Group.Item) (key : String)
    (json : Json) : Decoded Group.Item :=
  match key with
  | "conjunction" => do return (← json.asOptional Json.asString, item.2)
  | "criteria" => do return (item.1, ← json.asOptional condition)
  | _ => Json.refuse

/-- Takes up one field of a group's document. -/
def Group.readField (items : Json → Decoded (List Group.Item)) (state : Bool × List Group.Item)
    (key : String) (json : Json) : Decoded (Bool × List Group.Item) :=
  match key with
  | "not" => do return (← json.asBool, state.2)
  | "items" => do return (state.1, ← items json)
  | _ => Json.refuse

/-- Appends the items of a document one after the other. -/
def Group.appendItems (group : Group) (items : List Group.Item) : Except Fault Group :=
  items.foldlM (fun group item => group.append? (item.1.getD "") item.2) group

/-- Takes up one field of a snippet's document. -/
def Snippet.readField (arguments : Json → Decoded (List Argument))
    (state : Option String × List Argument) (key : String) (json : Json) :
    Decoded (Option String × List Argument) :=
  match key with
  | "text" => do return (some (← json.asString), state.2)
  | "args" => do return (state.1, ← arguments json)
  | _ => Json.refuse

mutual

def Operand.decode : Decoder Operand
  | 0, json => json.bare Operand.named
  | budget + 1, json => json.variant Operand.named fun kind =>
      match kind with
      | "scalar" => some fun payload => .scalar <$> Value.decode budget payload
      | "nested" => some fun payload => .nested <$> Clause.decode budget payload
      | "sentinel" => some fun payload => .marked <$> Mark.decode budget payload
      | _ => none

def Comparison.decode : Decoder Comparison
  | 0, _ => Json.refuse
  | budget + 1, json => do
      let parts ← json.fields ["field", "op", "value", "name"] 1 Comparison.Parts.start
        (Comparison.Parts.readField (Operand.decode budget))
      parts.build

def Group.decodeItem : Decoder Group.Item
  | 0, _ => Json.refuse
  | budget + 1, json =>
      json.fields ["conjunction", "criteria"] 2 (none, none)
        (Group.readItemField (Condition.decode budget))

def Group.decodeItems : Decoder (List Group.Item)
  | 0, _ => Json.refuse
  | budget + 1, json => json.each (Group.decodeItem budget)

def Group.decode : Decoder Group
  | 0, _ => Json.refuse
  | budget + 1, json => do
      let (negated, items) ← json.fields ["not", "items"] 0 (false, [])
        (Group.readField (Group.decodeItems budget))
      Json.checked ((Group.empty negated).appendItems items)

def Condition.decode : Decoder Condition
  | 0, _ => Json.refuse
  | budget + 1, json => json.variant (fun _ => none) fun kind =>
      match kind with
      | "comparison" => some fun payload => .comparison <$> Comparison.decode budget payload
      | "composite" => some fun payload => .group <$> Group.decode budget payload
      | "sub" => some fun payload => .sub <$> Snippet.decode budget payload
      | "native" => some fun payload => .native <$> Snippet.decode budget payload
      | _ => none

def Snippet.decode : Decoder Snippet
  | 0, _ => Json.refuse
  | budget + 1, json => do
      let (text, arguments) ← json.fields ["text", "args"] 1 (none, [])
        (Snippet.readField (Argument.decodeAll budget))
      return .mk (← Json.required text) arguments

def Argument.decode : Decoder Argument
  | 0, _ => Json.refuse
  | budget + 1, json => json.variant (fun _ => none) fun kind =>
      match kind with
      | "value" => some fun payload => .value <$> Value.decode budget payload
      | "map" => some fun payload => .mapping <$> Dict.decode Value.decode budget payload
      | "statement" => some fun payload => .clause <$> Clause.decode budget payload
      | "inject" => some fun payload => .paging <$> Paging.decode budget payload
      | _ => none

def Argument.decodeAll : Decoder (List Argument)
  | 0, _ => Json.refuse
  | budget + 1, json => json.each (Argument.decode budget)

def Having.decode : Decoder Having
  | 0, _ => Json.refuse
  | budget + 1, json => json.variant (fun _ => none) fun kind =>
      match kind with
      | "criteria" => some fun payload => .condition <$> Condition.decode budget payload
      | "text" => some fun payload => .text <$> Snippet.decode budget payload
      | _ => none

def Clause.decode : Decoder Clause
  | 0, _ => Json.refuse
  | budget + 1, json => json.variant (fun _ => none) fun kind =>
      match kind with
      | "criteria" => some fun payload => .condition <$> Condition.decode budget payload
      | "group_by" => some fun payload => .groupBy <$> Fields.decode budget payload
      | "order_by" => some fun payload => .orderBy <$> Fields.decode budget payload
      | "having" => some fun payload => .having <$> Having.decode budget payload
      | "sub" => some fun payload => .sub <$> Snippet.decode budget payload
      | "native" => some fun payload => .native <$> Snippet.decode budget payload
      | "aggregate" => some fun payload => .aggregate <$> Aggregate.decode budget payload
      | _ => none

end

namespace Assignment

def encode (assignment : Assignment) : Json :=
  .record [("field", assignment.field.encode), ("value", assignment.value.encode)]

/-- Takes up one field of an assignment's document. -/
def readField (budget : Nat) (state : Option Field × Value) (key : String) (json : Json) :
    Decoded (Option Field × Value) :=
  match key with
  | "field" => do return (some (← Field.decode json), state.2)
  | "value" => do return (state.1, ← Value.decode budget json)
  | _ => Json.refuse

def decode : Decoder Assignment := fun budget json =>
  Json.enter budget fun budget => do
    let (field, value) ← json.fields ["field", "value"] 1 (none, .null) (readField budget)
    return ⟨← Json.required field, value⟩

def decodeAll : Decoder (List Assignment) := fun budget json =>
  Json.enter budget fun budget => json.each (decode budget)

/-- Assignments from fields and values; the first blank field is the fault. -/
def ofPairs (pairs : List (String × Value)) : Except Fault (List Assignment) :=
  pairs.mapM fun (field, value) => do return ⟨← Field.ofText field, value⟩

end Assignment

namespace Projection

def encode : Projection → Json
  | .entity => .string "entity"
  | .expression text => .record [("expression", .string text)]
  | .aggregate summary => .record [("aggregate", summary.encode)]

/-- The one projection that carries nothing. -/
def named (name : String) : Option Projection :=
  match name with
  | "entity" => some .entity
  | _ => none

def decode : Decoder Projection
  | 0, json => json.bare named
  | budget + 1, json => json.variant named fun kind =>
      match kind with
      | "expression" => some fun payload => .expression <$> payload.asString
      | "aggregate" => some fun payload => .aggregate <$> Aggregate.decode budget payload
      | _ => none

end Projection

end BoundQuery
