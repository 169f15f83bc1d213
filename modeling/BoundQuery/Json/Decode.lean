import BoundQuery.Fault
import BoundQuery.Json.Reader
import BoundQuery.Number.Numeral

/-!
# Decoding documents

A decoder turns a document into a domain value or refuses it. A refusal is either `malformed`, when
the document has the wrong shape, or `invalid`, when its shape is right and a rule of the domain is
broken. Members are decoded in the order of the document, so of two faults the first one counts.

Structures are objects, or arrays that give the fields in their order; unknown members must only be
JSON, a repeated member is refused. Alternatives are objects with one member, or a bare name where
nothing is carried. At most `maxDepth` arrays and objects may nest among what is decoded: a decoder
is given how many more it may enter, and that number also bounds the recursion of decoders.
-/

namespace BoundQuery

/-- Why a document is refused. -/
inductive Refusal where
  | malformed
  | invalid (fault : Fault)

/-- The line about the broken rule, if one is broken. -/
def Refusal.message? : Refusal → Option String
  | .malformed => none
  | .invalid fault => some fault.message

/-- What a decoder gives: a value, or why the document is refused. -/
abbrev Decoded (α : Type) := Except Refusal α

/-- A decoder that may enter a given number of nested arrays and objects. -/
abbrev Decoder (α : Type) := Nat → Json → Decoded α

namespace Json

/-- How deep decoded arrays and objects may nest. -/
def maxDepth : Nat := 127

def refuse {α : Type} : Decoded α := .error .malformed

/-- A domain rule's answer as a decoder's answer. -/
def checked {α : Type} : Except Fault α → Decoded α
  | .ok value => .ok value
  | .error fault => .error (.invalid fault)

/-- Enters an array or object. -/
def enter {α : Type} (budget : Nat) (inside : Nat → Decoded α) : Decoded α :=
  match budget with
  | 0 => refuse
  | budget + 1 => inside budget

def asString : Json → Decoded String
  | .string s => .ok s
  | _ => refuse

def asBool : Json → Decoded Bool
  | .boolean b => .ok b
  | _ => refuse

/-- An integer from `low` up to, not including, `high`. -/
def asIntIn (low high : Int) : Json → Decoded Int
  | .number spelling =>
      match (Numeral.ofSpelling spelling.toList).integer? with
      | some n => if low ≤ n && n < high then .ok n else refuse
      | none => refuse
  | _ => refuse

/-- A natural number of some bits. -/
def asNatOf (bits : Nat) (json : Json) : Decoded Nat := do
  return (← json.asIntIn 0 (twoTo bits)).toNat

/-- An integer of 64 bits with its sign. -/
def asInt64 (json : Json) : Decoded Int64 := do
  return Int64.ofInt (← json.asIntIn (-(twoTo 63)) (twoTo 63))

/-- Null, or something to decode. -/
def asOptional {α : Type} (decode : Json → Decoded α) : Json → Decoded (Option α)
  | .null => .ok none
  | json => some <$> decode json

/-- The items of an array, decoded one after the other. -/
def each {α : Type} (decode : Json → Decoded α) : Json → Decoded (List α)
  | .array items => items.mapM decode
  | _ => refuse

/-- The members of an object whose keys are free, decoded one after the other. -/
def eachMember {α : Type} (decode : Json → Decoded α) : Json → Decoded (List (String × α))
  | .object members => members.mapM fun (key, value) =>
      match key with
      | some key => do return (key, ← decode value)
      | none => refuse
  | _ => refuse

/-- A bare name. -/
def bare {α : Type} (named : String → Option α) : Json → Decoded α
  | .string name =>
      match named name with
      | some value => .ok value
      | none => refuse
  | _ => refuse

/-- One of several alternatives: `named` lists those that carry nothing, `carrying` decodes what
the others carry. One that carries nothing is a bare name or stands before null. -/
def variant {α : Type} (named : String → Option α) (carrying : String → Option (Json → Decoded α)) :
    Json → Decoded α
  | .object ((some name, payload) :: rest) => do
      let value ← match named name, carrying name with
        | some value, _ =>
            match payload with
            | .null => .ok value
            | _ => refuse
        | none, some decode => decode payload
        | none, none => refuse
      if rest.isEmpty then return value else refuse
  | json => json.bare named

/-- The members of a structure with given field names: those of an object, or the items of an array
with the names in front. An array with too many items, or with fewer than `least`, has a `cut`
behind those that count. -/
def members? (names : List String) (least : Nat) : Json → Option (List (Option String × Json))
  | .object members => some members
  | .array items =>
      let paired := names.zip items |>.map fun (name, item) => (some name, item)
      if items.length < least || names.length < items.length then some (paired ++ [(none, .cut)])
      else some paired
  | _ => none

/-- Feeds the members of a structure to `read` in order. `seen` lists the fields that came. -/
def foldMembers {σ : Type} (names : List String) (read : σ → String → Json → Decoded σ)
    (seen : List String) (state : σ) : List (Option String × Json) → Decoded σ
  | [] => .ok state
  | (none, _) :: _ => refuse
  | (some key, value) :: rest =>
      if key ∈ names then
        if key ∈ seen then refuse
        else do foldMembers names read (key :: seen) (← read state key value) rest
      else if value.isIntact then foldMembers names read seen state rest
      else refuse

/-- Decodes a structure: `read` takes up one field, starting from `start`. -/
def fields {σ : Type} (names : List String) (least : Nat) (start : σ)
    (read : σ → String → Json → Decoded σ) (json : Json) : Decoded σ :=
  match json.members? names least with
  | some members => foldMembers names read [] start members
  | none => refuse

/-- A field that must be there. -/
def required {α : Type} : Option α → Decoded α
  | some value => .ok value
  | none => refuse

/-- Decodes a whole text. -/
def decodeText {α : Type} (decode : Decoder α) (text : String) : Decoded α := do
  let (json, ends) := read text
  let value ← decode maxDepth json
  if ends then return value else refuse

end Json

end BoundQuery
