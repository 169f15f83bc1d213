import BoundQuery.Entity
import BoundQuery.Failure

/-!
# Compile requests

A request is a document that describes one statement: its kind, its settings, its trees and the
arguments of the call. `Request.compile` gives the statement.
-/

namespace BoundQuery

/-- The kinds of statements that a request can ask for. -/
inductive Request.Kind where
  | condition
  | select
  | count
  | countBy
  | update
  | delete
  deriving DecidableEq, Repr

/-- A request for one statement. -/
structure Request where
  settings : Settings
  kind : Request.Kind
  condition : Option Condition
  assignments : List Assignment
  fields : Option String
  projection : Projection
  arguments : List Argument

/-- Settings from elsewhere that take the place of a request's own. -/
structure Overrides where
  aliasText : Option String
  entity : Option String
  deriving DecidableEq

namespace Request

namespace Kind

def text : Kind → String
  | .condition => "criteria"
  | .select => "select"
  | .count => "count"
  | .countBy => "counts"
  | .update => "update"
  | .delete => "delete"

def named (name : String) : Option Kind :=
  match name with
  | "criteria" => some .condition
  | "select" => some .select
  | "count" => some .count
  | "counts" => some .countBy
  | "update" => some .update
  | "delete" => some .delete
  | _ => none

def encode (kind : Kind) : Json := .string kind.text

def decode : Decoder Kind
  | 0, json => json.bare named
  | _ + 1, json => json.variant named fun _ => none

end Kind

def empty : Request := ⟨.standard, .condition, none, [], none, .entity, []⟩

def encode (request : Request) : Json :=
  .record (("config", request.settings.encode) :: ("kind", request.kind.encode) ::
    Json.optional "criteria" (request.condition.map Condition.encode) ++
    Json.unlessEmpty "assignments" (request.assignments.map Assignment.encode) ++
    Json.optional "fields" (request.fields.map .string) ++
    ("selector", request.projection.encode) ::
    Json.unlessEmpty "arguments" (Argument.encodeAll request.arguments))

/-- Takes up one field of a request's document. -/
def readField (budget : Nat) (request : Request) (key : String) (json : Json) : Decoded Request :=
  match key with
  | "config" => do return { request with settings := ← Settings.decode budget json }
  | "kind" => do return { request with kind := ← Kind.decode budget json }
  | "criteria" => do
      return { request with condition := ← json.asOptional (Condition.decode budget) }
  | "assignments" => do return { request with assignments := ← Assignment.decodeAll budget json }
  | "fields" => do return { request with fields := ← json.asOptional Json.asString }
  | "selector" => do return { request with projection := ← Projection.decode budget json }
  | "arguments" => do return { request with arguments := ← Argument.decodeAll budget json }
  | _ => Json.refuse

/-- The fields of a request's document. -/
def fieldNames : List String :=
  ["config", "kind", "criteria", "assignments", "fields", "selector", "arguments"]

def decode : Decoder Request := fun budget json =>
  Json.enter budget fun budget => json.fields fieldNames 0 empty (readField budget)

/-- The request that a text holds. -/
def ofText (text : String) : Except Failure Request :=
  match Json.decodeText decode text with
  | .ok request => .ok request
  | .error refusal => .error ⟨["Invalid compile request"], .refusal refusal⟩

/-- Replaces settings of a request. -/
def override (overrides : Overrides) (request : Request) : Request :=
  { request with settings := { request.settings with
      aliasText := overrides.aliasText.getD request.settings.aliasText
      entity := overrides.entity.or request.settings.entity } }

/-- The line around a failure to find the entity of a statement. -/
def entityContext : String :=
  "Statement requests need an entity (set \"config.entity\" or --entity)"

/-- The entity that a request's statement is about. -/
def entity (request : Request) (read : PatternReader := Pattern.search?) :
    Except Failure Entity :=
  match Entity.ofSettings request.settings read with
  | .ok entity => .ok entity
  | .error fault => .error ((Failure.ofFault fault).within entityContext)

/-- The condition and its clauses alone, without a statement's head. -/
def compileCondition (request : Request) (read : PatternReader := Pattern.search?) :
    Except Fault Query := do
  let compiled ← BoundQuery.compile (← request.settings.scope read) none request.condition
    request.arguments
  return ⟨compiled.query, compiled.parameters, compiled.paging⟩

/-- The statement that a request asks for; `read` reads the pattern of its settings. -/
def compile (request : Request) (read : PatternReader := Pattern.search?) :
    Except Failure Query :=
  let condition := request.condition
  let arguments := request.arguments
  match request.kind with
  | .condition => Failure.lift (request.compileCondition read)
  | .select => do
      Failure.lift ((← request.entity read).select request.projection condition arguments)
  | .count => do Failure.lift ((← request.entity read).count condition arguments)
  | .countBy =>
      match request.fields with
      | none => .error (.ofMessage "A counts request needs \"fields\"")
      | some fields => do
          Failure.lift ((← request.entity read).countBy fields condition arguments)
  | .update => do
      Failure.lift ((← request.entity read).update request.assignments condition arguments)
  | .delete => do Failure.lift ((← request.entity read).delete condition arguments)

end Request

end BoundQuery
