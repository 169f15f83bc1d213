import BoundQuery.Alias
import BoundQuery.Json.Decode

/-!
# Settings

The alias of a query's entity, a pattern in place of the standard rule for fields that carry the
alias, and the entity's name. They are checked when they are used, not when they are read.
-/

namespace BoundQuery

/-- The settings of a query. -/
structure Settings where
  aliasText : String
  pattern : Option String
  entity : Option String
  deriving DecidableEq

namespace Settings

def standard : Settings := ⟨Alias.standard, none, none⟩

/-- The scope of the alias. -/
def scope (settings : Settings) (read : PatternReader := Pattern.search?) : Except Fault Scope :=
  match settings.pattern with
  | some pattern => Scope.ofPattern settings.aliasText pattern read
  | none => Scope.ofAlias settings.aliasText

/-- The entity's name, which must not be blank. -/
def entityName (settings : Settings) : Except Fault Phrase :=
  match settings.entity.bind Phrase.of? with
  | some name => .ok name
  | none => .error .noEntity

def encode (settings : Settings) : Json :=
  .record (("alias", .string settings.aliasText) ::
    Json.optional "alias_pattern" (settings.pattern.map .string) ++
    Json.optional "entity" (settings.entity.map .string))

/-- Takes up one field of the settings' document. -/
def readField (settings : Settings) (key : String) (json : Json) : Decoded Settings :=
  match key with
  | "alias" => do return { settings with aliasText := ← json.asString }
  | "alias_pattern" => do return { settings with pattern := ← json.asOptional Json.asString }
  | "entity" => do return { settings with entity := ← json.asOptional Json.asString }
  | _ => Json.refuse

def decode : Decoder Settings := fun budget json =>
  Json.enter budget fun _ => json.fields ["alias", "alias_pattern", "entity"] 0 standard readField

end Settings

end BoundQuery
