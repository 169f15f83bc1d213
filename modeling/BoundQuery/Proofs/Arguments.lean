import BoundQuery.Compile

/-!
# The arguments of a call

Sorting the arguments of a call keeps the order of the plain values, of the clauses and of the
settings; it fails exactly when a mapping stands behind the first place, and says at which.
-/

namespace BoundQuery

namespace Argument

/-- The plain value that an argument is. -/
def plain? : Argument → Option Value
  | .value plain => some plain
  | _ => none

/-- The clause that an argument is. -/
def clause? : Argument → Option Clause
  | .clause part => some part
  | _ => none

/-- The mapping that an argument is. -/
def mapping? : Argument → Option (Dict Value)
  | .mapping more => some more
  | _ => none

/-- The setting that an argument is. -/
def paging? : Argument → Option Paging
  | .paging setting => some setting
  | _ => none

end Argument

namespace Trailing

/-- Arguments sorted by what they are, with the mapping in front. -/
def sorted (mapping : Option (Dict Value)) (arguments : List Argument) : Trailing :=
  ⟨mapping, arguments.filterMap Argument.plain?, arguments.filterMap Argument.clause?,
    arguments.filterMap Argument.paging?⟩

/-- The place of the first mapping, the first argument being at `place`. -/
def mappingPlace? (place : Nat) : List Argument → Option Nat
  | [] => none
  | argument :: rest =>
      match argument.mapping? with
      | some _ => some place
      | none => mappingPlace? (place + 1) rest

/-- Arguments with a mapping among them are not sorted, others keep their order. -/
theorem sort_eq (place : Nat) (arguments : List Argument) :
    sort place arguments = match mappingPlace? place arguments with
      | some found => .error (.lateMapping found)
      | none => .ok (sorted none arguments) := by
  induction arguments generalizing place with
  | nil => rfl
  | cons argument rest ih =>
      cases argument with
      | mapping more => rfl
      | _ =>
          rw [sort, ih (place + 1)]
          simp only [mappingPlace?, Argument.mapping?]
          cases mappingPlace? (place + 1) rest <;> rfl

/-- The place of the first mapping behind the first argument. -/
def latePlace? : List Argument → Option Nat
  | .mapping _ :: rest => mappingPlace? 2 rest
  | arguments => mappingPlace? 1 arguments

/-- What the arguments of a call are sorted into. -/
theorem ofArguments_eq (arguments : List Argument) :
    ofArguments arguments = match latePlace? arguments with
      | some found => .error (.lateMapping found)
      | none => .ok (sorted (arguments.head?.bind Argument.mapping?) arguments) := by
  cases arguments with
  | nil => rfl
  | cons argument rest =>
      cases argument with
      | mapping more =>
          rw [ofArguments, sort_eq, latePlace?]
          cases mappingPlace? 2 rest <;> rfl
      | value plain => exact sort_eq 1 _
      | clause part => exact sort_eq 1 _
      | paging setting => exact sort_eq 1 _

end Trailing

end BoundQuery
