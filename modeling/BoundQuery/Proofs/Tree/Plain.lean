import BoundQuery.Proofs.Document.Tree
import BoundQuery.Request

/-!
# Trees as plain data

Read out as plain data, a tree is texts and lists: a comparison is four parts that anything may
stand in, a group is a list of conditions beside a list of conjunctions. The rules of construction
are then a property, `WellFormed`, at every depth. `wellFormed_plain` says that a tree never breaks
them, and `exists_plain` that nothing else is asked of plain data: where the rules hold, the
constructors build a tree that reads out as it.
-/

namespace BoundQuery

/-! ## Plain data -/

namespace Plain

/-- A text that is trimmed and not empty. -/
def IsPhrase (text : String) : Prop := Text.trim text = text ∧ text ≠ ""

/-- A list of fields, at least one. -/
def AreFields (texts : List String) : Prop := texts ≠ [] ∧ ∀ text ∈ texts, IsPhrase text

/-- A list of fields with the values that they are given. -/
def AreAssignments (pairs : List (String × Value)) : Prop := ∀ pair ∈ pairs, IsPhrase pair.1

structure Aggregate where
  fields : List String
  outputs : Dict String

def Aggregate.WellFormed (aggregate : Aggregate) : Prop := AreFields aggregate.fields

mutual

inductive Comparison where
  | mk (field : String) (operator : Option String) (operand : Operand) (name : Option String)

inductive Operand where
  | scalar (value : Value)
  | null
  | nested (clause : Clause)
  | marked (mark : Mark)

inductive Group where
  | mk (negated : Bool) (children : List Condition) (conjunctions : List String)

inductive Condition where
  | comparison (comparison : Comparison)
  | group (group : Group)
  | sub (snippet : Snippet)
  | native (snippet : Snippet)

inductive Snippet where
  | mk (text : String) (arguments : List Argument)

inductive Argument where
  | value (value : Value)
  | mapping (bindings : Dict Value)
  | clause (clause : Clause)
  | paging (paging : Paging)

inductive Having where
  | condition (condition : Condition)
  | text (snippet : Snippet)

inductive Clause where
  | condition (condition : Condition)
  | groupBy (fields : List String)
  | orderBy (fields : List String)
  | having (having : Having)
  | sub (snippet : Snippet)
  | native (snippet : Snippet)
  | aggregate (aggregate : Aggregate)

end

inductive Projection where
  | entity
  | expression (text : String)
  | aggregate (aggregate : Aggregate)

/-- The trees of a request. -/
structure Request where
  condition : Option Condition
  assignments : List (String × Value)
  projection : Projection
  arguments : List Argument

/-! ## Rules of construction -/

def Operand.isMarked : Operand → Bool
  | .marked _ => true
  | _ => false

mutual

/-- The field is a phrase, and so are the operator and the name where they are given; a marked field
has neither. -/
def Comparison.WellFormed : Comparison → Prop
  | .mk field operator operand name =>
      IsPhrase field ∧ (∀ text ∈ operator, IsPhrase text) ∧ (∀ text ∈ name, IsPhrase text) ∧
        (operand.isMarked = true → operator = none ∧ name = none) ∧ operand.WellFormed

/-- A scalar is not null. -/
def Operand.WellFormed : Operand → Prop
  | .scalar value => value.isNull = false
  | .nested clause => clause.WellFormed
  | .null | .marked _ => True

/-- There is one conjunction less than conditions, or none, and each is a phrase. -/
def Group.WellFormed : Group → Prop
  | .mk _ children conjunctions =>
      conjunctions.length = children.length - 1 ∧ (∀ text ∈ conjunctions, IsPhrase text) ∧
        Condition.AllWellFormed children

def Condition.WellFormed : Condition → Prop
  | .comparison comparison => comparison.WellFormed
  | .group group => group.WellFormed
  | .sub snippet | .native snippet => snippet.WellFormed

def Condition.AllWellFormed : List Condition → Prop
  | [] => True
  | condition :: rest => condition.WellFormed ∧ Condition.AllWellFormed rest

def Snippet.WellFormed : Snippet → Prop
  | .mk _ arguments => Argument.AllWellFormed arguments

def Argument.WellFormed : Argument → Prop
  | .clause clause => clause.WellFormed
  | .value _ | .mapping _ | .paging _ => True

def Argument.AllWellFormed : List Argument → Prop
  | [] => True
  | argument :: rest => argument.WellFormed ∧ Argument.AllWellFormed rest

def Having.WellFormed : Having → Prop
  | .condition condition => condition.WellFormed
  | .text snippet => snippet.WellFormed

def Clause.WellFormed : Clause → Prop
  | .condition condition => condition.WellFormed
  | .groupBy fields | .orderBy fields => AreFields fields
  | .having having => having.WellFormed
  | .sub snippet | .native snippet => snippet.WellFormed
  | .aggregate aggregate => aggregate.WellFormed

end

def Projection.WellFormed : Projection → Prop
  | .entity | .expression _ => True
  | .aggregate summary => summary.WellFormed

/-- Every tree of a request keeps the rules, and every assignment has a field. -/
structure Request.WellFormed (request : Request) : Prop where
  condition : ∀ condition ∈ request.condition, condition.WellFormed
  assignments : AreAssignments request.assignments
  projection : request.projection.WellFormed
  arguments : Argument.AllWellFormed request.arguments

end Plain

/-! ## Reading trees out -/

def Fields.plain (fields : Fields) : List String := fields.toList.map (·.text)

def Aggregate.plain (aggregate : Aggregate) : Plain.Aggregate :=
  ⟨aggregate.fields.plain, aggregate.outputs⟩

mutual

def Comparison.plain : Comparison → Plain.Comparison
  | .bare field mark => .mk field.text none (.marked mark) none
  | .isNull field operator name =>
      .mk field.text (operator.map (·.text)) .null (name.map (·.text))
  | .scalar field operator present name =>
      .mk field.text (operator.map (·.text)) (.scalar present.value) (name.map (·.text))
  | .nested field operator clause name =>
      .mk field.text (operator.map (·.text)) (.nested clause.plain) (name.map (·.text))

def Group.plain : Group → Plain.Group
  | .empty negated => .mk negated [] []
  | .joined negated first rest =>
      .mk negated (first.plain :: Group.plainRest rest) (rest.map (·.1.text))

def Group.plainRest : List (Phrase × Condition) → List Plain.Condition
  | [] => []
  | (_, child) :: rest => child.plain :: Group.plainRest rest

def Condition.plain : Condition → Plain.Condition
  | .comparison comparison => .comparison comparison.plain
  | .group group => .group group.plain
  | .sub snippet => .sub snippet.plain
  | .native snippet => .native snippet.plain

def Snippet.plain : Snippet → Plain.Snippet
  | .mk text arguments => .mk text (Argument.plainAll arguments)

def Argument.plain : Argument → Plain.Argument
  | .value value => .value value
  | .mapping bindings => .mapping bindings
  | .clause clause => .clause clause.plain
  | .paging paging => .paging paging

def Argument.plainAll : List Argument → List Plain.Argument
  | [] => []
  | argument :: rest => argument.plain :: Argument.plainAll rest

def Having.plain : Having → Plain.Having
  | .condition condition => .condition condition.plain
  | .text snippet => .text snippet.plain

def Clause.plain : Clause → Plain.Clause
  | .condition condition => .condition condition.plain
  | .groupBy fields => .groupBy fields.plain
  | .orderBy fields => .orderBy fields.plain
  | .having having => .having having.plain
  | .sub snippet => .sub snippet.plain
  | .native snippet => .native snippet.plain
  | .aggregate aggregate => .aggregate aggregate.plain

end

def Operand.plain : Operand → Plain.Operand
  | .scalar value => .scalar value
  | .null => .null
  | .nested clause => .nested clause.plain
  | .marked mark => .marked mark

def Assignment.plain (assignment : Assignment) : String × Value :=
  (assignment.field.text, assignment.value)

def Projection.plain : Projection → Plain.Projection
  | .entity => .entity
  | .expression text => .expression text
  | .aggregate summary => .aggregate summary.plain

def Request.plain (request : Request) : Plain.Request :=
  ⟨request.condition.map Condition.plain, request.assignments.map Assignment.plain,
    request.projection.plain, Argument.plainAll request.arguments⟩

theorem Group.plainRest_eq (rest : List (Phrase × Condition)) :
    Group.plainRest rest = (rest.map Prod.snd).map Condition.plain := by
  induction rest with
  | nil => rfl
  | cons entry rest ih => exact congrArg (entry.2.plain :: ·) ih

theorem Argument.plainAll_eq (arguments : List Argument) :
    Argument.plainAll arguments = arguments.map Argument.plain := by
  induction arguments with
  | nil => rfl
  | cons argument rest ih => exact congrArg (argument.plain :: ·) ih

/-- What callers see of a comparison is what is read out of it. -/
theorem Comparison.plain_eq (comparison : Comparison) :
    comparison.plain = .mk comparison.field.text (comparison.operator?.map (·.text))
      comparison.operand.plain (comparison.name?.map (·.text)) := by
  cases comparison <;> rfl

/-- What callers see of a group is what is read out of it. -/
theorem Group.plain_eq (group : Group) :
    group.plain = .mk group.isNegated (group.children.map Condition.plain)
      (group.conjunctions.map (·.text)) := by
  cases group with
  | empty negated => rfl
  | joined negated first rest =>
      simp [Group.plain, Group.plainRest_eq, Group.isNegated, Group.children, Group.conjunctions]

/-! ## Trees keep the rules -/

open Plain (IsPhrase AreFields)

theorem Phrase.isPhrase (phrase : Phrase) : IsPhrase phrase.text :=
  ⟨phrase.trimmed, phrase.nonempty⟩

theorem Phrase.isPhrase_of_mem_map {phrase : Option Phrase} {text : String}
    (h : text ∈ phrase.map (·.text)) : IsPhrase text := by
  obtain ⟨inner, -, rfl⟩ := Option.map_eq_some_iff.mp h
  exact inner.isPhrase

theorem Fields.areFields (fields : Fields) : AreFields fields.plain := by
  refine ⟨by simp [Fields.plain, Fields.toList], fun text hText => ?_⟩
  obtain ⟨field, -, rfl⟩ := List.mem_map.mp hText
  exact field.isPhrase

mutual

theorem Comparison.wellFormed_plain : ∀ comparison : Comparison, comparison.plain.WellFormed
  | .bare field _ => ⟨field.isPhrase, by simp, by simp, fun _ => ⟨rfl, rfl⟩, trivial⟩
  | .isNull field _ _ =>
      ⟨field.isPhrase, fun _ => Phrase.isPhrase_of_mem_map, fun _ => Phrase.isPhrase_of_mem_map,
        fun hMarked => absurd hMarked (by simp [Plain.Operand.isMarked]), trivial⟩
  | .scalar field _ present _ =>
      ⟨field.isPhrase, fun _ => Phrase.isPhrase_of_mem_map, fun _ => Phrase.isPhrase_of_mem_map,
        fun hMarked => absurd hMarked (by simp [Plain.Operand.isMarked]), present.notNull⟩
  | .nested field _ clause _ =>
      ⟨field.isPhrase, fun _ => Phrase.isPhrase_of_mem_map, fun _ => Phrase.isPhrase_of_mem_map,
        fun hMarked => absurd hMarked (by simp [Plain.Operand.isMarked]),
        clause.wellFormed_plain⟩

theorem Group.wellFormed_plain : ∀ group : Group, group.plain.WellFormed
  | .empty _ => ⟨rfl, by simp, trivial⟩
  | .joined _ first rest => by
      refine ⟨by simp [Group.plainRest_eq], fun text hText => ?_,
        first.wellFormed_plain, Group.wellFormed_plainRest rest⟩
      obtain ⟨entry, -, rfl⟩ := List.mem_map.mp hText
      exact entry.1.isPhrase

theorem Group.wellFormed_plainRest : ∀ rest : List (Phrase × Condition),
    Plain.Condition.AllWellFormed (Group.plainRest rest)
  | [] => trivial
  | (_, child) :: rest => ⟨child.wellFormed_plain, Group.wellFormed_plainRest rest⟩

theorem Condition.wellFormed_plain : ∀ condition : Condition, condition.plain.WellFormed
  | .comparison comparison => comparison.wellFormed_plain
  | .group group => group.wellFormed_plain
  | .sub snippet => snippet.wellFormed_plain
  | .native snippet => snippet.wellFormed_plain

theorem Snippet.wellFormed_plain : ∀ snippet : Snippet, snippet.plain.WellFormed
  | .mk _ arguments => Argument.wellFormed_plainAll arguments

theorem Argument.wellFormed_plain : ∀ argument : Argument, argument.plain.WellFormed
  | .value _ | .mapping _ | .paging _ => trivial
  | .clause clause => clause.wellFormed_plain

theorem Argument.wellFormed_plainAll : ∀ arguments : List Argument,
    Plain.Argument.AllWellFormed (Argument.plainAll arguments)
  | [] => trivial
  | argument :: rest => ⟨argument.wellFormed_plain, Argument.wellFormed_plainAll rest⟩

theorem Having.wellFormed_plain : ∀ having : Having, having.plain.WellFormed
  | .condition condition => condition.wellFormed_plain
  | .text snippet => snippet.wellFormed_plain

theorem Clause.wellFormed_plain : ∀ clause : Clause, clause.plain.WellFormed
  | .condition condition => condition.wellFormed_plain
  | .groupBy fields => fields.areFields
  | .orderBy fields => fields.areFields
  | .having having => having.wellFormed_plain
  | .sub snippet => snippet.wellFormed_plain
  | .native snippet => snippet.wellFormed_plain
  | .aggregate aggregate => aggregate.fields.areFields

end

theorem Projection.wellFormed_plain (projection : Projection) : projection.plain.WellFormed := by
  cases projection with
  | entity => trivial
  | expression text => trivial
  | aggregate aggregate => exact aggregate.fields.areFields

theorem areAssignments (assignments : List Assignment) :
    Plain.AreAssignments (assignments.map Assignment.plain) := by
  intro pair hPair
  obtain ⟨assignment, -, rfl⟩ := List.mem_map.mp hPair
  exact assignment.field.isPhrase

theorem Request.wellFormed_plain (request : Request) : request.plain.WellFormed where
  condition := by
    intro condition hCondition
    obtain ⟨inner, -, rfl⟩ := Option.map_eq_some_iff.mp hCondition
    exact inner.wellFormed_plain
  assignments := areAssignments request.assignments
  projection := request.projection.wellFormed_plain
  arguments := Argument.wellFormed_plainAll request.arguments

/-! ## Whatever keeps the rules is a tree -/

theorem Plain.IsPhrase.exists_phrase {text : String} (h : IsPhrase text) :
    ∃ phrase : Phrase, phrase.text = text := ⟨⟨text, h.1, h.2⟩, rfl⟩

theorem exists_optional_phrase {given : Option String} (h : ∀ text ∈ given, IsPhrase text) :
    ∃ phrase : Option Phrase, phrase.map (·.text) = given := by
  cases given with
  | none => exact ⟨none, rfl⟩
  | some text =>
      obtain ⟨phrase, rfl⟩ := (h text rfl).exists_phrase
      exact ⟨some phrase, rfl⟩

theorem exists_phrases {texts : List String} (h : ∀ text ∈ texts, IsPhrase text) :
    ∃ phrases : List Phrase, phrases.map (·.text) = texts := by
  induction texts with
  | nil => exact ⟨[], rfl⟩
  | cons text rest ih =>
      obtain ⟨phrase, rfl⟩ := (h text (by simp)).exists_phrase
      obtain ⟨phrases, rfl⟩ := ih fun other hOther => h other (by simp [hOther])
      exact ⟨phrase :: phrases, rfl⟩

theorem exists_fields {texts : List String} (h : AreFields texts) :
    ∃ fields : Fields, fields.plain = texts := by
  obtain ⟨hNonempty, hPhrases⟩ := h
  obtain ⟨phrases, rfl⟩ := exists_phrases hPhrases
  cases phrases with
  | nil => exact absurd rfl hNonempty
  | cons first rest => exact ⟨⟨first, rest⟩, rfl⟩

theorem exists_aggregate {plain : Plain.Aggregate} (h : plain.WellFormed) :
    ∃ aggregate : Aggregate, aggregate.plain = plain := by
  obtain ⟨fields, hFields⟩ := exists_fields h
  exact ⟨⟨fields, plain.outputs⟩, by rw [Aggregate.plain, hFields]⟩

/-- Conditions and conjunctions that line up make a group. -/
theorem exists_group {negated : Bool} {conjunctions : List String} {children : List Condition}
    (hLength : conjunctions.length = children.length - 1)
    (hPhrases : ∀ text ∈ conjunctions, IsPhrase text) :
    ∃ group : Group, group.plain = .mk negated (children.map Condition.plain) conjunctions := by
  obtain ⟨phrases, rfl⟩ := exists_phrases hPhrases
  cases children with
  | nil =>
      obtain rfl : phrases = [] := by simpa using hLength
      exact ⟨.empty negated, rfl⟩
  | cons first rest =>
      have hSame : phrases.length = rest.length := by simpa using hLength
      refine ⟨.joined negated first (phrases.zip rest), ?_⟩
      rw [Group.plain, Group.plainRest_eq, List.map_snd_zip (Nat.le_of_eq hSame.symm)]
      have hTexts : (phrases.zip rest).map (·.1.text) = phrases.map (·.text) := calc
        (phrases.zip rest).map (·.1.text) = ((phrases.zip rest).map Prod.fst).map (·.text) := by
          rw [List.map_map]
          rfl
        _ = phrases.map (·.text) := by rw [List.map_fst_zip (Nat.le_of_eq hSame)]
      rw [hTexts]
      rfl

mutual

theorem Comparison.exists_plain : ∀ plain : Plain.Comparison, plain.WellFormed →
    ∃ comparison : Comparison, comparison.plain = plain
  | .mk field operator operand name, ⟨hField, hOperator, hName, hMarked, hOperand⟩ => by
      obtain ⟨column, rfl⟩ := hField.exists_phrase
      obtain ⟨sign, rfl⟩ := exists_optional_phrase hOperator
      obtain ⟨label, rfl⟩ := exists_optional_phrase hName
      cases operand with
      | scalar value => exact ⟨.scalar column sign ⟨value, hOperand⟩ label, rfl⟩
      | null => exact ⟨.isNull column sign label, rfl⟩
      | nested clause =>
          obtain ⟨inner, rfl⟩ := Clause.exists_plain clause hOperand
          exact ⟨.nested column sign inner label, rfl⟩
      | marked mark =>
          obtain ⟨hNone, hUnnamed⟩ := hMarked rfl
          rw [hNone, hUnnamed]
          exact ⟨.bare column mark, rfl⟩

theorem Group.exists_plain : ∀ plain : Plain.Group, plain.WellFormed →
    ∃ group : Group, group.plain = plain
  | .mk _ children _, ⟨hLength, hPhrases, hChildren⟩ => by
      obtain ⟨inner, rfl⟩ := Condition.exists_plainAll children hChildren
      exact exists_group (by simpa using hLength) hPhrases

theorem Condition.exists_plain : ∀ plain : Plain.Condition, plain.WellFormed →
    ∃ condition : Condition, condition.plain = plain
  | .comparison comparison, h => by
      obtain ⟨inner, rfl⟩ := Comparison.exists_plain comparison h
      exact ⟨.comparison inner, rfl⟩
  | .group group, h => by
      obtain ⟨inner, rfl⟩ := Group.exists_plain group h
      exact ⟨.group inner, rfl⟩
  | .sub snippet, h => by
      obtain ⟨inner, rfl⟩ := Snippet.exists_plain snippet h
      exact ⟨.sub inner, rfl⟩
  | .native snippet, h => by
      obtain ⟨inner, rfl⟩ := Snippet.exists_plain snippet h
      exact ⟨.native inner, rfl⟩

theorem Condition.exists_plainAll : ∀ plain : List Plain.Condition,
    Plain.Condition.AllWellFormed plain →
      ∃ conditions : List Condition, conditions.map Condition.plain = plain
  | [], _ => ⟨[], rfl⟩
  | condition :: rest, h => by
      obtain ⟨first, rfl⟩ := Condition.exists_plain condition h.1
      obtain ⟨others, rfl⟩ := Condition.exists_plainAll rest h.2
      exact ⟨first :: others, rfl⟩

theorem Snippet.exists_plain : ∀ plain : Plain.Snippet, plain.WellFormed →
    ∃ snippet : Snippet, snippet.plain = plain
  | .mk text arguments, h => by
      obtain ⟨inner, rfl⟩ := Argument.exists_plainAll arguments h
      exact ⟨.mk text inner, by rw [Snippet.plain, Argument.plainAll_eq]⟩

theorem Argument.exists_plain : ∀ plain : Plain.Argument, plain.WellFormed →
    ∃ argument : Argument, argument.plain = plain
  | .value value, _ => ⟨.value value, rfl⟩
  | .mapping bindings, _ => ⟨.mapping bindings, rfl⟩
  | .clause clause, h => by
      obtain ⟨inner, rfl⟩ := Clause.exists_plain clause h
      exact ⟨.clause inner, rfl⟩
  | .paging paging, _ => ⟨.paging paging, rfl⟩

theorem Argument.exists_plainAll : ∀ plain : List Plain.Argument,
    Plain.Argument.AllWellFormed plain →
      ∃ arguments : List Argument, arguments.map Argument.plain = plain
  | [], _ => ⟨[], rfl⟩
  | argument :: rest, h => by
      obtain ⟨first, rfl⟩ := Argument.exists_plain argument h.1
      obtain ⟨others, rfl⟩ := Argument.exists_plainAll rest h.2
      exact ⟨first :: others, rfl⟩

theorem Having.exists_plain : ∀ plain : Plain.Having, plain.WellFormed →
    ∃ having : Having, having.plain = plain
  | .condition condition, h => by
      obtain ⟨inner, rfl⟩ := Condition.exists_plain condition h
      exact ⟨.condition inner, rfl⟩
  | .text snippet, h => by
      obtain ⟨inner, rfl⟩ := Snippet.exists_plain snippet h
      exact ⟨.text inner, rfl⟩

theorem Clause.exists_plain : ∀ plain : Plain.Clause, plain.WellFormed →
    ∃ clause : Clause, clause.plain = plain
  | .condition condition, h => by
      obtain ⟨inner, rfl⟩ := Condition.exists_plain condition h
      exact ⟨.condition inner, rfl⟩
  | .groupBy fields, h => by
      obtain ⟨inner, rfl⟩ := exists_fields h
      exact ⟨.groupBy inner, rfl⟩
  | .orderBy fields, h => by
      obtain ⟨inner, rfl⟩ := exists_fields h
      exact ⟨.orderBy inner, rfl⟩
  | .having having, h => by
      obtain ⟨inner, rfl⟩ := Having.exists_plain having h
      exact ⟨.having inner, rfl⟩
  | .sub snippet, h => by
      obtain ⟨inner, rfl⟩ := Snippet.exists_plain snippet h
      exact ⟨.sub inner, rfl⟩
  | .native snippet, h => by
      obtain ⟨inner, rfl⟩ := Snippet.exists_plain snippet h
      exact ⟨.native inner, rfl⟩
  | .aggregate aggregate, h => by
      obtain ⟨inner, rfl⟩ := exists_aggregate h
      exact ⟨.aggregate inner, rfl⟩

end

theorem exists_assignments {pairs : List (String × Value)} (h : Plain.AreAssignments pairs) :
    ∃ assignments : List Assignment, assignments.map Assignment.plain = pairs := by
  induction pairs with
  | nil => exact ⟨[], rfl⟩
  | cons pair rest ih =>
      obtain ⟨text, value⟩ := pair
      obtain ⟨field, rfl⟩ := (h (text, value) (by simp)).exists_phrase
      obtain ⟨assignments, rfl⟩ := ih fun other hOther => h other (by simp [hOther])
      exact ⟨⟨field, value⟩ :: assignments, rfl⟩

theorem exists_projection {plain : Plain.Projection} (h : plain.WellFormed) :
    ∃ projection : Projection, projection.plain = plain := by
  cases plain with
  | entity => exact ⟨.entity, rfl⟩
  | expression text => exact ⟨.expression text, rfl⟩
  | aggregate summary =>
      obtain ⟨inner, rfl⟩ := exists_aggregate h
      exact ⟨.aggregate inner, rfl⟩

theorem exists_optional_condition {plain : Option Plain.Condition}
    (h : ∀ condition ∈ plain, condition.WellFormed) :
    ∃ condition : Option Condition, condition.map Condition.plain = plain := by
  cases plain with
  | none => exact ⟨none, rfl⟩
  | some condition =>
      obtain ⟨inner, rfl⟩ := Condition.exists_plain condition (h condition rfl)
      exact ⟨some inner, rfl⟩

theorem exists_request {plain : Plain.Request} (h : plain.WellFormed) :
    ∃ request : Request, request.plain = plain := by
  obtain ⟨condition, hCondition⟩ := exists_optional_condition h.condition
  obtain ⟨assignments, hAssignments⟩ := exists_assignments h.assignments
  obtain ⟨projection, hProjection⟩ := exists_projection h.projection
  obtain ⟨arguments, hArguments⟩ := Argument.exists_plainAll plain.arguments h.arguments
  refine ⟨{ Request.empty with condition, assignments, projection, arguments }, ?_⟩
  simp only [Request.plain, Argument.plainAll_eq, hCondition, hAssignments, hProjection,
    hArguments]

end BoundQuery
