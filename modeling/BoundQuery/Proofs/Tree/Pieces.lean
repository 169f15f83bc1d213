import BoundQuery.Compile
import BoundQuery.Proofs.Draft.Step

/-!
# The pieces of a tree

A tree is written piece by piece: words and brackets of the query language, texts of the caller, and
the leaves that bind values. `pieces` lists them in the order in which they are written, through
nested clauses, groups and the arguments of native fragments. `Clause.write_eq` and its companions
say that writing a tree is writing its pieces one after the other, and `Clause.bindsByName_eq` that
a tree binds by name exactly when one of its pieces does. Statements about whole trees then need one
case for each kind of piece and one induction over a list.
-/

namespace BoundQuery

/-- Words and brackets of the query language that stand between the parts of a tree. -/
inductive Word where
  | space
  | comma
  | opening
  | nestedOpening
  | negatedOpening
  | closing
  | negation
  | having
  | groupBy
  | orderBy
  deriving DecidableEq

def Word.text : Word → String
  | .space => " "
  | .comma => ", "
  | .opening => "("
  | .nestedOpening => " ("
  | .negatedOpening => "NOT ("
  | .closing => ")"
  | .negation => "NOT"
  | .having => " HAVING "
  | .groupBy => " GROUP BY "
  | .orderBy => " ORDER BY "

/-- A part of a tree that is written at once. A `field` is a field on its own, a `phrase` a text of
the caller between other parts, and `literal`, `value` and `mapping` belong to native fragments. -/
inductive Piece where
  | word (word : Word)
  | field (field : Field)
  | phrase (text : String)
  | null (field : Field) (operator name : Option Phrase)
  | scalar (field : Field) (operator : Option Phrase) (value : Present) (name : Option Phrase)
  | sub (text : String) (arguments : List Argument)
  | having (text : String) (arguments : List Argument)
  | literal (text : String)
  | value (value : Value)
  | mapping (more : Dict Value)
  | assigned (later : Bool) (assignment : Assignment)
  | stop (fault : Fault)

/-- The literal of a native fragment: its text with each quote doubled, up to the last quote. -/
def Snippet.literalText (text : String) : String := "SQL('" ++ Snippet.doubleQuotes text ++ "'"

def Piece.write (scope : Scope) : Piece → Step
  | .word token => Step.emit token.text
  | .field column => Step.emit (scope.qualify column.text)
  | .phrase text => Step.emit text
  | .null column operator _ =>
      Comparison.writeNull scope column (Comparison.operatorText operator)
  | .scalar column operator present name =>
      Comparison.writeScalar scope column (Comparison.operatorText operator) present.value name
  | .sub text arguments => Snippet.writeSub text arguments
  | .having text arguments => Snippet.writeHaving text arguments
  | .literal text => Step.emit (Snippet.literalText text)
  | .value plain => Snippet.writeNativeValue plain
  | .mapping more => Snippet.writeNativeMapping more
  | .assigned later assignment => assignment.write scope (if later then ", " else "")
  | .stop fault => Step.fail fault

/-- Writes pieces one after the other. -/
def Piece.writeAll (scope : Scope) : List Piece → Step
  | [] => Step.emit ""
  | piece :: rest => piece.write scope ++ writeAll scope rest

/-- Whether a piece binds by name. -/
def Piece.bindsByName : Piece → Bool
  | .null column operator name | .scalar column operator _ name =>
      Comparison.leafNames column operator name
  | .sub _ arguments | .having _ arguments => Snippet.argumentsBindByName arguments
  | .mapping _ => true
  | _ => false

theorem Piece.writeAll_append (scope : Scope) (front back : List Piece) :
    writeAll scope (front ++ back) = writeAll scope front ++ writeAll scope back := by
  induction front with
  | nil => exact (Step.emit_empty_append _).symm
  | cons piece rest ih =>
      show piece.write scope ++ writeAll scope (rest ++ back) = _
      rw [ih]
      exact (Step.append_assoc _ _ _).symm

theorem Piece.writeAll_singleton (scope : Scope) (piece : Piece) :
    writeAll scope [piece] = piece.write scope :=
  Step.append_emit_empty _

/-- The pieces of a list of fields. -/
def Fields.pieces (fields : Fields) : List Piece :=
  .field fields.first :: fields.rest.flatMap fun field => [.word .comma, .field field]

/-- The pieces around the conditions of a group. -/
def Group.wrapPieces (negated several : Bool) (inside : List Piece) : List Piece :=
  if negated then .word .negatedOpening :: inside ++ [.word .closing]
  else if several then .word .opening :: inside ++ [.word .closing]
  else inside

mutual

def Comparison.pieces : Comparison → List Piece
  | .bare field _ => [.field field]
  | .isNull field operator name => [.null field operator name]
  | .scalar field operator value name => [.scalar field operator value name]
  | .nested field operator clause _ =>
      .field field :: .word .space :: .phrase (Comparison.operatorText operator) ::
        .word .nestedOpening :: (clause.pieces ++ [.word .closing])

def Group.pieces : Group → List Piece
  | .empty negated => if negated then [.word .negation] else []
  | .joined negated first rest =>
      Group.wrapPieces negated (!rest.isEmpty) (first.pieces ++ Group.restPieces rest)

def Group.restPieces : List (Phrase × Condition) → List Piece
  | [] => []
  | (conjunction, child) :: rest =>
      .word .space :: .phrase conjunction.text :: .word .space ::
        (child.pieces ++ Group.restPieces rest)

def Condition.pieces : Condition → List Piece
  | .comparison comparison => comparison.pieces
  | .group group => group.pieces
  | .sub (.mk text arguments) => [.sub text arguments]
  | .native snippet => snippet.nativePieces

def Snippet.nativePieces : Snippet → List Piece
  | .mk text arguments =>
      .literal text :: (Argument.nativePiecesAll arguments ++ [.word .closing])

def Argument.nativePieces : Argument → List Piece
  | .value value => [.value value]
  | .mapping more => [.mapping more]
  | .clause clause => .word .comma :: clause.pieces
  | .paging paging => [.stop (.notNative paging.describe)]

def Argument.nativePiecesAll : List Argument → List Piece
  | [] => []
  | argument :: rest => argument.nativePieces ++ Argument.nativePiecesAll rest

def Having.pieces : Having → List Piece
  | .condition condition => .word .having :: condition.pieces
  | .text (.mk text arguments) => [.word .having, .having text arguments]

def Clause.pieces : Clause → List Piece
  | .condition condition => condition.pieces
  | .groupBy fields => .word .groupBy :: fields.pieces
  | .orderBy fields => .word .orderBy :: fields.pieces
  | .having having => having.pieces
  | .sub (.mk text arguments) => [.sub text arguments]
  | .native snippet => snippet.nativePieces
  | .aggregate aggregate => .word .groupBy :: aggregate.fields.pieces

end

/-- The pieces of the assignments of an update, of which there must be one. -/
def Assignment.pieces : List Assignment → List Piece
  | [] => [.stop .noAssignments]
  | assignment :: rest => .assigned false assignment :: rest.map (.assigned true)

/-! ## Writing a tree is writing its pieces -/

open Piece (writeAll writeAll_append writeAll_singleton)

theorem Fields.writeAll_pieces (scope : Scope) (fields : Fields) :
    writeAll scope fields.pieces =
      Step.emit (scope.qualifyAll (fields.toList.map (·.text))) := by
  obtain ⟨first, rest⟩ := fields
  simp only [pieces, toList, List.map_cons, Scope.qualifyAll]
  induction rest generalizing first with
  | nil => exact writeAll_singleton scope _
  | cons second rest ih =>
      rw [List.map_cons, List.map_cons, String.intercalate_cons_cons, String.append_assoc,
        ← Step.emit_append_emit, ← Step.emit_append_emit, ← ih second]
      rfl

theorem Fields.writeAll_clause (scope : Scope) (word : Word) (keyword : String) (fields : Fields)
    (hWord : word.text = " " ++ keyword ++ " ") :
    writeAll scope (.word word :: fields.pieces) =
      Step.emit (scope.fieldClause keyword fields) := by
  show Step.emit word.text ++ writeAll scope fields.pieces = _
  rw [Fields.writeAll_pieces, Step.emit_append_emit, hWord]
  rfl

theorem Group.wrap_writeAll (scope : Scope) (negated several : Bool) (inside : List Piece) :
    Group.wrap negated several (writeAll scope inside) =
      writeAll scope (Group.wrapPieces negated several inside) := by
  unfold Group.wrap Group.wrapPieces
  split
  · rw [List.cons_append, writeAll, writeAll_append, writeAll_singleton]
    exact Step.append_assoc _ _ _
  · split
    · rw [List.cons_append, writeAll, writeAll_append, writeAll_singleton]
      exact Step.append_assoc _ _ _
    · rfl

mutual

theorem Comparison.write_eq (scope : Scope) :
    ∀ comparison : Comparison, comparison.write scope = writeAll scope comparison.pieces
  | .bare field mark => by
      rw [Comparison.write, Comparison.pieces, writeAll_singleton]
      rfl
  | .isNull field operator name => by
      rw [Comparison.write, Comparison.pieces, writeAll_singleton]
      rfl
  | .scalar field operator value name => by
      rw [Comparison.write, Comparison.pieces, writeAll_singleton]
      rfl
  | .nested field operator clause name => by
      rw [Comparison.write, Comparison.pieces, clause.write_eq scope]
      simp only [writeAll, writeAll_append, Piece.write, Step.emit_append_step,
        Step.append_assoc, Step.append_emit_empty]
      rfl

theorem Group.write_eq (scope : Scope) :
    ∀ group : Group, group.write scope = writeAll scope group.pieces
  | .empty negated => by
      rw [Group.write, Group.pieces]
      cases negated with
      | false => rfl
      | true => exact (writeAll_singleton scope (.word .negation)).symm
  | .joined negated first rest => by
      rw [Group.write, Group.pieces, first.write_eq scope, Group.writeRest_eq scope rest,
        ← writeAll_append]
      exact Group.wrap_writeAll scope negated _ _

theorem Group.writeRest_eq (scope : Scope) :
    ∀ rest : List (Phrase × Condition),
      Group.writeRest scope rest = writeAll scope (Group.restPieces rest)
  | [] => rfl
  | (conjunction, child) :: rest => by
      rw [Group.writeRest, Group.restPieces, child.write_eq scope,
        Group.writeRest_eq scope rest]
      simp only [writeAll, writeAll_append, Piece.write, Step.emit_append_step,
        Step.append_assoc]
      rfl

theorem Condition.write_eq (scope : Scope) :
    ∀ condition : Condition, condition.write scope = writeAll scope condition.pieces
  | .comparison comparison => comparison.write_eq scope
  | .group group => group.write_eq scope
  | .sub (.mk text arguments) => (writeAll_singleton scope (.sub text arguments)).symm
  | .native snippet => snippet.writeNative_eq scope

theorem Snippet.writeNative_eq (scope : Scope) :
    ∀ snippet : Snippet, snippet.writeNative scope = writeAll scope snippet.nativePieces
  | .mk text arguments => by
      rw [Snippet.writeNative, Snippet.nativePieces, Argument.writeNativeAll_eq scope arguments]
      simp only [writeAll, writeAll_append, Piece.write, Step.append_assoc,
        Step.append_emit_empty]
      rfl

theorem Argument.writeNative_eq (scope : Scope) :
    ∀ argument : Argument, argument.writeNative scope = writeAll scope argument.nativePieces
  | .value value => (writeAll_singleton scope (.value value)).symm
  | .mapping more => (writeAll_singleton scope (.mapping more)).symm
  | .clause clause => congrArg (Step.emit ", " ++ ·) (clause.write_eq scope)
  | .paging paging => (writeAll_singleton scope (.stop (.notNative paging.describe))).symm

theorem Argument.writeNativeAll_eq (scope : Scope) :
    ∀ arguments : List Argument,
      Argument.writeNativeAll scope arguments =
        writeAll scope (Argument.nativePiecesAll arguments)
  | [] => rfl
  | argument :: rest => by
      rw [Argument.writeNativeAll, Argument.nativePiecesAll, argument.writeNative_eq scope,
        Argument.writeNativeAll_eq scope rest, writeAll_append]

theorem Having.write_eq (scope : Scope) :
    ∀ having : Having, having.write scope = writeAll scope having.pieces
  | .condition condition => congrArg (Step.emit " HAVING " ++ ·) (condition.write_eq scope)
  | .text (.mk text arguments) =>
      congrArg (Step.emit " HAVING " ++ ·)
        (writeAll_singleton scope (.having text arguments)).symm

theorem Clause.write_eq (scope : Scope) :
    ∀ clause : Clause, clause.write scope = writeAll scope clause.pieces
  | .condition condition => condition.write_eq scope
  | .groupBy fields => (Fields.writeAll_clause scope .groupBy "GROUP BY" fields rfl).symm
  | .orderBy fields => (Fields.writeAll_clause scope .orderBy "ORDER BY" fields rfl).symm
  | .having having => having.write_eq scope
  | .sub (.mk text arguments) => (writeAll_singleton scope (.sub text arguments)).symm
  | .native snippet => snippet.writeNative_eq scope
  | .aggregate aggregate =>
      (Fields.writeAll_clause scope .groupBy "GROUP BY" aggregate.fields rfl).symm

end

theorem Clause.writeAll_eq (scope : Scope) (clauses : List Clause) :
    Clause.writeAll scope clauses = Piece.writeAll scope (clauses.flatMap Clause.pieces) := by
  induction clauses with
  | nil => rfl
  | cons clause rest ih =>
      rw [Clause.writeAll, List.flatMap_cons, writeAll_append, clause.write_eq scope, ih]

theorem Assignment.writeMore_eq (scope : Scope) (assignments : List Assignment) :
    Assignment.writeMore scope assignments =
      Piece.writeAll scope (assignments.map (Piece.assigned true)) := by
  induction assignments with
  | nil => rfl
  | cons assignment rest ih => exact congrArg (assignment.write scope ", " ++ ·) ih

theorem Assignment.writeAll_eq (scope : Scope) (assignments : List Assignment) :
    Assignment.writeAll scope assignments =
      Piece.writeAll scope (Assignment.pieces assignments) := by
  cases assignments with
  | nil => exact (writeAll_singleton scope (.stop .noAssignments)).symm
  | cons assignment rest =>
      exact congrArg (assignment.write scope "" ++ ·) (Assignment.writeMore_eq scope rest)

/-! ## A tree binds by name when one of its pieces does -/

theorem Fields.any_bindsByName_pieces (fields : Fields) :
    fields.pieces.any Piece.bindsByName = false := by
  simp [Fields.pieces, Piece.bindsByName]

theorem Group.any_wrapPieces (negated several : Bool) (inside : List Piece) :
    (Group.wrapPieces negated several inside).any Piece.bindsByName =
      inside.any Piece.bindsByName := by
  unfold Group.wrapPieces
  cases negated <;> cases several <;> simp [Piece.bindsByName]

mutual

theorem Comparison.bindsByName_eq :
    ∀ comparison : Comparison,
      comparison.bindsByName = comparison.pieces.any Piece.bindsByName
  | .bare _ _ => rfl
  | .isNull field operator name => by
      simp [Comparison.bindsByName, Comparison.pieces, Piece.bindsByName]
  | .scalar field operator value name => by
      simp [Comparison.bindsByName, Comparison.pieces, Piece.bindsByName]
  | .nested field operator clause name => by
      rw [Comparison.bindsByName, clause.bindsByName_eq]
      simp [Comparison.pieces, Piece.bindsByName]

theorem Group.bindsByName_eq :
    ∀ group : Group, group.bindsByName = group.pieces.any Piece.bindsByName
  | .empty negated => by cases negated <;> rfl
  | .joined negated first rest => by
      rw [Group.bindsByName, Group.pieces, Group.any_wrapPieces, List.any_append,
        first.bindsByName_eq, Group.restBindsByName_eq rest]

theorem Group.restBindsByName_eq :
    ∀ rest : List (Phrase × Condition),
      Group.restBindsByName rest = (Group.restPieces rest).any Piece.bindsByName
  | [] => rfl
  | (conjunction, child) :: rest => by
      rw [Group.restBindsByName, child.bindsByName_eq, Group.restBindsByName_eq rest]
      simp [Group.restPieces, Piece.bindsByName]

theorem Condition.bindsByName_eq :
    ∀ condition : Condition,
      condition.bindsByName = condition.pieces.any Piece.bindsByName
  | .comparison comparison => comparison.bindsByName_eq
  | .group group => group.bindsByName_eq
  | .sub (.mk _ _) => (Bool.or_false _).symm
  | .native snippet => snippet.bindsByName_eq

theorem Snippet.bindsByName_eq :
    ∀ snippet : Snippet, snippet.bindsByName = snippet.nativePieces.any Piece.bindsByName
  | .mk text arguments => by
      rw [Snippet.bindsByName, Argument.allBindByName_eq arguments]
      simp [Snippet.nativePieces, Piece.bindsByName]

theorem Argument.bindsByName_eq :
    ∀ argument : Argument, argument.bindsByName = argument.nativePieces.any Piece.bindsByName
  | .value _ => rfl
  | .mapping _ => rfl
  | .clause clause => clause.bindsByName_eq
  | .paging _ => rfl

theorem Argument.allBindByName_eq :
    ∀ arguments : List Argument,
      Snippet.argumentsBindByName arguments =
        (Argument.nativePiecesAll arguments).any Piece.bindsByName
  | [] => rfl
  | argument :: rest => by
      rw [Snippet.argumentsBindByName, Argument.nativePiecesAll, List.any_append,
        argument.bindsByName_eq, Argument.allBindByName_eq rest]

theorem Having.bindsByName_eq :
    ∀ having : Having, having.bindsByName = having.pieces.any Piece.bindsByName
  | .condition condition => condition.bindsByName_eq
  | .text (.mk _ _) => (Bool.or_false _).symm

theorem Clause.bindsByName_eq :
    ∀ clause : Clause, clause.bindsByName = clause.pieces.any Piece.bindsByName
  | .condition condition => condition.bindsByName_eq
  | .groupBy fields => fields.any_bindsByName_pieces.symm
  | .orderBy fields => fields.any_bindsByName_pieces.symm
  | .having having => having.bindsByName_eq
  | .sub (.mk _ _) => (Bool.or_false _).symm
  | .native snippet => snippet.bindsByName_eq
  | .aggregate aggregate => aggregate.fields.any_bindsByName_pieces.symm

end

theorem Clause.any_bindsByName_eq (clauses : List Clause) :
    clauses.any Clause.bindsByName = (clauses.flatMap Clause.pieces).any Piece.bindsByName := by
  induction clauses with
  | nil => rfl
  | cons clause rest ih =>
      rw [List.any_cons, List.flatMap_cons, List.any_append, clause.bindsByName_eq, ih]

end BoundQuery
