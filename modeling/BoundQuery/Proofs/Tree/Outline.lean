import BoundQuery.Proofs.Tree.Pieces

/-!
# Trees without payloads

The outline of a tree keeps everything but the values that it binds: each of them becomes one and
the same sample. What stays is what a caller may look at, among it whether an argument of a native
fragment is null, and the names of a mapping. Two trees with one outline are the same but for their
payloads. The pieces of an outline are the outlines of the pieces, and an outline binds by name
exactly when the tree does.
-/

namespace BoundQuery

/-- The value that stands for any payload. -/
def Value.sample : Value := .boolean true

def Present.sample : Present := ⟨.sample, rfl⟩

/-- A mapping with the same names in the same order. -/
def Dict.outline (dict : Dict Value) : Dict Value :=
  ⟨dict.entries.map fun entry => (entry.1, Value.sample), by
    rw [List.map_map]
    exact dict.keys_nodup⟩

/-- A value without its payload; a native fragment shows whether it is null. -/
def Value.outline (native : Bool) (value : Value) : Value :=
  if native && value.isNull then .null else sample

def Assignment.outline (assignment : Assignment) : Assignment := ⟨assignment.field, .sample⟩

mutual

def Comparison.outline : Comparison → Comparison
  | .bare field mark => .bare field mark
  | .isNull field operator name => .isNull field operator name
  | .scalar field operator _ name => .scalar field operator .sample name
  | .nested field operator clause name => .nested field operator clause.outline name

def Group.outline : Group → Group
  | .empty negated => .empty negated
  | .joined negated first rest => .joined negated first.outline (Group.restOutline rest)

def Group.restOutline : List (Phrase × Condition) → List (Phrase × Condition)
  | [] => []
  | (conjunction, child) :: rest => (conjunction, child.outline) :: Group.restOutline rest

def Condition.outline : Condition → Condition
  | .comparison comparison => .comparison comparison.outline
  | .group group => .group group.outline
  | .sub snippet => .sub (snippet.outline false)
  | .native snippet => .native (snippet.outline true)

/-- The outline of a snippet, which may be a native fragment. -/
def Snippet.outline (native : Bool) : Snippet → Snippet
  | .mk text arguments => .mk text (Argument.outlineAll native arguments)

def Argument.outline (native : Bool) : Argument → Argument
  | .value value => .value (value.outline native)
  | .mapping more => .mapping more.outline
  | .clause clause => .clause clause.outline
  | .paging paging => .paging paging

def Argument.outlineAll (native : Bool) : List Argument → List Argument
  | [] => []
  | argument :: rest => argument.outline native :: Argument.outlineAll native rest

def Having.outline : Having → Having
  | .condition condition => .condition condition.outline
  | .text snippet => .text (snippet.outline false)

def Clause.outline : Clause → Clause
  | .condition condition => .condition condition.outline
  | .groupBy fields => .groupBy fields
  | .orderBy fields => .orderBy fields
  | .having having => .having having.outline
  | .sub snippet => .sub (snippet.outline false)
  | .native snippet => .native (snippet.outline true)
  | .aggregate aggregate => .aggregate aggregate

end

def Piece.outline : Piece → Piece
  | .word token => .word token
  | .field column => .field column
  | .phrase text => .phrase text
  | .null column operator name => .null column operator name
  | .scalar column operator _ name => .scalar column operator .sample name
  | .sub text arguments => .sub text (Argument.outlineAll false arguments)
  | .having text arguments => .having text (Argument.outlineAll false arguments)
  | .literal text => .literal text
  | .value plain => .value (plain.outline true)
  | .mapping more => .mapping more.outline
  | .assigned later assignment => .assigned later assignment.outline
  | .stop fault => .stop fault

/-! ## Outlines of pieces -/

theorem Fields.pieces_outline (fields : Fields) :
    fields.pieces.map Piece.outline = fields.pieces := by
  simp [Fields.pieces, List.map_flatMap, Piece.outline]

theorem Group.wrapPieces_outline (negated several : Bool) (inside : List Piece) :
    (Group.wrapPieces negated several inside).map Piece.outline =
      Group.wrapPieces negated several (inside.map Piece.outline) := by
  cases negated <;> cases several <;> simp [Group.wrapPieces, Piece.outline]

theorem Group.isEmpty_restOutline (rest : List (Phrase × Condition)) :
    (Group.restOutline rest).isEmpty = rest.isEmpty := by
  cases rest with
  | nil => rfl
  | cons entry rest => rfl

mutual

theorem Comparison.pieces_outline :
    ∀ comparison : Comparison, comparison.outline.pieces = comparison.pieces.map Piece.outline
  | .bare _ _ => rfl
  | .isNull _ _ _ => rfl
  | .scalar _ _ _ _ => rfl
  | .nested field operator clause name => by
      simp only [Comparison.outline, Comparison.pieces, clause.pieces_outline, List.map_cons,
        List.map_append, List.map_nil, Piece.outline]

theorem Group.pieces_outline :
    ∀ group : Group, group.outline.pieces = group.pieces.map Piece.outline
  | .empty negated => by cases negated <;> rfl
  | .joined negated first rest => by
      rw [Group.outline, Group.pieces, Group.pieces, first.pieces_outline,
        Group.restPieces_outline rest, Group.isEmpty_restOutline, Group.wrapPieces_outline,
        List.map_append]

theorem Group.restPieces_outline :
    ∀ rest : List (Phrase × Condition),
      Group.restPieces (Group.restOutline rest) = (Group.restPieces rest).map Piece.outline
  | [] => rfl
  | (conjunction, child) :: rest => by
      simp only [Group.restOutline, Group.restPieces, child.pieces_outline,
        Group.restPieces_outline rest, List.map_cons, List.map_append, Piece.outline]

theorem Condition.pieces_outline :
    ∀ condition : Condition, condition.outline.pieces = condition.pieces.map Piece.outline
  | .comparison comparison => comparison.pieces_outline
  | .group group => group.pieces_outline
  | .sub (.mk _ _) => rfl
  | .native snippet => snippet.nativePieces_outline

theorem Snippet.nativePieces_outline :
    ∀ snippet : Snippet,
      (snippet.outline true).nativePieces = snippet.nativePieces.map Piece.outline
  | .mk text arguments => by
      simp only [Snippet.outline, Snippet.nativePieces, Argument.nativePiecesAll_outline arguments,
        List.map_cons, List.map_append, List.map_nil, Piece.outline]

theorem Argument.nativePieces_outline :
    ∀ argument : Argument,
      (argument.outline true).nativePieces = argument.nativePieces.map Piece.outline
  | .value _ => rfl
  | .mapping _ => rfl
  | .clause clause => congrArg (Piece.word .comma :: ·) clause.pieces_outline
  | .paging _ => rfl

theorem Argument.nativePiecesAll_outline :
    ∀ arguments : List Argument,
      Argument.nativePiecesAll (Argument.outlineAll true arguments) =
        (Argument.nativePiecesAll arguments).map Piece.outline
  | [] => rfl
  | argument :: rest => by
      rw [Argument.outlineAll, Argument.nativePiecesAll, Argument.nativePiecesAll,
        argument.nativePieces_outline, Argument.nativePiecesAll_outline rest, List.map_append]

theorem Having.pieces_outline :
    ∀ having : Having, having.outline.pieces = having.pieces.map Piece.outline
  | .condition condition => congrArg (Piece.word .having :: ·) condition.pieces_outline
  | .text (.mk _ _) => rfl

theorem Clause.pieces_outline :
    ∀ clause : Clause, clause.outline.pieces = clause.pieces.map Piece.outline
  | .condition condition => condition.pieces_outline
  | .groupBy fields => congrArg (Piece.word .groupBy :: ·) fields.pieces_outline.symm
  | .orderBy fields => congrArg (Piece.word .orderBy :: ·) fields.pieces_outline.symm
  | .having having => having.pieces_outline
  | .sub (.mk _ _) => rfl
  | .native snippet => snippet.nativePieces_outline
  | .aggregate aggregate =>
      congrArg (Piece.word .groupBy :: ·) aggregate.fields.pieces_outline.symm

end

/-! ## An outline binds by name as the tree does -/

mutual

theorem Comparison.bindsByName_outline :
    ∀ comparison : Comparison, comparison.outline.bindsByName = comparison.bindsByName
  | .bare _ _ => rfl
  | .isNull _ _ _ => rfl
  | .scalar _ _ _ _ => rfl
  | .nested _ _ clause _ => clause.bindsByName_outline

theorem Group.bindsByName_outline :
    ∀ group : Group, group.outline.bindsByName = group.bindsByName
  | .empty _ => rfl
  | .joined _ first rest => by
      rw [Group.outline, Group.bindsByName, Group.bindsByName, first.bindsByName_outline,
        Group.restBindsByName_outline rest]

theorem Group.restBindsByName_outline :
    ∀ rest : List (Phrase × Condition),
      Group.restBindsByName (Group.restOutline rest) = Group.restBindsByName rest
  | [] => rfl
  | (_, child) :: rest => by
      rw [Group.restOutline, Group.restBindsByName, Group.restBindsByName,
        child.bindsByName_outline, Group.restBindsByName_outline rest]

theorem Condition.bindsByName_outline :
    ∀ condition : Condition, condition.outline.bindsByName = condition.bindsByName
  | .comparison comparison => comparison.bindsByName_outline
  | .group group => group.bindsByName_outline
  | .sub snippet => snippet.bindsByName_outline false
  | .native snippet => snippet.bindsByName_outline true

theorem Snippet.bindsByName_outline (native : Bool) :
    ∀ snippet : Snippet, (snippet.outline native).bindsByName = snippet.bindsByName
  | .mk _ arguments => Argument.allBindByName_outline native arguments

theorem Argument.bindsByName_outline (native : Bool) :
    ∀ argument : Argument, (argument.outline native).bindsByName = argument.bindsByName
  | .value _ => rfl
  | .mapping _ => rfl
  | .clause clause => clause.bindsByName_outline
  | .paging _ => rfl

theorem Argument.allBindByName_outline (native : Bool) :
    ∀ arguments : List Argument,
      Snippet.argumentsBindByName (Argument.outlineAll native arguments) =
        Snippet.argumentsBindByName arguments
  | [] => rfl
  | argument :: rest => by
      rw [Argument.outlineAll, Snippet.argumentsBindByName, Snippet.argumentsBindByName,
        argument.bindsByName_outline native, Argument.allBindByName_outline native rest]

theorem Having.bindsByName_outline :
    ∀ having : Having, having.outline.bindsByName = having.bindsByName
  | .condition condition => condition.bindsByName_outline
  | .text snippet => snippet.bindsByName_outline false

theorem Clause.bindsByName_outline :
    ∀ clause : Clause, clause.outline.bindsByName = clause.bindsByName
  | .condition condition => condition.bindsByName_outline
  | .groupBy _ => rfl
  | .orderBy _ => rfl
  | .having having => having.bindsByName_outline
  | .sub snippet => snippet.bindsByName_outline false
  | .native snippet => snippet.bindsByName_outline true
  | .aggregate _ => rfl

end

theorem Piece.bindsByName_outline (piece : Piece) :
    piece.outline.bindsByName = piece.bindsByName := by
  cases piece with
  | sub text arguments => exact Argument.allBindByName_outline false arguments
  | having text arguments => exact Argument.allBindByName_outline false arguments
  | _ => rfl

theorem Piece.any_bindsByName_outline (pieces : List Piece) :
    (pieces.map Piece.outline).any Piece.bindsByName = pieces.any Piece.bindsByName := by
  rw [List.any_map]
  exact congrArg (pieces.any ·) (funext Piece.bindsByName_outline)

end BoundQuery
