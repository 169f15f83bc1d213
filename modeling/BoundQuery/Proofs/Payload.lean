import BoundQuery.Proofs.Call
import BoundQuery.Proofs.Tree.Outline

/-!
# Bound values never reach the text

Two calls with the same outlines differ in nothing but the values that they bind. They choose the
same style; by position they fail alike or show the same (`map_shown_compile`), and by name they
show the same whenever both go through, since the text of a run by name is a function of the pieces
(`text_of_askedAll`). `payload_unseen` puts the two together.
-/

namespace BoundQuery

/-! ## Pieces by position -/

/-- What of a placement does not depend on payloads: the text and how many values are added. -/
def shape (placed : Except Fault (String × List Value)) : Except Fault (String × Nat) :=
  placed.map fun result => (result.1, result.2.length)

theorem Argument.isEmpty_outlineAll (native : Bool) (arguments : List Argument) :
    (Argument.outlineAll native arguments).isEmpty = arguments.isEmpty := by
  cases arguments <;> rfl

theorem Argument.plainValues_outline (kind fragment : String) (arguments : List Argument) :
    Argument.plainValues kind fragment (Argument.outlineAll false arguments) =
      (Argument.plainValues kind fragment arguments).map
        (List.map fun _ => Value.sample) := by
  induction arguments with
  | nil => rfl
  | cons argument rest ih =>
      cases argument with
      | value plain =>
          simp only [Argument.outlineAll, Argument.outline, Argument.plainValues, ih]
          cases Argument.plainValues kind fragment rest <;> rfl
      | mapping more => rfl
      | clause clause => rfl
      | paging paging => rfl

theorem Snippet.shape_placedSub_outline (size : Nat) (text : String) (arguments : List Argument) :
    shape (Snippet.placedSub size text (Argument.outlineAll false arguments)) =
      shape (Snippet.placedSub size text arguments) := by
  unfold Snippet.placedSub
  rw [Argument.plainValues_outline]
  cases Argument.plainValues "sub-expression" text arguments with
  | error fault => rfl
  | ok values =>
      simp only [Except.map, List.length_map]
      split
      · simp [shape, Except.map]
      · rfl

theorem Snippet.shape_placedHaving_outline (size : Nat) (text : String)
    (arguments : List Argument) :
    shape (Snippet.placedHaving size text (Argument.outlineAll false arguments)) =
      shape (Snippet.placedHaving size text arguments) := by
  unfold Snippet.placedHaving
  rw [Argument.plainValues_outline]
  cases Argument.plainValues "having clause" text arguments with
  | error fault => rfl
  | ok values =>
      simp only [Except.map, List.length_map]
      cases Snippet.checkNumbers text (size + 1) (placeholders text) with
      | error fault => rfl
      | ok checked =>
          simp only
          split
          · simp [shape, Except.map]
          · rfl

theorem Value.isNull_outline (value : Value) : (value.outline true).isNull = value.isNull := by
  unfold Value.outline
  cases hNull : value.isNull <;> rfl

/-- A piece and its outline write the same text and add as many values. -/
theorem Piece.shape_placed_outline (scope : Scope) (size : Nat) (piece : Piece) :
    shape (piece.outline.placed scope size) = shape (piece.placed scope size) := by
  cases piece with
  | scalar column operator present name =>
      simp only [Piece.outline, Piece.placed, Comparison.placed]
      split
      · rfl
      · split <;> rfl
  | sub text arguments =>
      simp only [Piece.outline, Piece.placed, Argument.isEmpty_outlineAll]
      split
      · rfl
      · exact Snippet.shape_placedSub_outline size text arguments
  | having text arguments =>
      simp only [Piece.outline, Piece.placed, Argument.isEmpty_outlineAll]
      split
      · rfl
      · exact Snippet.shape_placedHaving_outline size text arguments
  | value plain =>
      simp only [Piece.outline, Piece.placed, Value.isNull_outline]
      split <;> rfl
  | _ => rfl

theorem Piece.shape_placedAll_cons (scope : Scope) (size : Nat) (piece : Piece)
    (rest : List Piece) :
    shape (Piece.placedAll scope size (piece :: rest)) = do
      let (front, first) ← shape (piece.placed scope size)
      let (back, more) ← shape (Piece.placedAll scope (size + first) rest)
      return (front ++ back, first + more) := by
  rw [Piece.placedAll]
  cases piece.placed scope size with
  | error fault => rfl
  | ok placed =>
      simp only [shape, Except.map, bind, Except.bind]
      cases Piece.placedAll scope (size + placed.2.length) rest with
      | error fault => rfl
      | ok others => simp [pure, Except.pure]

theorem Piece.shape_placedAll_outline (scope : Scope) (size : Nat) (pieces : List Piece) :
    shape (Piece.placedAll scope size (pieces.map Piece.outline)) =
      shape (Piece.placedAll scope size pieces) := by
  induction pieces generalizing size with
  | nil => rfl
  | cons piece rest ih =>
      rw [List.map_cons, Piece.shape_placedAll_cons, Piece.shape_placedAll_cons,
        Piece.shape_placed_outline]
      simp only [ih]

/-! ## Pieces by name -/

/-- The text of a piece in a run by name that goes through. -/
def Piece.namedText (scope : Scope) : Piece → String
  | .word token => token.text
  | .field column => scope.qualify column.text
  | .phrase text | .sub text _ | .having text _ => text
  | .null column operator _ =>
      let sign := Comparison.operatorText operator
      (Comparison.asked scope column.text sign .null
        (Comparison.nullText scope column.text sign, [])).1
  | .scalar column operator present name =>
      let sign := Comparison.operatorText operator
      (Comparison.asked scope column.text sign present.value
        (Comparison.askedScalar scope column.text sign (Comparison.parameterName column name)
          present.value)).1
  | .literal text => Snippet.literalText text
  | .value _ => ", NULL"
  | .mapping more => Snippet.namesText more.keys
  | .assigned later assignment =>
      (if later then ", " else "") ++ scope.qualify assignment.field.text ++ " = " ++
        Placeholder.namedText assignment.field.parameterName
  | .stop _ => ""

theorem Snippet.text_of_askedSub {text written : String} {arguments : List Argument}
    {pairs : List (String × Value)}
    (h : Snippet.askedSub text arguments = .ok (written, pairs)) : written = text := by
  unfold Snippet.askedSub at h
  split at h
  · exact (Prod.mk.inj (Except.ok.inj h)).1.symm
  · exact absurd h (by simp)

theorem Snippet.text_of_askedHaving {dict : Dict Value} {text written : String}
    {arguments : List Argument} {pairs : List (String × Value)}
    (h : Snippet.askedHaving dict text arguments = .ok (written, pairs)) : written = text := by
  unfold Snippet.askedHaving at h
  split at h
  · exact (Prod.mk.inj (Except.ok.inj h)).1.symm
  · split at h
    · exact absurd h (by simp)
    · simp only at h
      split at h
      · exact (Prod.mk.inj (Except.ok.inj h)).1.symm
      · exact absurd h (by simp)

/-- By name, what a piece writes depends neither on the bindings nor on the values that it binds. -/
theorem Piece.text_of_asked {scope : Scope} {dict : Dict Value} {piece : Piece} {text : String}
    {pairs : List (String × Value)} (h : piece.asked scope dict = .ok (text, pairs)) :
    text = piece.namedText scope := by
  cases piece with
  | sub fragment arguments =>
      rw [Piece.asked] at h
      split at h
      · exact (Prod.mk.inj (Except.ok.inj h)).1.symm
      · exact Snippet.text_of_askedSub h
  | having fragment arguments =>
      rw [Piece.asked] at h
      split at h
      · exact (Prod.mk.inj (Except.ok.inj h)).1.symm
      · exact Snippet.text_of_askedHaving h
  | value plain =>
      rw [Piece.asked] at h
      split at h
      · exact (Prod.mk.inj (Except.ok.inj h)).1.symm
      · exact absurd h (by simp)
  | stop fault => exact absurd h (by simp [Piece.asked])
  | null column operator name => exact (congrArg Prod.fst (Except.ok.inj h)).symm
  | scalar column operator present name => exact (congrArg Prod.fst (Except.ok.inj h)).symm
  | word token => exact (congrArg Prod.fst (Except.ok.inj h)).symm
  | field column => exact (congrArg Prod.fst (Except.ok.inj h)).symm
  | phrase words => exact (congrArg Prod.fst (Except.ok.inj h)).symm
  | literal words => exact (congrArg Prod.fst (Except.ok.inj h)).symm
  | mapping more => exact (congrArg Prod.fst (Except.ok.inj h)).symm
  | assigned later assignment => exact (congrArg Prod.fst (Except.ok.inj h)).symm

theorem Piece.namedText_outline (scope : Scope) (piece : Piece) :
    piece.outline.namedText scope = piece.namedText scope := by
  cases piece with
  | scalar column operator present name =>
      simp only [Piece.outline, Piece.namedText, Comparison.asked]
      split <;> rfl
  | mapping more =>
      simp [Piece.outline, Piece.namedText, Dict.outline, Dict.keys, Function.comp_def]
  | _ => rfl

/-- The text of a run by name is a function of the pieces. -/
theorem Piece.text_of_askedAll {scope : Scope} {dict : Dict Value} {pieces : List Piece}
    {text : String} {pairs : List (String × Value)}
    (h : Piece.askedAll scope dict pieces = .ok (text, pairs)) :
    text = String.join (pieces.map (Piece.namedText scope)) := by
  induction pieces generalizing dict text pairs with
  | nil => exact (congrArg Prod.fst (Except.ok.inj h)).symm
  | cons piece rest ih =>
      obtain ⟨front, first, middle, back, more, hFront, -, hBack, rfl, rfl⟩ :=
        Piece.askedAll_cons_eq_ok.mp h
      rw [List.map_cons, String.join_cons, Piece.text_of_asked hFront, ih hBack]

/-! ## The parts of a call -/

theorem Assignment.pieces_outline (assignments : List Assignment) :
    Assignment.pieces (assignments.map Assignment.outline) =
      (Assignment.pieces assignments).map Piece.outline := by
  cases assignments with
  | nil => rfl
  | cons assignment rest =>
      simp [Assignment.pieces, Piece.outline, Function.comp_def]

theorem setPieces_outline (assignments : Option (List Assignment)) :
    setPieces (assignments.map (List.map Assignment.outline)) =
      (setPieces assignments).map Piece.outline := by
  cases assignments with
  | none => rfl
  | some assignments => exact Assignment.pieces_outline assignments

theorem conditionPieces_outline (condition : Option Condition) :
    conditionPieces (condition.map Condition.outline) =
      (conditionPieces condition).map Piece.outline := by
  cases condition with
  | none => rfl
  | some condition => exact condition.pieces_outline

theorem clausePieces_outline (arguments : List Argument) :
    clausePieces (Argument.outlineAll false arguments) =
      (clausePieces arguments).map Piece.outline := by
  induction arguments with
  | nil => rfl
  | cons argument rest ih =>
      cases argument with
      | clause part =>
          have hCons : ∀ part rest, clausePieces (.clause part :: rest) =
              part.pieces ++ clausePieces rest := fun _ _ => rfl
          rw [Argument.outlineAll, Argument.outline, hCons, hCons, ih, part.pieces_outline,
            List.map_append]
      | value plain => exact ih
      | mapping more => exact ih
      | paging paging => exact ih

theorem length_seeds_outline (arguments : List Argument) :
    (seeds (Argument.outlineAll false arguments)).length = (seeds arguments).length := by
  induction arguments with
  | nil => rfl
  | cons argument rest ih =>
      cases argument with
      | value plain => exact congrArg Nat.succ ih
      | clause part => exact ih
      | mapping more => exact ih
      | paging paging => exact ih

theorem paging_outline (arguments : List Argument) :
    (Argument.outlineAll false arguments).filterMap Argument.paging? =
      arguments.filterMap Argument.paging? := by
  induction arguments with
  | nil => rfl
  | cons argument rest ih =>
      cases argument with
      | paging setting => exact congrArg (setting :: ·) ih
      | value plain => exact ih
      | clause part => exact ih
      | mapping more => exact ih

theorem leading?_outline (arguments : List Argument) :
    leading? (Argument.outlineAll false arguments) = (leading? arguments).map Dict.outline := by
  cases arguments with
  | nil => rfl
  | cons argument rest => cases argument <;> rfl

theorem Trailing.mappingPlace?_outline (place : Nat) (arguments : List Argument) :
    mappingPlace? place (Argument.outlineAll false arguments) =
      mappingPlace? place arguments := by
  induction arguments generalizing place with
  | nil => rfl
  | cons argument rest ih =>
      cases argument with
      | mapping more => rfl
      | value plain => exact ih (place + 1)
      | clause part => exact ih (place + 1)
      | paging paging => exact ih (place + 1)

theorem Trailing.latePlace?_outline (arguments : List Argument) :
    latePlace? (Argument.outlineAll false arguments) = latePlace? arguments := by
  cases arguments with
  | nil => rfl
  | cons argument rest =>
      cases argument with
      | mapping more => exact mappingPlace?_outline 2 rest
      | value plain => exact mappingPlace?_outline 1 (.value plain :: rest)
      | clause part => exact mappingPlace?_outline 1 (.clause part :: rest)
      | paging paging => exact mappingPlace?_outline 1 (.paging paging :: rest)

/-- A call and its outline choose the same style. -/
theorem callStyle_outline (condition : Option Condition) (arguments : List Argument) :
    callStyle (condition.map Condition.outline) (Argument.outlineAll false arguments) =
      callStyle condition arguments := by
  rw [callStyle, callStyle, leading?_outline, Option.isSome_map, bindsByName, bindsByName,
    conditionPieces_outline, clausePieces_outline, Piece.any_bindsByName_outline,
    Piece.any_bindsByName_outline]

/-! ## Calls -/

/-- What a compiled query shows besides its values. -/
structure Shown where
  assignments : Option String
  text : String
  tail : String
  style : Style
  paging : List Paging

def Compiled.shown (compiled : Compiled) : Shown :=
  ⟨compiled.assignments, compiled.text, compiled.tail, compiled.parameters.style,
    compiled.paging⟩

/-- What a call by position shows depends on the shapes of its three runs. -/
theorem map_shown_eq {condition : Option Condition} {arguments : List Argument}
    (hStyle : callStyle condition arguments = .positional) (scope : Scope)
    (assignments : Option (List Assignment)) :
    (compile scope assignments condition arguments).map Compiled.shown =
      match Trailing.latePlace? arguments with
      | some place => .error (.lateMapping place)
      | none => do
          let size := (seeds arguments).length
          let (written, first) ← shape (Piece.placedAll scope size (setPieces assignments))
          let size := size + first
          let (text, second) ← shape (Piece.placedAll scope size (conditionPieces condition))
          let size := size + second
          let (tail, _) ← shape (Piece.placedAll scope size (clausePieces arguments))
          return ⟨assignments.map fun _ => written, text, tail, .positional,
            arguments.filterMap Argument.paging?⟩ := by
  rw [compile_eq_placed hStyle]
  cases Trailing.latePlace? arguments with
  | some place => rfl
  | none =>
      simp only [List.length_append]
      cases Piece.placedAll scope (seeds arguments).length (setPieces assignments) with
      | error fault => rfl
      | ok set =>
          simp only [shape, Except.map, bind, Except.bind]
          cases Piece.placedAll scope ((seeds arguments).length + set.2.length)
              (conditionPieces condition) with
          | error fault => rfl
          | ok text =>
              simp only
              cases Piece.placedAll scope
                  ((seeds arguments).length + set.2.length + text.2.length)
                  (clausePieces arguments) with
              | error fault => rfl
              | ok tail => rfl

/-- By position, a call and its outline fail alike or show the same. -/
theorem map_shown_outline {condition : Option Condition} {arguments : List Argument}
    (hStyle : callStyle condition arguments = .positional) (scope : Scope)
    (assignments : Option (List Assignment)) :
    (compile scope (assignments.map (List.map Assignment.outline))
        (condition.map Condition.outline) (Argument.outlineAll false arguments)).map
        Compiled.shown =
      (compile scope assignments condition arguments).map Compiled.shown := by
  have hOutline := (callStyle_outline condition arguments).trans hStyle
  rw [map_shown_eq hStyle, map_shown_eq hOutline, Trailing.latePlace?_outline,
    length_seeds_outline, setPieces_outline, conditionPieces_outline, clausePieces_outline,
    paging_outline]
  simp only [Piece.shape_placedAll_outline, Option.map_map, Function.comp_def]

/-- What a call by name shows if it goes through. -/
def namedShown (scope : Scope) (assignments : Option (List Assignment))
    (condition : Option Condition) (arguments : List Argument) : Shown :=
  let textOf (pieces : List Piece) := String.join (pieces.map (Piece.namedText scope))
  ⟨assignments.map fun _ => textOf (setPieces assignments), textOf (conditionPieces condition),
    textOf (clausePieces arguments), .named, arguments.filterMap Argument.paging?⟩

theorem shown_of_named {scope : Scope} {assignments : Option (List Assignment)}
    {condition : Option Condition} {arguments : List Argument} {compiled : Compiled}
    (hStyle : callStyle condition arguments = .named)
    (hOk : compile scope assignments condition arguments = .ok compiled) :
    compiled.shown = namedShown scope assignments condition arguments := by
  obtain ⟨call⟩ := askedCall_of_compile hStyle hOk
  rw [Compiled.shown, namedShown, call.hAssignments, call.hParameters, call.hPaging,
    Piece.text_of_askedAll call.hSet, Piece.text_of_askedAll call.hText,
    Piece.text_of_askedAll call.hTail]
  rfl

theorem map_namedText_outline (scope : Scope) (pieces : List Piece) :
    (pieces.map Piece.outline).map (Piece.namedText scope) =
      pieces.map (Piece.namedText scope) := by
  rw [List.map_map]
  exact congrArg (pieces.map ·) (funext (Piece.namedText_outline scope))

theorem namedShown_outline (scope : Scope) (assignments : Option (List Assignment))
    (condition : Option Condition) (arguments : List Argument) :
    namedShown scope (assignments.map (List.map Assignment.outline))
        (condition.map Condition.outline) (Argument.outlineAll false arguments) =
      namedShown scope assignments condition arguments := by
  simp only [namedShown, setPieces_outline, conditionPieces_outline, clausePieces_outline,
    map_namedText_outline, paging_outline, Option.map_map, Function.comp_def]

/-- Two calls that differ in payloads alone choose the same style, show the same whenever both go
through, and by position fail alike. -/
theorem payload_unseen {scope : Scope} {assignments assignments' : Option (List Assignment)}
    {condition condition' : Option Condition} {arguments arguments' : List Argument}
    (hAssignments : assignments.map (List.map Assignment.outline) =
      assignments'.map (List.map Assignment.outline))
    (hCondition : condition.map Condition.outline = condition'.map Condition.outline)
    (hArguments : Argument.outlineAll false arguments = Argument.outlineAll false arguments') :
    callStyle condition arguments = callStyle condition' arguments' ∧
      (∀ compiled compiled',
        compile scope assignments condition arguments = .ok compiled →
        compile scope assignments' condition' arguments' = .ok compiled' →
        compiled.assignments = compiled'.assignments ∧ compiled.text = compiled'.text ∧
          compiled.tail = compiled'.tail ∧ compiled.paging = compiled'.paging ∧
          compiled.parameters.style = compiled'.parameters.style) ∧
      (callStyle condition arguments = .positional →
        ((∃ compiled, compile scope assignments condition arguments = .ok compiled) ↔
          ∃ compiled', compile scope assignments' condition' arguments' = .ok compiled') ∧
        ∀ fault, compile scope assignments condition arguments = .error fault ↔
          compile scope assignments' condition' arguments' = .error fault) := by
  have hStyle : callStyle condition arguments = callStyle condition' arguments' := by
    rw [← callStyle_outline condition, ← callStyle_outline condition', hCondition, hArguments]
  have hPlaced : callStyle condition arguments = .positional →
      (compile scope assignments condition arguments).map Compiled.shown =
        (compile scope assignments' condition' arguments').map Compiled.shown := by
    intro hPositional
    rw [← map_shown_outline hPositional, ← map_shown_outline (hStyle.symm.trans hPositional),
      hAssignments, hCondition, hArguments]
  refine ⟨hStyle, ?_, ?_⟩
  · intro compiled compiled' hOk hOk'
    have hShown : compiled.shown = compiled'.shown := by
      cases hCase : callStyle condition arguments with
      | named =>
          rw [shown_of_named hCase hOk, shown_of_named (hStyle.symm.trans hCase) hOk',
            ← namedShown_outline scope assignments, ← namedShown_outline scope assignments',
            hAssignments, hCondition, hArguments]
      | positional =>
          have hBoth := hPlaced hCase
          rw [hOk, hOk'] at hBoth
          exact Except.ok.inj hBoth
    exact ⟨congrArg Shown.assignments hShown, congrArg Shown.text hShown,
      congrArg Shown.tail hShown, congrArg Shown.paging hShown, congrArg Shown.style hShown⟩
  · intro hPositional
    exact outcome_of_map_eq (hPlaced hPositional)

/-- A name and a quoted one instead of it, and null for a plain value, change nothing in the
text. -/
theorem payload_unseen_in_comparison :
    ∃ compiled compiled',
      compile .standard none
        (some (.comparison (.scalar ⟨"name", by decide +kernel, by decide⟩ none
          ⟨.string "Ann", rfl⟩ none))) [.value (.integer 7)] = .ok compiled ∧
      compile .standard none
        (some (.comparison (.scalar ⟨"name", by decide +kernel, by decide⟩ none
          ⟨.string "' OR '1' = '1", rfl⟩ none))) [.value .null] = .ok compiled' ∧
      compiled.text = compiled'.text := by
  have hFirst : compile .standard none
      (some (.comparison (.scalar ⟨"name", by decide +kernel, by decide⟩ none
        ⟨.string "Ann", rfl⟩ none))) [.value (.integer 7)] =
      .ok ⟨none, "e.name = ?2", "", .positional [.integer 7, .string "Ann"], []⟩ := rfl
  have hSecond : compile .standard none
      (some (.comparison (.scalar ⟨"name", by decide +kernel, by decide⟩ none
        ⟨.string "' OR '1' = '1", rfl⟩ none))) [.value .null] =
      .ok ⟨none, "e.name = ?2", "", .positional [.null, .string "' OR '1' = '1"], []⟩ := rfl
  have hUnseen := (payload_unseen (by rfl) (by rfl) (by rfl)).2.1 _ _ hFirst hSecond
  exact ⟨_, _, hFirst, hSecond, hUnseen.2.1⟩

end BoundQuery
