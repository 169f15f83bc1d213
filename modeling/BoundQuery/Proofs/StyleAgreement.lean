import BoundQuery.Proofs.Call
import BoundQuery.Proofs.Tree.Elementary

/-!
# The two binding styles agree

By position and by name an elementary piece binds the same value and differs in its placeholder
alone. By position a run of such pieces goes through; by name it binds their pairs, which is
possible unless two values under one name differ. `styles_agree` compares the two calls: when both
go through the texts have the same skeleton, and each pair of placeholders stands for equal values.
-/

namespace BoundQuery

open Placeholder (Kind Quiet Spells carried firstName?_of_quiet hasPositional_of_quiet kinds
  positionalText skeleton)

/-! ## Runs of elementary pieces -/

/-- The placeholder of the value after `size` others, if a piece binds one. -/
def Piece.numberMark (size : Nat) (piece : Piece) : String :=
  if piece.pair?.isSome then positionalText (size + 1) else ""

/-- The placeholder of the name that a piece binds, if it binds one. -/
def Piece.nameMark (piece : Piece) : String :=
  match piece.pair? with
  | some pair => Placeholder.namedText pair.1
  | none => ""

theorem Piece.placed_elementary {piece : Piece} (h : piece.Elementary) (scope : Scope)
    (size : Nat) :
    piece.placed scope size =
      .ok (piece.front scope ++ piece.numberMark size, (piece.pair?.map Prod.snd).toList) := by
  cases piece with
  | null column operator name =>
      rw [Piece.placed, Comparison.placed, if_neg (by simp [hasPositional_of_quiet h.1.quiet]),
        if_neg (by simp [hasPositional_of_quiet h.2])]
      simp [Piece.front, Piece.numberMark, Piece.pair?]
  | scalar column operator present name =>
      rw [Piece.placed, Comparison.placed, if_neg (by simp [hasPositional_of_quiet h.1.quiet]),
        if_neg (by simp [hasPositional_of_quiet h.2])]
      rfl
  | assigned later assignment => rfl
  | word token => simp [Piece.placed, Piece.front, Piece.numberMark, Piece.pair?]
  | field column => simp [Piece.placed, Piece.front, Piece.numberMark, Piece.pair?]
  | phrase text => simp [Piece.placed, Piece.front, Piece.numberMark, Piece.pair?]
  | _ => exact h.elim

theorem Piece.asked_elementary {piece : Piece} (h : piece.Elementary)
    (hNaming : piece.bindsByName = false) (scope : Scope) (dict : Dict Value) :
    piece.asked scope dict =
      .ok (piece.front scope ++ piece.nameMark, piece.pair?.toList) := by
  cases piece with
  | null column operator name =>
      rw [Piece.asked, Comparison.asked, firstName?_of_quiet h.1.quiet, firstName?_of_quiet h.2]
      simp [Piece.front, Piece.nameMark, Piece.pair?]
  | scalar column operator present name =>
      have hName : name = none := by
        simp only [Piece.bindsByName, Comparison.leafNames, Bool.or_eq_false_iff] at hNaming
        simpa using hNaming.1.1
      subst hName
      rw [Piece.asked, Comparison.asked, firstName?_of_quiet h.1.quiet, firstName?_of_quiet h.2]
      rfl
  | assigned later assignment => rfl
  | word token => simp [Piece.asked, Piece.front, Piece.nameMark, Piece.pair?]
  | field column => simp [Piece.asked, Piece.front, Piece.nameMark, Piece.pair?]
  | phrase text => simp [Piece.asked, Piece.front, Piece.nameMark, Piece.pair?]
  | _ => exact h.elim

/-- The name under which an elementary piece binds can be read off its placeholder. -/
theorem Piece.Elementary.spells {piece : Piece} (h : piece.Elementary) {pair : String × Value}
    (hPair : piece.pair? = some pair) :
    Spells false (.named pair.1) (Placeholder.namedText pair.1).toList := by
  cases piece with
  | scalar column operator present name =>
      obtain rfl := Option.some.inj hPair
      exact h.1.spells
  | assigned later assignment =>
      obtain rfl := Option.some.inj hPair
      exact h.1.spells
  | _ => exact absurd hPair (by simp [Piece.pair?])

/-- What the placeholder of the value at a place refers to, places counted from one. -/
def numberKind (place : Nat) : Kind := .positional (some (carried place))

/-- By position, elementary pieces go through and number their placeholders upwards. -/
theorem Piece.placedAll_elementary {pieces : List Piece}
    (hElementary : ∀ piece ∈ pieces, piece.Elementary) (scope : Scope) (size : Nat) :
    ∃ text, Piece.placedAll scope size pieces = .ok (text, (Piece.pairs pieces).map Prod.snd) ∧
      Rendered scope pieces
        ((List.range' (size + 1) (Piece.pairs pieces).length).map numberKind) text := by
  induction pieces generalizing size with
  | nil => exact ⟨"", rfl, .nil⟩
  | cons piece rest ih =>
      have hPiece := hElementary piece (by simp)
      have hPlaced := Piece.placed_elementary hPiece scope size
      have hLater : ∀ other ∈ rest, other.Elementary :=
        fun other hOther => hElementary other (by simp [hOther])
      cases hPair : piece.pair? with
      | none =>
          obtain ⟨back, hBack, hRendered⟩ := ih hLater size
          have hPairs : Piece.pairs (piece :: rest) = Piece.pairs rest := by
            simp [Piece.pairs, hPair]
          refine ⟨piece.front scope ++ back, ?_, ?_⟩
          · rw [hPairs]
            refine Piece.placedAll_cons_eq_ok.mpr
              ⟨_, _, back, (Piece.pairs rest).map Prod.snd, hPlaced, ?_, ?_, ?_⟩
            · rw [hPair]
              exact hBack
            · simp [Piece.numberMark, hPair]
            · simp [hPair]
          · rw [hPairs]
            exact .still hPair hRendered
      | some pair =>
          obtain ⟨back, hBack, hRendered⟩ := ih hLater (size + 1)
          have hPairs : Piece.pairs (piece :: rest) = pair :: Piece.pairs rest := by
            simp [Piece.pairs, hPair]
          refine ⟨piece.front scope ++ (positionalText (size + 1) ++ back), ?_, ?_⟩
          · rw [hPairs]
            refine Piece.placedAll_cons_eq_ok.mpr
              ⟨_, _, back, (Piece.pairs rest).map Prod.snd, hPlaced, ?_, ?_, ?_⟩
            · rw [hPair]
              exact hBack
            · simp [Piece.numberMark, hPair, String.append_assoc]
            · simp [hPair]
          · rw [hPairs]
            exact .marked (by simp [hPair])
              (Placeholder.spells_positionalText false (size + 1)) hRendered

/-- By name, elementary pieces go through when their pairs can be bound. -/
theorem Piece.askedAll_elementary {pieces : List Piece}
    (hElementary : ∀ piece ∈ pieces, piece.Elementary)
    (hNaming : ∀ piece ∈ pieces, piece.bindsByName = false) (scope : Scope) :
    ∃ text, Rendered scope pieces ((Piece.pairs pieces).map fun pair => .named pair.1) text ∧
      ∀ dict, Piece.askedAll scope dict pieces =
        (dict.bindEach (Piece.pairs pieces)).map fun _ => (text, Piece.pairs pieces) := by
  induction pieces with
  | nil => exact ⟨"", .nil, fun dict => rfl⟩
  | cons piece rest ih =>
      have hPiece := hElementary piece (by simp)
      have hAsked := Piece.asked_elementary hPiece (hNaming piece (by simp)) scope
      obtain ⟨back, hRendered, hBack⟩ := ih
        (fun other hOther => hElementary other (by simp [hOther]))
        (fun other hOther => hNaming other (by simp [hOther]))
      cases hPair : piece.pair? with
      | none =>
          have hPairs : Piece.pairs (piece :: rest) = Piece.pairs rest := by
            simp [Piece.pairs, hPair]
          refine ⟨piece.front scope ++ back, ?_, fun dict => ?_⟩
          · rw [hPairs]
            exact .still hPair hRendered
          · simp only [Piece.askedAll, hAsked, hPair, Option.toList_none, Dict.bindEach_nil,
              hBack dict, hPairs]
            cases dict.bindEach (Piece.pairs rest) with
            | error fault => rfl
            | ok last => simp [Except.map, Piece.nameMark, hPair]
      | some pair =>
          have hPairs : Piece.pairs (piece :: rest) = pair :: Piece.pairs rest := by
            simp [Piece.pairs, hPair]
          refine ⟨piece.front scope ++ (Placeholder.namedText pair.1 ++ back), ?_, fun dict => ?_⟩
          · rw [hPairs]
            exact .marked (by simp [hPair]) (hPiece.spells hPair) hRendered
          · simp only [Piece.askedAll, hAsked, hPair, Option.toList_some, hPairs]
            rw [Piece.bindEach_single, Dict.bindEach_cons]
            cases dict.bind pair.1 pair.2 with
            | error fault => rfl
            | ok middle =>
                simp only [hBack middle, bind, Except.bind]
                cases middle.bindEach (Piece.pairs rest) with
                | error fault => rfl
                | ok last =>
                    simp [Except.map, Piece.nameMark, hPair, String.append_assoc]

/-! ## Binding the pairs of elementary pieces -/

theorem Piece.notNull_of_mem_pairs {pieces : List Piece}
    (hElementary : ∀ piece ∈ pieces, piece.Elementary) {pair : String × Value}
    (hPair : pair ∈ Piece.pairs pieces) : pair.2.isNull = false := by
  obtain ⟨piece, hPiece, hIs⟩ := List.mem_filterMap.mp hPair
  cases piece with
  | scalar column operator present name =>
      obtain rfl := Option.some.inj hIs
      exact present.notNull
  | assigned later assignment =>
      obtain rfl := Option.some.inj hIs
      exact (hElementary _ hPiece).2
  | _ => exact absurd hIs (by simp [Piece.pair?])

/-- Two of the pairs have the same name and values that differ. -/
def Clash (pairs : List (String × Value)) : Prop :=
  ∃ first ∈ pairs, ∃ second ∈ pairs, first.1 = second.1 ∧ (first.2 == second.2) = false

theorem mem_under_empty {pairs : List (String × Value)} {key : String} {value : Value} :
    value ∈ Dict.empty.under pairs key ↔ (key, value) ∈ pairs := by
  have hEmpty : (Dict.empty : Dict Value).find? key = none := rfl
  simp [Dict.under, Dict.valuesUnder, hEmpty]

/-- Pairs without nulls can be bound unless two of them clash. -/
theorem bindEach_empty_isOk_iff {pairs : List (String × Value)}
    (hPresent : ∀ pair ∈ pairs, pair.2.isNull = false) :
    (∃ last, Dict.empty.bindEach pairs = .ok last) ↔ ¬ Clash pairs := by
  rw [Dict.bindEach_isOk_iff]
  constructor
  · rintro hAll ⟨first, hFirst, second, hSecond, hKey, hDiffer⟩
    have hAgree := hAll first.1 first.2 (mem_under_empty.mpr hFirst) second.2
      (mem_under_empty.mpr (hKey ▸ hSecond))
    have hEqual := Value.equals_of_agree hAgree (hPresent first hFirst) (hPresent second hSecond)
    rw [hEqual] at hDiffer
    exact absurd hDiffer (by decide)
  · intro hClash key a ha b hb
    by_cases hEqual : (a == b) = true
    · exact .inr (.inr hEqual)
    · exact absurd ⟨_, mem_under_empty.mp ha, _, mem_under_empty.mp hb, rfl, by simpa using hEqual⟩
        hClash

/-- After binding, each pair finds a value equal to its own under its name. -/
theorem find?_of_mem_pairs {pairs : List (String × Value)} {last : Dict Value}
    (hLast : Dict.empty.bindEach pairs = .ok last) {pair : String × Value} (hPair : pair ∈ pairs)
    (hPresent : pair.2.isNull = false) :
    ∃ bound, last.find? pair.1 = some bound ∧ (pair.2 == bound) = true := by
  have hCompatible := (Dict.bindEach_isOk_iff _ _).mp ⟨last, hLast⟩ pair.1
  obtain ⟨bound, hBound, hEqual⟩ :=
    Value.settled_of_mem hCompatible (mem_under_empty.mpr hPair) hPresent
  rw [← Dict.find?_bindEach hLast] at hBound
  exact ⟨bound, hBound, Value.equals_symm hEqual⟩

/-! ## Calls of elementary pieces -/

section Calls

variable {scope : Scope} {assignments : Option (List Assignment)} {condition : Option Condition}

/-- The pairs of names and values of an update and its condition. -/
def boundPairs (assignments : Option (List Assignment)) (condition : Option Condition) :
    List (String × Value) :=
  Piece.pairs (setPieces assignments) ++ Piece.pairs (conditionPieces condition)

theorem naming_pieces (hNaming : condition.any Condition.bindsByName = false) :
    ∀ piece ∈ conditionPieces condition, piece.bindsByName = false := by
  intro piece hPiece
  cases condition with
  | none => exact absurd hPiece List.not_mem_nil
  | some condition =>
      rw [Option.any_some, condition.bindsByName_eq, List.any_eq_false] at hNaming
      simpa using hNaming piece hPiece

theorem naming_setPieces (assignments : Option (List Assignment)) :
    ∀ piece ∈ setPieces assignments, piece.bindsByName = false := by
  intro piece hPiece
  cases assignments with
  | none => exact absurd hPiece List.not_mem_nil
  | some assignments =>
      cases assignments with
      | nil =>
          obtain rfl := List.mem_singleton.mp hPiece
          rfl
      | cons assignment rest =>
          rcases List.mem_cons.mp hPiece with rfl | hRest
          · rfl
          · obtain ⟨other, -, rfl⟩ := List.mem_map.mp hRest
            rfl

variable (scope) in
/-- By position, a call of elementary pieces goes through. -/
theorem compile_placed_elementary
    (hSet : ∀ piece ∈ setPieces assignments, piece.Elementary)
    (hCondition : ∀ piece ∈ conditionPieces condition, piece.Elementary)
    (hNaming : condition.any Condition.bindsByName = false) :
    ∃ written text,
      Rendered scope (setPieces assignments)
        ((List.range' 1 (Piece.pairs (setPieces assignments)).length).map numberKind) written ∧
      Rendered scope (conditionPieces condition)
        ((List.range' (1 + (Piece.pairs (setPieces assignments)).length)
          (Piece.pairs (conditionPieces condition)).length).map numberKind) text ∧
      compile scope assignments condition [] =
        .ok ⟨assignments.map fun _ => written, text, "",
          .positional ((boundPairs assignments condition).map Prod.snd), []⟩ := by
  have hStyle : callStyle condition [] = .positional := by
    have hPieces : (conditionPieces condition).any Piece.bindsByName = false := by
      rw [List.any_eq_false]
      intro piece hPiece
      simp [naming_pieces hNaming piece hPiece]
    simp [callStyle, leading?, bindsByName, clausePieces, hPieces]
  obtain ⟨written, hWritten, hFirst⟩ := Piece.placedAll_elementary hSet scope 0
  obtain ⟨text, hText, hSecond⟩ := Piece.placedAll_elementary hCondition scope
    (Piece.pairs (setPieces assignments)).length
  rw [Nat.add_comm] at hSecond
  refine ⟨written, text, hFirst, hSecond, ?_⟩
  have hLate : Trailing.latePlace? [] = none := rfl
  have hSeeds : seeds [] = [] := rfl
  have hClauses : clausePieces [] = [] := rfl
  simp only [compile_eq_placed hStyle, hLate, hSeeds, hClauses, List.length_nil, hWritten,
    bind, Except.bind, List.nil_append, List.length_map, hText, Piece.placedAll, boundPairs,
    List.map_append, List.append_nil]
  rfl

variable (scope) in
/-- By name, a call of elementary pieces goes through when its pairs can be bound. -/
theorem compile_asked_elementary
    (hSet : ∀ piece ∈ setPieces assignments, piece.Elementary)
    (hCondition : ∀ piece ∈ conditionPieces condition, piece.Elementary)
    (hNaming : condition.any Condition.bindsByName = false) :
    ∃ written text,
      Rendered scope (setPieces assignments)
        ((Piece.pairs (setPieces assignments)).map fun pair => .named pair.1) written ∧
      Rendered scope (conditionPieces condition)
        ((Piece.pairs (conditionPieces condition)).map fun pair => .named pair.1) text ∧
      compile scope assignments condition [.mapping .empty] =
        (Dict.empty.bindEach (boundPairs assignments condition)).map fun last =>
          ⟨assignments.map fun _ => written, text, "", .named last [], []⟩ := by
  have hStyle : callStyle condition [.mapping .empty] = .named := rfl
  obtain ⟨written, hFirst, hWritten⟩ :=
    Piece.askedAll_elementary hSet (naming_setPieces assignments) scope
  obtain ⟨text, hSecond, hText⟩ :=
    Piece.askedAll_elementary hCondition (naming_pieces hNaming) scope
  refine ⟨written, text, hFirst, hSecond, ?_⟩
  have hLate : Trailing.latePlace? [.mapping .empty] = none := rfl
  have hLeading : (leading? [.mapping .empty]).getD .empty = .empty := rfl
  have hClauses : clausePieces [.mapping .empty] = [] := rfl
  simp only [compile_eq_asked hStyle, hLate, hLeading, hClauses, hWritten, boundPairs,
    Dict.bindEach_append, bind, Except.bind]
  cases hMiddle : Dict.empty.bindEach (Piece.pairs (setPieces assignments)) with
  | error fault => simp [Except.map]
  | ok middle =>
      simp only [Except.map, hMiddle, hText]
      cases hLast : middle.bindEach (Piece.pairs (conditionPieces condition)) with
      | error fault => simp
      | ok last =>
          simp only [hLast]
          rfl

/-- Placeholders by position and by name that stand for equal values, place by place. -/
structure StandForEqual (values : List Value) (dict : Dict Value) (numbered named : List Kind) :
    Prop where
  sameCount : numbered.length = named.length
  sameValue : ∀ place, place < numbered.length → ∃ value name bound,
    numbered[place]? = some (.positional (some (carried (place + 1)))) ∧
      values[place]? = some value ∧ named[place]? = some (.named name) ∧
      dict.find? name = some bound ∧ (value == bound) = true

theorem standForEqual_of_bindEach {pairs : List (String × Value)} {last : Dict Value}
    (hLast : Dict.empty.bindEach pairs = .ok last)
    (hPresent : ∀ pair ∈ pairs, pair.2.isNull = false) :
    StandForEqual (pairs.map Prod.snd) last ((List.range' 1 pairs.length).map numberKind)
      (pairs.map fun pair => .named pair.1) := by
  refine ⟨by simp, fun place hPlace => ?_⟩
  have hBound : place < pairs.length := by simpa using hPlace
  have hPair : pairs[place] ∈ pairs := List.getElem_mem hBound
  obtain ⟨bound, hFind, hEqual⟩ := find?_of_mem_pairs hLast hPair (hPresent _ hPair)
  refine ⟨pairs[place].2, pairs[place].1, bound, ?_, ?_, ?_, hFind, hEqual⟩
  · simp [hBound, numberKind, Nat.add_comm]
  · simp [hBound]
  · simp [hBound]

/-- The text of assignments, if there are any, is all that a call shows of them. -/
theorem getD_written {marks : List Kind} {written : String}
    (h : Rendered scope (setPieces assignments) marks written) :
    (assignments.map fun _ => written).getD "" = written := by
  cases assignments with
  | none =>
      cases h with
      | nil => rfl
  | some assignments => rfl

/-- Elementary conditions and assignments compile alike in both styles. By position they always go
through; by name they do unless two of their pairs clash; and then the texts have one skeleton, and
the placeholders stand for equal values, one by one. -/
theorem styles_agree (hNonempty : assignments ≠ some [])
    (hAssignments : ∀ list ∈ assignments, ∀ assignment ∈ list, assignment.Elementary)
    (hElementary : ∀ part ∈ condition, part.Elementary)
    (hNaming : condition.any Condition.bindsByName = false) :
    ∃ placed values, compile scope assignments condition [] = .ok placed ∧
      placed.parameters = .positional values ∧
      (∀ fault, compile scope assignments condition [.mapping .empty] = .error fault →
        fault.code = .conflict) ∧
      ((∃ fault, compile scope assignments condition [.mapping .empty] = .error fault) ↔
        Clash (boundPairs assignments condition)) ∧
      ∀ asked, compile scope assignments condition [.mapping .empty] = .ok asked →
        ∃ dict, asked.parameters = .named dict [] ∧
          placed.assignments.map skeleton = asked.assignments.map skeleton ∧
          skeleton placed.text = skeleton asked.text ∧
          StandForEqual values dict
            (kinds (placed.assignments.getD "") ++ kinds placed.text)
            (kinds (asked.assignments.getD "") ++ kinds asked.text) := by
  have hSet := elementary_setPieces hNonempty hAssignments
  have hCondition := elementary_conditionPieces hElementary
  obtain ⟨writtenP, textP, hWrittenP, hTextP, hPlaced⟩ :=
    compile_placed_elementary scope hSet hCondition hNaming
  obtain ⟨writtenN, textN, hWrittenN, hTextN, hAsked⟩ :=
    compile_asked_elementary scope hSet hCondition hNaming
  have hPresent : ∀ pair ∈ boundPairs assignments condition, pair.2.isNull = false := by
    intro pair hPair
    rcases List.mem_append.mp hPair with hPair | hPair
    · exact Piece.notNull_of_mem_pairs hSet hPair
    · exact Piece.notNull_of_mem_pairs hCondition hPair
  refine ⟨_, _, hPlaced, rfl, ?_, ?_, ?_⟩
  · intro fault hFault
    rw [hAsked] at hFault
    exact Dict.code_of_bindEach (map_eq_error.mp hFault)
  · rw [hAsked]
    simp only [map_eq_error]
    rw [exists_error_iff, bindEach_empty_isOk_iff hPresent, Classical.not_not]
  · intro asked hOk
    rw [hAsked] at hOk
    obtain ⟨last, hLast, rfl⟩ := map_eq_ok.mp hOk
    have hReadSetP := hWrittenP.read hSet (separated_setPieces assignments)
    have hReadSetN := hWrittenN.read hSet (separated_setPieces assignments)
    have hReadP := hTextP.read hCondition (separated_conditionPieces condition)
    have hReadN := hTextN.read hCondition (separated_conditionPieces condition)
    refine ⟨last, rfl, ?_, hReadP.1.trans hReadN.1.symm, ?_⟩
    · simp only [Option.map_map, Function.comp_def, hReadSetP.1, hReadSetN.1]
    · have hEqual := standForEqual_of_bindEach hLast hPresent
      simp only [getD_written hWrittenP, getD_written hWrittenN]
      rw [hReadSetP.2, hReadSetN.2, hReadP.2, hReadN.2, ← List.map_append,
        ← List.map_append, List.range'_append_1, ← List.length_append]
      exact hEqual

end Calls

/-- The path `a.status`. -/
def statusPath : Field := ⟨"a.status", by decide +kernel, by decide⟩

/-- The condition that the status is new. -/
def statusIsNew : Condition := .comparison (.scalar statusPath none ⟨.string "NEW", rfl⟩ none)

theorem isPath_statusPath : IsPath statusPath := by decide +kernel

/-- An update whose condition looks at the column that it writes, for the same value. -/
theorem styles_agree_on_status :
    ∃ placed asked values dict,
      compile .standard (some [⟨statusPath, .string "NEW"⟩]) (some statusIsNew) [] =
        .ok placed ∧
      compile .standard (some [⟨statusPath, .string "NEW"⟩]) (some statusIsNew)
        [.mapping .empty] = .ok asked ∧
      asked.text = "e.a.status = :a_status" ∧ skeleton placed.text = skeleton asked.text ∧
      StandForEqual values dict (kinds (placed.assignments.getD "") ++ kinds placed.text)
        (kinds (asked.assignments.getD "") ++ kinds asked.text) := by
  have hAsked : compile .standard (some [⟨statusPath, .string "NEW"⟩]) (some statusIsNew)
      [.mapping .empty] =
      .ok ⟨some "e.a.status = :a_status", "e.a.status = :a_status", "",
        .named ⟨[("a_status", .string "NEW")], by decide⟩ [], []⟩ := rfl
  have hAssignments : ∀ list ∈ some [Assignment.mk statusPath (.string "NEW")],
      ∀ assignment ∈ list, assignment.Elementary := by
    intro list hList assignment hAssignment
    obtain rfl := Option.mem_some_iff.mp hList
    obtain rfl := List.mem_singleton.mp hAssignment
    exact ⟨isPath_statusPath, rfl⟩
  have hElementary : ∀ part ∈ some statusIsNew, part.Elementary := by
    intro part hPart
    obtain rfl := Option.mem_some_iff.mp hPart
    exact ⟨isPath_statusPath, by decide +kernel⟩
  obtain ⟨placed, values, hPlaced, -, -, -, hBoth⟩ :=
    styles_agree (by simp) hAssignments hElementary (by decide +kernel)
  obtain ⟨dict, -, -, hSkeleton, hEqual⟩ := hBoth _ hAsked
  exact ⟨placed, _, values, dict, hPlaced, hAsked, rfl, hSkeleton, hEqual⟩

end BoundQuery
