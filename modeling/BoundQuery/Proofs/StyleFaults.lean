import BoundQuery.Proofs.Tree.Stops

/-!
# The faults of each style

The style of a call is chosen before anything is written, by a look through the tree that is apart
from the writing. `faults_of_style` says that the two agree. A call by position meets no piece that
needs a name, however deep, and is stopped only by faults that have nothing to do with names
(`Fault.ByPosition`); the faults of a call by name are `Fault.ByName`. Neither kind has a place for
a native fragment that cannot take its mapping. Two sources of a conflict are shut off by name: the
leading mapping is bound as it is, and the values of a HAVING text are bound under new names.
-/

namespace BoundQuery

open Placeholder (names firstName?)

/-! ## The two kinds of faults -/

/-- The faults of a call by position: none of them is about a name. -/
inductive Fault.ByPosition : Fault → Prop
  | noAssignments : ByPosition .noAssignments
  | lateMapping (place : Nat) : ByPosition (.lateMapping place)
  | clause {kind : String} (hKind : kind = "sub-expression" ∨ kind = "having clause")
      (fragment : String) (part : Clause) :
      ByPosition (.notPlain kind fragment (Argument.clause part).kindText)
  | paging {kind : String} (hKind : kind = "sub-expression" ∨ kind = "having clause")
      (fragment : String) (setting : Paging) :
      ByPosition (.notPlain kind fragment (Argument.paging setting).kindText)
  | notNative (setting : Paging) : ByPosition (.notNative setting.describe)
  | miscount (fragment : String) (expected found : Nat) :
      ByPosition (.miscount fragment expected found)
  | outOfSequence (fragment : String) (expected found : Nat) (span : Span) :
      ByPosition (.outOfSequence fragment expected found span)

/-- The faults of a call by name. -/
inductive Fault.ByName : Fault → Prop
  | noAssignments : ByName .noAssignments
  | lateMapping (place : Nat) : ByName (.lateMapping place)
  | conflict (name : String) (existing incoming : Value) :
      ByName (.conflict name existing incoming)
  | needsMapping (fragment : String) : ByName (.needsMapping fragment)
  | notPlain (fragment : String) (argument : Argument) :
      ByName (.notPlain "having clause" fragment argument.kindText)
  | unnamedNative (value : Value) : ByName (.unnamedNative value)
  | notNative (setting : Paging) : ByName (.notNative setting.describe)
  | miscount (fragment : String) (expected found : Nat) :
      ByName (.miscount fragment expected found)

theorem Fault.ByPosition.code {fault : Fault} (h : fault.ByPosition) :
    fault.code ∈ [Code.emptyList, .wrongArgument, .miscount, .outOfSequence] := by
  cases h with
  | noAssignments => exact .head _
  | lateMapping place => exact .tail _ (.head _)
  | clause hKind fragment part => exact .tail _ (.head _)
  | paging hKind fragment setting => exact .tail _ (.head _)
  | notNative setting => exact .tail _ (.head _)
  | miscount fragment expected found => exact .tail _ (.tail _ (.head _))
  | outOfSequence fragment expected found span => exact .tail _ (.tail _ (.tail _ (.head _)))

theorem Fault.ByName.code {fault : Fault} (h : fault.ByName) :
    fault.code ∈
      [Code.emptyList, .conflict, .wrongArgument, .unnamedValue, .miscount] := by
  cases h with
  | noAssignments => exact .head _
  | conflict name existing incoming => exact .tail _ (.head _)
  | lateMapping place => exact .tail _ (.tail _ (.head _))
  | notPlain fragment argument => exact .tail _ (.tail _ (.head _))
  | notNative setting => exact .tail _ (.tail _ (.head _))
  | needsMapping fragment => exact .tail _ (.tail _ (.tail _ (.head _)))
  | unnamedNative value => exact .tail _ (.tail _ (.tail _ (.head _)))
  | miscount fragment expected found => exact .tail _ (.tail _ (.tail _ (.tail _ (.head _))))

/-! ### Told apart from a mapping that a native fragment cannot take -/

/-- An explanation that starts with another letter is of another fault. -/
theorem Fault.ne_positionalMapping {code : Code} {what : String} {c : Char}
    (hFirst : what.toList.head? = some c) (h : c ≠ 'n') :
    Fault.argument code what ≠ .positionalMapping := by
  intro hEq
  obtain ⟨-, rfl⟩ := Fault.argument.inj hEq
  exact h (Option.some.inj hFirst).symm

theorem Fault.notPlain_ne_positionalMapping {kind : String}
    (hKind : kind = "sub-expression" ∨ kind = "having clause") (fragment got : String) :
    Fault.notPlain kind fragment got ≠ .positionalMapping := by
  rcases hKind with rfl | rfl
  · exact Fault.ne_positionalMapping (c := 's') (by simp) (by decide)
  · exact Fault.ne_positionalMapping (c := 'h') (by simp) (by decide)

theorem Fault.notNative_ne_positionalMapping (setting : Paging) :
    Fault.notNative setting.describe ≠ .positionalMapping := by
  cases setting with
  | offset n => exact Fault.ne_positionalMapping (c := 'O') (by simp [Paging.describe]) (by decide)
  | limit n => exact Fault.ne_positionalMapping (c := 'L') (by simp [Paging.describe]) (by decide)

theorem Fault.lateMapping_ne_positionalMapping (place : Nat) :
    Fault.lateMapping place ≠ .positionalMapping :=
  Fault.ne_positionalMapping (c := 'a') (by simp) (by decide)

theorem Fault.ByPosition.ne_positionalMapping {fault : Fault} (h : fault.ByPosition) :
    fault ≠ .positionalMapping := by
  cases h with
  | noAssignments => exact Fault.noConfusion
  | lateMapping place => exact Fault.lateMapping_ne_positionalMapping place
  | clause hKind fragment part => exact Fault.notPlain_ne_positionalMapping hKind fragment _
  | paging hKind fragment setting => exact Fault.notPlain_ne_positionalMapping hKind fragment _
  | notNative setting => exact Fault.notNative_ne_positionalMapping setting
  | miscount fragment expected found => exact Fault.noConfusion
  | outOfSequence fragment expected found span => exact Fault.noConfusion

theorem Fault.ByName.ne_positionalMapping {fault : Fault} (h : fault.ByName) :
    fault ≠ .positionalMapping := by
  have hCode : Code.unnamedValue ≠ .wrongArgument := by decide
  cases h with
  | noAssignments => exact Fault.noConfusion
  | lateMapping place => exact Fault.lateMapping_ne_positionalMapping place
  | conflict name existing incoming => exact Fault.noConfusion
  | needsMapping fragment => exact fun hEq => hCode (congrArg Fault.code hEq)
  | notPlain fragment argument => exact Fault.notPlain_ne_positionalMapping (.inr rfl) fragment _
  | unnamedNative value => exact fun hEq => hCode (congrArg Fault.code hEq)
  | notNative setting => exact Fault.notNative_ne_positionalMapping setting
  | miscount fragment expected found => exact Fault.noConfusion

/-! ## By position -/

/-- Pieces that have no use for a name: comparisons without a name of their own or in their text,
and snippets without a mapping among their arguments. -/
def Piece.Unnamed : Piece → Prop
  | .null column operator name | .scalar column operator _ name =>
      name = none ∧ names column.text = [] ∧ names (Comparison.operatorText operator) = []
  | .sub _ arguments | .having _ arguments =>
      ∀ argument ∈ arguments, argument.mapping? = none
  | .mapping _ => False
  | .word _ | .field _ | .phrase _ | .literal _ | .value _ | .assigned .. | .stop _ => True

theorem Comparison.unnamed_of_leafNames {field : Field} {operator name : Option Phrase}
    (h : Comparison.leafNames field operator name = false) :
    name = none ∧ names field.text = [] ∧ names (Comparison.operatorText operator) = [] := by
  simp only [Comparison.leafNames, firstName?, Bool.or_eq_false_iff,
    Option.isSome_eq_false_iff, Option.isNone_iff_eq_none, List.head?_eq_none_iff] at h
  exact ⟨h.1.1, h.1.2, h.2⟩

theorem Snippet.mapping?_of_argumentsBindByName {arguments : List Argument}
    (h : Snippet.argumentsBindByName arguments = false) :
    ∀ argument ∈ arguments, argument.mapping? = none := by
  induction arguments with
  | nil => exact fun _ hArgument => absurd hArgument List.not_mem_nil
  | cons first rest ih =>
      simp only [Snippet.argumentsBindByName, Bool.or_eq_false_iff] at h
      intro argument hArgument
      rcases List.mem_cons.mp hArgument with rfl | hRest
      · cases argument with
        | mapping more => exact absurd h.1 (by simp [Argument.bindsByName])
        | _ => rfl
      · exact ih h.2 argument hRest

theorem Piece.unnamed_of_bindsByName {piece : Piece} (h : piece.bindsByName = false) :
    piece.Unnamed := by
  cases piece with
  | null column operator name => exact Comparison.unnamed_of_leafNames h
  | scalar column operator present name => exact Comparison.unnamed_of_leafNames h
  | sub text arguments => exact Snippet.mapping?_of_argumentsBindByName h
  | having text arguments => exact Snippet.mapping?_of_argumentsBindByName h
  | mapping more => exact absurd h (by simp [Piece.bindsByName])
  | _ => trivial

/-- Among arguments without a mapping, only a clause or a setting is not a plain value. -/
theorem Argument.byPosition_of_plainValues {kind fragment : String} {arguments : List Argument}
    {fault : Fault} (hKind : kind = "sub-expression" ∨ kind = "having clause")
    (hUnnamed : ∀ argument ∈ arguments, argument.mapping? = none)
    (hPlain : Argument.plainValues kind fragment arguments = .error fault) :
    fault.ByPosition := by
  induction arguments with
  | nil => exact absurd hPlain (by simp [Argument.plainValues])
  | cons first rest ih =>
      have hRest : ∀ argument ∈ rest, argument.mapping? = none :=
        fun argument hArgument => hUnnamed argument (by simp [hArgument])
      cases first with
      | value plain =>
          rcases bind_eq_error.mp hPlain with hLater | ⟨values, -, hOk⟩
          · exact ih hRest hLater
          · exact absurd hOk (by simp [pure, Except.pure])
      | mapping more => exact absurd (hUnnamed _ (.head _)) (by simp [Argument.mapping?])
      | clause part =>
          obtain rfl := Except.error.inj hPlain
          exact .clause hKind fragment part
      | paging setting =>
          obtain rfl := Except.error.inj hPlain
          exact .paging hKind fragment setting

theorem Snippet.byPosition_of_checkNumbers {fragment : String} {next : Nat}
    {list : List Placeholder} {fault : Fault}
    (h : Snippet.checkNumbers fragment next list = .error fault) : fault.ByPosition := by
  induction list generalizing next with
  | nil => exact absurd h (by simp [Snippet.checkNumbers])
  | cons placeholder rest ih =>
      rcases placeholder with ⟨(_ | number) | name, span⟩
      · rcases bind_eq_error.mp h with hRest | ⟨checked, -, hOk⟩
        · exact ih hRest
        · exact absurd hOk (by simp [pure, Except.pure])
      · simp only [Snippet.checkNumbers] at h
        split at h
        · exact ih h
        · split at h
          · exact ih h
          · obtain rfl := Except.error.inj h
            exact .outOfSequence fragment next number span
      · exact ih h

theorem Snippet.byPosition_of_placedSub {size : Nat} {text : String} {arguments : List Argument}
    {fault : Fault} (hUnnamed : ∀ argument ∈ arguments, argument.mapping? = none)
    (h : Snippet.placedSub size text arguments = .error fault) : fault.ByPosition := by
  unfold Snippet.placedSub at h
  split at h
  · next other hPlain =>
      obtain rfl := Except.error.inj h
      exact Argument.byPosition_of_plainValues (.inl rfl) hUnnamed hPlain
  · split at h
    · exact absurd h (by simp)
    · obtain rfl := Except.error.inj h
      exact .miscount ..

theorem Snippet.byPosition_of_placedHaving {size : Nat} {text : String}
    {arguments : List Argument} {fault : Fault}
    (hUnnamed : ∀ argument ∈ arguments, argument.mapping? = none)
    (h : Snippet.placedHaving size text arguments = .error fault) : fault.ByPosition := by
  unfold Snippet.placedHaving at h
  split at h
  · next other hPlain =>
      obtain rfl := Except.error.inj h
      exact Argument.byPosition_of_plainValues (.inr rfl) hUnnamed hPlain
  · split at h
    · next other hChecked =>
        obtain rfl := Except.error.inj h
        exact Snippet.byPosition_of_checkNumbers hChecked
    · split at h
      · exact absurd h (by simp)
      · obtain rfl := Except.error.inj h
        exact .miscount ..

/-- A piece that has no use for a name is stopped only by faults that are not about names. -/
theorem Piece.byPosition_of_placed {scope : Scope} {size : Nat} {piece : Piece} {fault : Fault}
    (hUnnamed : piece.Unnamed) (hStop : piece.KnownStop)
    (h : piece.placed scope size = .error fault) : fault.ByPosition := by
  cases piece with
  | sub text arguments =>
      rw [Piece.placed] at h
      split at h
      · exact absurd h (by simp)
      · exact Snippet.byPosition_of_placedSub hUnnamed h
  | having text arguments =>
      rw [Piece.placed] at h
      split at h
      · exact absurd h (by simp)
      · exact Snippet.byPosition_of_placedHaving hUnnamed h
  | value plain =>
      rw [Piece.placed] at h
      split at h
      · exact absurd h (by simp)
      · exact absurd h (by simp)
  | mapping more => exact hUnnamed.elim
  | stop other =>
      obtain rfl := Except.error.inj h
      rcases hStop with rfl | ⟨setting, rfl⟩
      · exact .noAssignments
      · exact .notNative setting
  | word token => exact absurd h (by simp [Piece.placed])
  | field column => exact absurd h (by simp [Piece.placed])
  | phrase text => exact absurd h (by simp [Piece.placed])
  | null column operator name => exact absurd h (by simp [Piece.placed])
  | scalar column operator present name => exact absurd h (by simp [Piece.placed])
  | literal text => exact absurd h (by simp [Piece.placed])
  | assigned later assignment => exact absurd h (by simp [Piece.placed])

theorem Piece.byPosition_of_placedAll {scope : Scope} {size : Nat} {pieces : List Piece}
    {fault : Fault} (hUnnamed : ∀ piece ∈ pieces, piece.Unnamed)
    (hStop : ∀ piece ∈ pieces, piece.KnownStop)
    (h : Piece.placedAll scope size pieces = .error fault) : fault.ByPosition := by
  induction pieces generalizing size with
  | nil => exact absurd h (by simp [Piece.placedAll])
  | cons piece rest ih =>
      rw [Piece.placedAll] at h
      split at h
      · next other hFront =>
          obtain rfl := Except.error.inj h
          exact Piece.byPosition_of_placed (hUnnamed piece (by simp)) (hStop piece (by simp)) hFront
      · split at h
        · next other hBack =>
            obtain rfl := Except.error.inj h
            exact ih (fun other hOther => hUnnamed other (by simp [hOther]))
              (fun other hOther => hStop other (by simp [hOther])) hBack
        · exact absurd h (by simp)

/-! ## By name -/

theorem Argument.byName_of_plainValues {fragment : String} {arguments : List Argument}
    {fault : Fault}
    (hPlain : Argument.plainValues "having clause" fragment arguments = .error fault) :
    ∃ argument : Argument, fault = .notPlain "having clause" fragment argument.kindText := by
  induction arguments with
  | nil => exact absurd hPlain (by simp [Argument.plainValues])
  | cons first rest ih =>
      cases first with
      | value plain =>
          rcases bind_eq_error.mp hPlain with hLater | ⟨values, -, hOk⟩
          · exact ih hLater
          · exact absurd hOk (by simp [pure, Except.pure])
      | mapping more => exact ⟨.mapping more, (Except.error.inj hPlain).symm⟩
      | clause part => exact ⟨.clause part, (Except.error.inj hPlain).symm⟩
      | paging setting => exact ⟨.paging setting, (Except.error.inj hPlain).symm⟩

/-- What a HAVING text asks for fails only by its arguments or their number. -/
theorem Snippet.fault_of_askedHaving {dict : Dict Value} {text : String}
    {arguments : List Argument} {fault : Fault}
    (h : Snippet.askedHaving dict text arguments = .error fault) :
    (∃ argument : Argument, fault = .notPlain "having clause" text argument.kindText) ∨
      ∃ expected found, fault = .miscount text expected found := by
  unfold Snippet.askedHaving at h
  split at h
  · exact absurd h (by simp)
  · split at h
    · next other hPlain =>
        obtain rfl := Except.error.inj h
        exact .inl (Argument.byName_of_plainValues hPlain)
    · simp only at h
      split at h
      · exact absurd h (by simp)
      · exact .inr ⟨_, _, (Except.error.inj h).symm⟩

theorem Piece.byName_of_asked {scope : Scope} {dict : Dict Value} {piece : Piece} {fault : Fault}
    (hStop : piece.KnownStop) (h : piece.asked scope dict = .error fault) : fault.ByName := by
  cases piece with
  | sub text arguments =>
      rw [Piece.asked] at h
      split at h
      · exact absurd h (by simp)
      · unfold Snippet.askedSub at h
        split at h
        · exact absurd h (by simp)
        · obtain rfl := Except.error.inj h
          exact .needsMapping text
  | having text arguments =>
      rw [Piece.asked] at h
      split at h
      · exact absurd h (by simp)
      · rcases Snippet.fault_of_askedHaving h with ⟨argument, rfl⟩ | ⟨expected, found, rfl⟩
        · exact .notPlain text argument
        · exact .miscount text expected found
  | value plain =>
      rw [Piece.asked] at h
      split at h
      · exact absurd h (by simp)
      · obtain rfl := Except.error.inj h
        exact .unnamedNative plain
  | stop other =>
      obtain rfl := Except.error.inj h
      rcases hStop with rfl | ⟨setting, rfl⟩
      · exact .noAssignments
      · exact .notNative setting
  | word token => exact absurd h (by simp [Piece.asked])
  | field column => exact absurd h (by simp [Piece.asked])
  | phrase text => exact absurd h (by simp [Piece.asked])
  | null column operator name => exact absurd h (by simp [Piece.asked])
  | scalar column operator present name => exact absurd h (by simp [Piece.asked])
  | literal text => exact absurd h (by simp [Piece.asked])
  | mapping more => exact absurd h (by simp [Piece.asked])
  | assigned later assignment => exact absurd h (by simp [Piece.asked])

theorem Dict.byName_of_bindEach {dict : Dict Value} {pairs : List (String × Value)}
    {fault : Fault} (h : dict.bindEach pairs = .error fault) : fault.ByName := by
  obtain ⟨name, existing, incoming, rfl⟩ := Dict.conflict_of_bindEach h
  exact .conflict name existing incoming

theorem Piece.byName_of_askedAll {scope : Scope} {dict : Dict Value} {pieces : List Piece}
    {fault : Fault} (hStop : ∀ piece ∈ pieces, piece.KnownStop)
    (h : Piece.askedAll scope dict pieces = .error fault) : fault.ByName := by
  induction pieces generalizing dict with
  | nil => exact absurd h (by simp [Piece.askedAll])
  | cons piece rest ih =>
      rw [Piece.askedAll] at h
      split at h
      · next other hFront =>
          obtain rfl := Except.error.inj h
          exact Piece.byName_of_asked (hStop piece (by simp)) hFront
      · split at h
        · next other hMiddle =>
            obtain rfl := Except.error.inj h
            exact Dict.byName_of_bindEach hMiddle
        · split at h
          · next other hBack =>
              obtain rfl := Except.error.inj h
              exact ih (fun other hOther => hStop other (by simp [hOther])) hBack
          · exact absurd h (by simp)

/-! ### The values of a HAVING text -/

theorem Snippet.mem_unboundNames {dict : Dict Value} {list : List String} {name : String}
    (h : name ∈ Snippet.unboundNames dict list) : name ∉ dict.keys := by
  induction list with
  | nil => exact absurd h List.not_mem_nil
  | cons first rest ih =>
      rw [Snippet.unboundNames] at h
      split at h
      · exact ih h
      · next hFree =>
          rcases List.mem_cons.mp h with rfl | hRest
          · rw [← Dict.find?_eq_none_iff]
            simpa [Dict.contains] using hFree
          · exact ih (List.mem_filter.mp hRest).1

theorem Snippet.nodup_unboundNames (dict : Dict Value) (list : List String) :
    (Snippet.unboundNames dict list).Nodup := by
  induction list with
  | nil => exact List.nodup_nil
  | cons first rest ih =>
      rw [Snippet.unboundNames]
      split
      · exact ih
      · exact List.nodup_cons.mpr ⟨by simp, ih.filter _⟩

/-- The values of a HAVING text are bound under names that are all new, behind the others. -/
theorem Snippet.bindEach_unboundNames (dict : Dict Value) (list : List String)
    {values : List Value} (hLength : (Snippet.unboundNames dict list).length = values.length) :
    ∃ after, dict.bindEach ((Snippet.unboundNames dict list).zip values) = .ok after ∧
      after.entries = dict.entries ++ (Snippet.unboundNames dict list).zip values := by
  have hKeys : ((Snippet.unboundNames dict list).zip values).map Prod.fst =
      Snippet.unboundNames dict list := List.map_fst_zip (Nat.le_of_eq hLength)
  have hNew : ∀ pair ∈ (Snippet.unboundNames dict list).zip values, pair.1 ∉ dict.keys := by
    intro pair hPair
    have hName : pair.1 ∈ Snippet.unboundNames dict list := by
      rw [← hKeys]
      exact List.mem_map_of_mem hPair
    exact Snippet.mem_unboundNames hName
  have hNodup : (((Snippet.unboundNames dict list).zip values).map Prod.fst).Nodup := by
    rw [hKeys]
    exact Snippet.nodup_unboundNames dict list
  exact ⟨_, Dict.bindEach_new hNew hNodup, Dict.entries_foldl_insert hNew hNodup⟩

/-- By name, a HAVING text whose arguments are not a single mapping is never stopped by a
conflict. -/
theorem Snippet.fault_of_writeHaving {dict : Dict Value} {text : String}
    {arguments : List Argument} {fault : Fault} (hOnly : Argument.only? arguments = none)
    (h : (Snippet.writeHaving text arguments).finish (.named dict) = .error fault) :
    fault.code = .wrongArgument ∨ fault.code = .miscount := by
  rw [Piece.finish_having_named] at h
  rcases bind_eq_error.mp h with hAsked | ⟨asked, hAsked, hBound⟩
  · split at hAsked
    · exact absurd hAsked (by simp)
    · rcases Snippet.fault_of_askedHaving hAsked with ⟨argument, rfl⟩ | ⟨expected, found, rfl⟩
      · exact .inl rfl
      · exact .inr rfl
  · -- The pairs asked for are the new names with the values, so that they can be bound.
    have hBind : dict.bindEach asked.2 = .error fault := map_eq_error.mp hBound
    split at hAsked
    · obtain rfl := Except.ok.inj hAsked
      exact absurd hBind (by simp)
    · simp only [Snippet.askedHaving, hOnly] at hAsked
      split at hAsked
      · exact absurd hAsked (by simp)
      · split at hAsked
        · next hLength =>
            obtain rfl := Except.ok.inj hAsked
            obtain ⟨after, hAfter, -⟩ := Snippet.bindEach_unboundNames dict _ hLength
            rw [hAfter] at hBind
            exact absurd hBind (by simp)
        · exact absurd hAsked (by simp)

/-! ## Calls -/

section Calls

variable {scope : Scope} {assignments : Option (List Assignment)} {condition : Option Condition}
  {arguments : List Argument} {fault : Fault}

/-- A call is by position when it has no leading mapping and nothing in it binds by name. -/
theorem callStyle_eq_positional_iff :
    callStyle condition arguments = .positional ↔
      leading? arguments = none ∧ condition.any Condition.bindsByName = false ∧
        ∀ clause, .clause clause ∈ arguments → clause.bindsByName = false := by
  have hCondition : (conditionPieces condition).any Piece.bindsByName =
      condition.any Condition.bindsByName := by
    cases condition with
    | none => rfl
    | some condition => exact condition.bindsByName_eq.symm
  have hClauses : (clausePieces arguments).any Piece.bindsByName = false ↔
      ∀ clause, .clause clause ∈ arguments → clause.bindsByName = false := by
    rw [clausePieces, ← Clause.any_bindsByName_eq, List.any_eq_false]
    constructor
    · intro hAll clause hClause
      have hMem : clause ∈ arguments.filterMap Argument.clause? :=
        List.mem_filterMap.mpr ⟨_, hClause, rfl⟩
      simpa using hAll clause hMem
    · intro hAll clause hClause
      obtain ⟨argument, hArgument, hIs⟩ := List.mem_filterMap.mp hClause
      cases argument with
      | clause part =>
          obtain rfl := Option.some.inj hIs
          simp [hAll _ hArgument]
      | _ => exact absurd hIs (by simp [Argument.clause?])
  rw [callStyle, bindsByName, hCondition, ← hClauses]
  cases leading? arguments <;> simp

/-- A call by position has no piece that needs a name, in whatever depth. -/
theorem unnamed_callPieces (hStyle : callStyle condition arguments = .positional) :
    ∀ piece ∈ callPieces assignments condition arguments, piece.Unnamed := by
  have hNaming : bindsByName condition arguments = false := by
    cases hBinds : bindsByName condition arguments with
    | false => rfl
    | true => exact absurd hStyle (by simp [callStyle, hBinds])
  rw [bindsByName, Bool.or_eq_false_iff, List.any_eq_false, List.any_eq_false] at hNaming
  intro piece hPiece
  simp only [callPieces, List.mem_append] at hPiece
  rcases hPiece with (hSet | hCondition) | hClause
  · cases assignments with
    | none => exact absurd hSet List.not_mem_nil
    | some list =>
        cases list with
        | nil =>
            obtain rfl := List.mem_singleton.mp hSet
            trivial
        | cons assignment rest =>
            rcases List.mem_cons.mp hSet with rfl | hRest
            · trivial
            · obtain ⟨other, -, rfl⟩ := List.mem_map.mp hRest
              trivial
  · exact Piece.unnamed_of_bindsByName (by simpa using hNaming.1 piece hCondition)
  · exact Piece.unnamed_of_bindsByName (by simpa using hNaming.2 piece hClause)

theorem byPosition_of_compile (hStyle : callStyle condition arguments = .positional)
    (hError : compile scope assignments condition arguments = .error fault) :
    fault.ByPosition := by
  have hUnnamed : ∀ piece ∈ callPieces assignments condition arguments, piece.Unnamed :=
    unnamed_callPieces hStyle
  have hStop := knownStop_callPieces assignments condition arguments
  simp only [callPieces, List.mem_append] at hUnnamed hStop
  rw [compile_eq_placed hStyle] at hError
  split at hError
  · next place _ =>
      obtain rfl := Except.error.inj hError
      exact .lateMapping place
  · rcases bind_eq_error.mp hError with hSet | ⟨set, -, hError⟩
    · exact Piece.byPosition_of_placedAll (fun piece h => hUnnamed piece (.inl (.inl h)))
        (fun piece h => hStop piece (.inl (.inl h))) hSet
    rcases bind_eq_error.mp hError with hText | ⟨text, -, hError⟩
    · exact Piece.byPosition_of_placedAll (fun piece h => hUnnamed piece (.inl (.inr h)))
        (fun piece h => hStop piece (.inl (.inr h))) hText
    rcases bind_eq_error.mp hError with hTail | ⟨tail, -, hError⟩
    · exact Piece.byPosition_of_placedAll (fun piece h => hUnnamed piece (.inr h))
        (fun piece h => hStop piece (.inr h)) hTail
    · exact absurd hError (by simp [pure, Except.pure])

theorem byName_of_compile (hStyle : callStyle condition arguments = .named)
    (hError : compile scope assignments condition arguments = .error fault) : fault.ByName := by
  have hStop := knownStop_callPieces assignments condition arguments
  simp only [callPieces, List.mem_append] at hStop
  rw [compile_eq_asked hStyle] at hError
  split at hError
  · next place _ =>
      obtain rfl := Except.error.inj hError
      exact .lateMapping place
  · rcases bind_eq_error.mp hError with hSet | ⟨set, -, hError⟩
    · exact Piece.byName_of_askedAll (fun piece h => hStop piece (.inl (.inl h))) hSet
    rcases bind_eq_error.mp hError with hBound | ⟨dict, -, hError⟩
    · exact Dict.byName_of_bindEach hBound
    rcases bind_eq_error.mp hError with hText | ⟨text, -, hError⟩
    · exact Piece.byName_of_askedAll (fun piece h => hStop piece (.inl (.inr h))) hText
    rcases bind_eq_error.mp hError with hBound | ⟨dict, -, hError⟩
    · exact Dict.byName_of_bindEach hBound
    rcases bind_eq_error.mp hError with hTail | ⟨tail, -, hError⟩
    · exact Piece.byName_of_askedAll (fun piece h => hStop piece (.inr h)) hTail
    rcases bind_eq_error.mp hError with hBound | ⟨dict, -, hError⟩
    · exact Dict.byName_of_bindEach hBound
    · exact absurd hError (by simp [pure, Except.pure])

end Calls

/-- Choosing a style and writing agree. A call by position has no mapping in front and nothing that
binds by name; it meets no piece that needs a name, and its faults are not about names. The faults
of a call by name are of five codes; its leading mapping is bound as it is, and a HAVING text with
arguments of its own never meets a conflict. -/
theorem faults_of_style (scope : Scope) (assignments : Option (List Assignment))
    (condition : Option Condition) (arguments : List Argument) :
    (callStyle condition arguments = .positional ↔
      leading? arguments = none ∧ condition.any Condition.bindsByName = false ∧
        ∀ clause, .clause clause ∈ arguments → clause.bindsByName = false) ∧
    (callStyle condition arguments = .positional →
      (∀ piece ∈ callPieces assignments condition arguments, piece.Unnamed) ∧
      ∀ fault, compile scope assignments condition arguments = .error fault →
        fault.ByPosition ∧ fault ≠ .positionalMapping ∧
          fault.code ∈ [Code.emptyList, .wrongArgument, .miscount, .outOfSequence]) ∧
    (callStyle condition arguments = .named →
      (∀ fault, compile scope assignments condition arguments = .error fault →
        fault.ByName ∧ fault ≠ .positionalMapping ∧
          fault.code ∈ [Code.emptyList, .conflict, .wrongArgument, .unnamedValue, .miscount]) ∧
      (∀ mapping, leading? arguments = some mapping →
        Dict.empty.bindAll mapping.entries = (mapping, none)) ∧
      ∀ dict text given fault, Argument.only? given = none →
        (Snippet.writeHaving text given).finish (.named dict) = .error fault →
          fault.code = .wrongArgument ∨ fault.code = .miscount) := by
  refine ⟨callStyle_eq_positional_iff, fun hStyle => ⟨unnamed_callPieces hStyle, ?_⟩,
    fun hStyle => ⟨?_, ?_, ?_⟩⟩
  · intro fault hError
    have hFault := byPosition_of_compile hStyle hError
    exact ⟨hFault, hFault.ne_positionalMapping, hFault.code⟩
  · intro fault hError
    have hFault := byName_of_compile hStyle hError
    exact ⟨hFault, hFault.ne_positionalMapping, hFault.code⟩
  · intro mapping _
    exact Dict.bindAll_entries mapping
  · intro dict text given fault hOnly hError
    exact Snippet.fault_of_writeHaving hOnly hError

/-- A limit among the arguments of a native fragment stops a call by position, and it stops a call
by name in the same way. -/
theorem faults_of_limit_in_fragment :
    ∃ condition fault,
      compile .standard none (some condition) [] = .error fault ∧ fault.ByPosition ∧
      compile .standard none (some condition) [.mapping .empty] = .error fault ∧ fault.ByName := by
  have hByPosition : compile .standard none
      (some (.native (.mk "f(?)" [.value .null, .paging (.limit 3)]))) [] =
      .error (.notNative "Limit(3)") := rfl
  have hByName : compile .standard none
      (some (.native (.mk "f(?)" [.value .null, .paging (.limit 3)]))) [.mapping .empty] =
      .error (.notNative "Limit(3)") := rfl
  refine ⟨_, _, hByPosition, ?_, hByName, ?_⟩
  · obtain ⟨-, hFaults, -⟩ := faults_of_style .standard none
      (some (.native (.mk "f(?)" [.value .null, .paging (.limit 3)]))) []
    exact ((hFaults rfl).2 _ hByPosition).1
  · obtain ⟨-, -, hFaults⟩ := faults_of_style .standard none
      (some (.native (.mk "f(?)" [.value .null, .paging (.limit 3)]))) [.mapping .empty]
    exact ((hFaults rfl).1 _ hByName).1

end BoundQuery
