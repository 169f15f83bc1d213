import BoundQuery.Proofs.Draft.AppendOnly
import BoundQuery.Proofs.StyleFaults

/-!
# The arguments of a call are kept

Plain values, clauses and settings stand among the arguments of a call in any order. None of them is
lost, doubled or moved: the values are the first parameters or are passed through, the settings are
handed on, and the clauses are written one after the other, each on the bindings that the one before
it has left (`Clause.drafts`). A mapping is where the bindings start if it is the first argument,
and stops the call if it is not (`Trailing.latePlace?_eq_some_iff`). `arguments_kept` puts these
together.
-/

namespace BoundQuery

/-! ## Late mappings -/

/-- The first mapping behind the first argument of a call stands at this place, places counted from
one. -/
structure LateMapping (arguments : List Argument) (place : Nat) : Prop where
  late : 2 ≤ place
  here : ∃ mapping, arguments[place - 1]? = some (.mapping mapping)
  first : ∀ earlier mapping, 2 ≤ earlier → arguments[earlier - 1]? = some (.mapping mapping) →
    place ≤ earlier

namespace Trailing

/-- The place of the first mapping in a list is that of the first argument plus its index. -/
theorem mappingPlace?_eq_some_iff {start place : Nat} {arguments : List Argument} :
    mappingPlace? start arguments = some place ↔
      ∃ index, place = start + index ∧ (∃ mapping, arguments[index]? = some (.mapping mapping)) ∧
        ∀ earlier mapping, arguments[earlier]? = some (.mapping mapping) → index ≤ earlier := by
  induction arguments generalizing start with
  | nil => simp [mappingPlace?]
  | cons argument rest ih =>
      cases hMapping : argument.mapping? with
      | some more =>
          obtain rfl : argument = .mapping more := by
            cases argument with
            | mapping other => exact congrArg Argument.mapping (Option.some.inj hMapping)
            | _ => exact absurd hMapping (by simp [Argument.mapping?])
          constructor
          · intro h
            obtain rfl : start = place := Option.some.inj h
            exact ⟨0, rfl, ⟨more, rfl⟩, fun _ _ _ => Nat.zero_le _⟩
          · rintro ⟨index, rfl, -, hFirst⟩
            obtain rfl := Nat.le_zero.mp (hFirst 0 more rfl)
            rfl
      | none =>
          have hNot : ∀ mapping, argument ≠ .mapping mapping := by
            rintro mapping rfl
            exact absurd hMapping (by simp [Argument.mapping?])
          have hNext : mappingPlace? start (argument :: rest) = mappingPlace? (start + 1) rest := by
            rw [mappingPlace?, hMapping]
          rw [hNext, ih]
          constructor
          · rintro ⟨index, rfl, hHere, hFirst⟩
            refine ⟨index + 1, by omega, hHere, fun earlier mapping hEarlier => ?_⟩
            cases earlier with
            | zero => exact absurd (Option.some.inj hEarlier) (hNot mapping)
            | succ earlier => exact Nat.succ_le_succ (hFirst earlier mapping hEarlier)
          · rintro ⟨index, rfl, ⟨mapping, hHere⟩, hFirst⟩
            cases index with
            | zero => exact absurd (Option.some.inj hHere) (hNot mapping)
            | succ index =>
                refine ⟨index, by omega, ⟨mapping, hHere⟩, fun earlier other hEarlier => ?_⟩
                exact Nat.le_of_succ_le_succ (hFirst (earlier + 1) other hEarlier)

/-- Whatever the first argument is, only the later ones are searched. -/
theorem latePlace?_cons (argument : Argument) (rest : List Argument) :
    latePlace? (argument :: rest) = mappingPlace? 2 rest := by
  cases argument <;> rfl

theorem latePlace?_eq_some_iff {arguments : List Argument} {place : Nat} :
    latePlace? arguments = some place ↔ LateMapping arguments place := by
  cases arguments with
  | nil =>
      refine ⟨fun h => absurd h (by simp [latePlace?, mappingPlace?]), fun hLate => ?_⟩
      obtain ⟨mapping, hHere⟩ := hLate.here
      exact absurd hHere (by simp)
  | cons argument rest =>
      -- Place `2 + index` is the index `index` behind the first argument.
      have hBehind : ∀ index, (argument :: rest)[2 + index - 1]? = rest[index]? := by
        intro index
        rw [show 2 + index - 1 = index + 1 by omega]
        rfl
      rw [latePlace?_cons, mappingPlace?_eq_some_iff]
      constructor
      · rintro ⟨index, rfl, ⟨mapping, hHere⟩, hFirst⟩
        refine ⟨by omega, ⟨mapping, (hBehind index).trans hHere⟩, ?_⟩
        intro earlier other hLate hEarlier
        obtain ⟨earlier, rfl⟩ := Nat.exists_eq_add_of_le hLate
        rw [hBehind] at hEarlier
        exact Nat.add_le_add_left (hFirst earlier other hEarlier) 2
      · rintro ⟨hLate, ⟨mapping, hHere⟩, hFirst⟩
        obtain ⟨index, rfl⟩ := Nat.exists_eq_add_of_le hLate
        rw [hBehind] at hHere
        refine ⟨index, rfl, ⟨mapping, hHere⟩, fun earlier other hEarlier => ?_⟩
        have hPlace : 2 + index ≤ 2 + earlier :=
          hFirst (2 + earlier) other (by omega) ((hBehind earlier).trans hEarlier)
        omega

end Trailing

/-! ## Clauses one after the other -/

namespace Clause

/-- What each clause of a list adds, written on the bindings that the one before it has left. -/
def drafts (scope : Scope) (bindings : Bindings) : List Clause → List Draft
  | [] => []
  | clause :: rest =>
      clause.write scope bindings :: drafts scope (clause.write scope bindings).bindings rest

/-- The bindings after the last of some drafts; `bindings` are those before the first. -/
def bindingsAfter (bindings : Bindings) : List Draft → Bindings
  | [] => bindings
  | draft :: rest => bindingsAfter draft.bindings rest

/-- When a list of clauses goes through, no clause of it is stopped and what they add is joined. -/
theorem drafts_of_finish {scope : Scope} {clauses : List Clause} {bindings after : Bindings}
    {text : String} (h : (writeAll scope clauses).finish bindings = .ok (text, after)) :
    (∀ draft ∈ drafts scope bindings clauses, draft.fault = none) ∧
      text = String.join ((drafts scope bindings clauses).map Draft.text) ∧
      after = bindingsAfter bindings (drafts scope bindings clauses) := by
  induction clauses generalizing bindings text with
  | nil =>
      obtain ⟨rfl, rfl⟩ := Prod.mk.inj (Except.ok.inj h)
      exact ⟨by simp [drafts], rfl, rfl⟩
  | cons clause rest ih =>
      rw [writeAll, Step.finish_append] at h
      obtain ⟨⟨front, middle⟩, hClause, h⟩ := bind_eq_ok.mp h
      obtain ⟨⟨back, last⟩, hRest, hPair⟩ := bind_eq_ok.mp h
      obtain ⟨rfl, rfl⟩ := Prod.mk.inj (Except.ok.inj hPair)
      obtain ⟨hFault, rfl, rfl⟩ := Step.finish_eq_ok.mp hClause
      obtain ⟨hFaults, rfl, rfl⟩ := ih hRest
      refine ⟨?_, ?_, rfl⟩
      · simpa [drafts, hFault] using hFaults
      · simp [drafts, String.join_cons]

end Clause

/-! ## Calls -/

/-- The bindings that a call starts from: the leading mapping, or the plain values. -/
def opening (condition : Option Condition) (arguments : List Argument) : Bindings :=
  match callStyle condition arguments with
  | .named => .named ((leading? arguments).getD .empty)
  | .positional => .positional (seeds arguments)

/-- The plain values of a call that are passed through. -/
def passedThrough (condition : Option Condition) (arguments : List Argument) : List Value :=
  match callStyle condition arguments with
  | .named => seeds arguments
  | .positional => []

/-- The assignments of an update and the condition, which come before the clauses of a call. -/
def frontStep (scope : Scope) (assignments : Option (List Assignment))
    (condition : Option Condition) : Step :=
  Step.optional (Assignment.writeAll scope) assignments ++
    Step.optional (Condition.write scope) condition

theorem startOf_eq_opening (condition : Option Condition) (arguments : List Argument) :
    startOf condition (Trailing.sorted (leading? arguments) arguments) =
      (opening condition arguments, passedThrough condition arguments) := by
  rw [startOf_sorted, opening, passedThrough]
  cases callStyle condition arguments <;> rfl

section Calls

variable {scope : Scope} {assignments : Option (List Assignment)} {condition : Option Condition}
  {arguments : List Argument} {compiled : Compiled}

theorem compile_of_lateMapping {place : Nat} (h : LateMapping arguments place) :
    compile scope assignments condition arguments = .error (.lateMapping place) := by
  rw [compile_eq_run, Trailing.latePlace?_eq_some_iff.mpr h]

theorem callStyle_eq_named_iff :
    callStyle condition arguments = .named ↔
      (∃ mapping, arguments.head? = some (.mapping mapping)) ∨
        condition.any Condition.bindsByName = true ∨
        ∃ clause, .clause clause ∈ arguments ∧ clause.bindsByName = true := by
  have hLeading : leading? arguments = none ↔
      ¬ ∃ mapping, arguments.head? = some (.mapping mapping) := by
    cases arguments with
    | nil => simp [leading?]
    | cons argument rest => cases argument <;> simp [leading?, Argument.mapping?]
  have hPositional : callStyle condition arguments = .named ↔
      ¬ callStyle condition arguments = .positional := by
    cases callStyle condition arguments <;> simp
  rw [hPositional, callStyle_eq_positional_iff, hLeading]
  by_cases hMapping : ∃ mapping, arguments.head? = some (.mapping mapping)
  · simp [hMapping]
  · cases condition.any Condition.bindsByName <;> simp [hMapping]

/-- A call that goes through writes the assignments from its opening, then the condition, and then
the clauses. -/
theorem steps_of_compile (hOk : compile scope assignments condition arguments = .ok compiled) :
    ∃ start before after,
      (Step.optional (Assignment.writeAll scope) assignments).finish (opening condition arguments) =
        .ok (compiled.assignments.getD "", start) ∧
      (Step.optional (Condition.write scope) condition).finish start = .ok (compiled.text, before) ∧
      (Clause.writeAll scope (arguments.filterMap Argument.clause?)).finish before =
        .ok (compiled.tail, after) ∧
      compiled.parameters = .ofBindings (passedThrough condition arguments) after ∧
      compiled.paging = arguments.filterMap Argument.paging? := by
  rw [compile_eq_run, ← startOf_sorted, startOf_eq_opening] at hOk
  split at hOk
  · exact absurd hOk (by simp)
  · obtain ⟨⟨written, start⟩, hSet, hOk⟩ := bind_eq_ok.mp hOk
    obtain ⟨⟨text, before⟩, hText, hOk⟩ := bind_eq_ok.mp hOk
    obtain ⟨⟨tail, after⟩, hTail, hOk⟩ := bind_eq_ok.mp hOk
    obtain rfl := Except.ok.inj hOk
    have hWritten : (assignments.map fun _ => written).getD "" = written := by
      cases assignments with
      | some list => rfl
      | none => exact (congrArg Prod.fst (Except.ok.inj hSet))
    rw [optional_setPieces, optional_conditionPieces, Clause.writeAll_eq, hWritten]
    exact ⟨start, before, after, hSet, hText, hTail, rfl, rfl⟩

/-- The assignments and the condition as one step in front of the clauses. -/
theorem parts_of_compile (hOk : compile scope assignments condition arguments = .ok compiled) :
    ∃ before after,
      (frontStep scope assignments condition).finish (opening condition arguments) =
        .ok (compiled.assignments.getD "" ++ compiled.text, before) ∧
      (Clause.writeAll scope (arguments.filterMap Argument.clause?)).finish before =
        .ok (compiled.tail, after) ∧
      compiled.parameters = .ofBindings (passedThrough condition arguments) after ∧
      compiled.paging = arguments.filterMap Argument.paging? := by
  obtain ⟨start, before, after, hSet, hText, hRest⟩ := steps_of_compile hOk
  refine ⟨before, after, ?_, hRest⟩
  rw [frontStep, Step.finish_append]
  exact bind_eq_ok.mpr ⟨_, hSet, bind_eq_ok.mpr ⟨_, hText, rfl⟩⟩

theorem onlyAdds_frontStep : (frontStep scope assignments condition).OnlyAdds := by
  rw [frontStep, optional_setPieces, optional_conditionPieces]
  exact (Piece.onlyAdds_writeAll scope _).append (Piece.onlyAdds_writeAll scope _)

theorem grows_of_parts {before after : Bindings} {front tail : String} {clauses : List Clause}
    (hFront : (frontStep scope assignments condition).finish (opening condition arguments) =
      .ok (front, before))
    (hTail : (Clause.writeAll scope clauses).finish before = .ok (tail, after)) :
    (opening condition arguments).Grows after := by
  rw [Clause.writeAll_eq] at hTail
  exact (onlyAdds_frontStep.grows_of_finish hFront).trans
    ((Piece.onlyAdds_writeAll scope _).grows_of_finish hTail)

end Calls

/-- No argument of a call is lost, doubled or moved. A mapping behind the first place stops the
call, whatever else is wrong. If a call goes through, it is by name just when a mapping comes first
or something binds by name; the settings are handed on in their order; each clause is written on
what the assignments, the condition and the clauses before it have left, and the tail joins what
they add; by name, the plain values are passed through and the names of the leading mapping are the
first names, and by position the plain values are the first values. -/
theorem arguments_kept (scope : Scope) (assignments : Option (List Assignment))
    (condition : Option Condition) (arguments : List Argument) :
    (∀ place, LateMapping arguments place →
      compile scope assignments condition arguments = .error (.lateMapping place) ∧
        (Fault.lateMapping place).code = .wrongArgument) ∧
    ∀ compiled, compile scope assignments condition arguments = .ok compiled →
      (compiled.parameters.style = .named ↔
        (∃ mapping, arguments.head? = some (.mapping mapping)) ∨
          condition.any Condition.bindsByName = true ∨
          ∃ clause, .clause clause ∈ arguments ∧ clause.bindsByName = true) ∧
      compiled.paging = arguments.filterMap Argument.paging? ∧
      (∃ before,
        (frontStep scope assignments condition).finish (opening condition arguments) =
          .ok (compiled.assignments.getD "" ++ compiled.text, before) ∧
        let drafts := Clause.drafts scope before (arguments.filterMap Argument.clause?)
        (∀ draft ∈ drafts, draft.fault = none) ∧
        compiled.tail = String.join (drafts.map Draft.text) ∧
        compiled.parameters =
          .ofBindings (passedThrough condition arguments) (Clause.bindingsAfter before drafts)) ∧
      (compiled.parameters.style = .named →
        ∃ dict, compiled.parameters = .named dict (arguments.filterMap Argument.plain?) ∧
          ∀ mapping, arguments.head? = some (.mapping mapping) → mapping.keys <+: dict.keys) ∧
      (compiled.parameters.style = .positional →
        ∃ values, compiled.parameters = .positional values ∧
          arguments.filterMap Argument.plain? <+: values) := by
  refine ⟨fun place hLate => ⟨compile_of_lateMapping hLate, rfl⟩, fun compiled hOk => ?_⟩
  obtain ⟨before, after, hFront, hTail, hParameters, hPaging⟩ := parts_of_compile hOk
  have hStyle := style_of_compile hOk
  have hGrows := grows_of_parts hFront hTail
  refine ⟨hStyle ▸ callStyle_eq_named_iff, hPaging, ⟨before, hFront, ?_⟩, ?_, ?_⟩
  · obtain ⟨hFaults, hText, hAfter⟩ := Clause.drafts_of_finish hTail
    exact ⟨hFaults, hText, hAfter ▸ hParameters⟩
  · intro hNamed
    rw [hStyle] at hNamed
    simp only [opening, hNamed] at hGrows
    cases after with
    | positional values => exact hGrows.elim
    | named dict =>
        refine ⟨dict, ?_, fun mapping hMapping => ?_⟩
        · rw [hParameters, passedThrough, hNamed]
          rfl
        · have hLeading : leading? arguments = some mapping := by
            rw [leading?, hMapping]
            rfl
          rw [hLeading] at hGrows
          exact Dict.Grows.keys hGrows
  · intro hPositional
    rw [hStyle] at hPositional
    simp only [opening, hPositional] at hGrows
    cases after with
    | positional values => exact ⟨values, hParameters, hGrows⟩
    | named dict => exact hGrows.elim

/-- The column of the state. -/
def stateColumn : Field := ⟨"state", by decide +kernel, by decide⟩

/-- Two values, two clauses and a setting between each other. -/
def mixedArguments : List Argument :=
  [.value (.integer 1),
    .clause (.condition (.comparison (.scalar stateColumn none ⟨.string "OPEN", rfl⟩ none))),
    .paging (.limit 3), .value (.integer 2), .clause (.orderBy ⟨stateColumn, []⟩)]

/-- The mixed arguments by position, by name behind a mapping, and before a mapping. -/
theorem arguments_kept_when_mixed :
    (∃ placed, compile .standard none none mixedArguments = .ok placed ∧
      placed.paging = [.limit 3] ∧
      ∃ values, placed.parameters = .positional values ∧
        [.integer 1, .integer 2] <+: values) ∧
    (∃ asked, compile .standard none none
        (.mapping ⟨[("owner", .null)], by decide⟩ :: mixedArguments) = .ok asked ∧
      ∃ dict, asked.parameters = .named dict [.integer 1, .integer 2] ∧
        ["owner"] <+: dict.keys) ∧
    LateMapping (mixedArguments ++ [.mapping .empty]) 6 ∧
      compile .standard none none (mixedArguments ++ [.mapping .empty]) =
        .error (.lateMapping 6) := by
  have hPlaced : compile .standard none none mixedArguments =
      .ok ⟨none, "", "e.state = ?3 ORDER BY e.state",
        .positional [.integer 1, .integer 2, .string "OPEN"], [.limit 3]⟩ := rfl
  have hAsked : compile .standard none none
      (.mapping ⟨[("owner", .null)], by decide⟩ :: mixedArguments) =
      .ok ⟨none, "", "e.state = :state ORDER BY e.state",
        .named ⟨[("owner", .null), ("state", .string "OPEN")], by decide⟩
          [.integer 1, .integer 2], [.limit 3]⟩ := rfl
  have hLate : LateMapping (mixedArguments ++ [.mapping .empty]) 6 :=
    Trailing.latePlace?_eq_some_iff.mp rfl
  refine ⟨⟨_, hPlaced, ?_⟩, ⟨_, hAsked, ?_⟩, hLate, ?_⟩
  · obtain ⟨-, hKept⟩ := arguments_kept .standard none none mixedArguments
    obtain ⟨-, hPaging, -, -, hValues⟩ := hKept _ hPlaced
    exact ⟨hPaging, hValues rfl⟩
  · obtain ⟨-, hKept⟩ := arguments_kept .standard none none
      (.mapping ⟨[("owner", .null)], by decide⟩ :: mixedArguments)
    obtain ⟨-, -, -, hNames, -⟩ := hKept _ hAsked
    obtain ⟨dict, hParameters, hLeading⟩ := hNames rfl
    exact ⟨dict, hParameters, hLeading _ rfl⟩
  · exact ((arguments_kept .standard none none _).1 6 hLate).1

end BoundQuery
