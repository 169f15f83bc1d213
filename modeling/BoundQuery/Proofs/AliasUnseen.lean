import BoundQuery.Proofs.Call

/-!
# The alias never reaches the parameters

The alias and the rule for the fields that carry it shape the text of a query and nothing else. What
a piece binds is taken from its own field, operator, name and text, never from the qualified field
(`Piece.unwritten_finish`); so a run binds the same in every scope (`Piece.unwritten_run`), and
`scope_unseen` says of whole calls that two scopes give equal parameters and settings or the same
fault.
-/

namespace BoundQuery

/-- What a result says besides the text that is written. -/
def unwritten {α : Type} (result : Except Fault (String × α)) : Except Fault α :=
  result.map Prod.snd

/-! ## Pieces -/

/-- By position, a comparison adds the same values in every scope. -/
theorem Comparison.placed_snd (scope other : Scope) (size : Nat) (field operator : String)
    (value : Value) {plain plain' : String × List Value} (hPlain : plain.2 = plain'.2) :
    (Comparison.placed scope size field operator value plain).2 =
      (Comparison.placed other size field operator value plain').2 := by
  unfold Comparison.placed
  split
  · rfl
  · split
    · rfl
    · exact hPlain

/-- By name, a comparison asks for the same pairs in every scope. -/
theorem Comparison.asked_snd (scope other : Scope) (field operator : String) (value : Value)
    {plain plain' : String × List (String × Value)} (hPlain : plain.2 = plain'.2) :
    (Comparison.asked scope field operator value plain).2 =
      (Comparison.asked other field operator value plain').2 := by
  unfold Comparison.asked
  split
  · rfl
  · rfl
  · exact hPlain

namespace Piece

theorem unwritten_placed (scope other : Scope) (size : Nat) (piece : Piece) :
    unwritten (piece.placed scope size) = unwritten (piece.placed other size) := by
  cases piece with
  | null column operator name =>
      exact congrArg Except.ok (Comparison.placed_snd scope other size column.text _ .null rfl)
  | scalar column operator present name =>
      exact congrArg Except.ok
        (Comparison.placed_snd scope other size column.text _ present.value rfl)
  | _ => rfl

theorem unwritten_asked (scope other : Scope) (dict : Dict Value) (piece : Piece) :
    unwritten (piece.asked scope dict) = unwritten (piece.asked other dict) := by
  cases piece with
  | null column operator name =>
      exact congrArg Except.ok (Comparison.asked_snd scope other column.text _ .null rfl)
  | scalar column operator present name =>
      exact congrArg Except.ok (Comparison.asked_snd scope other column.text _ present.value rfl)
  | _ => rfl

/-- Over the same bindings, a piece leaves the same bindings in every scope, or the same fault. -/
theorem unwritten_finish (scope other : Scope) (piece : Piece) (bindings : Bindings) :
    unwritten ((piece.write scope).finish bindings) =
      unwritten ((piece.write other).finish bindings) := by
  cases bindings with
  | positional values =>
      have hAfter : ∀ any : Scope, unwritten ((piece.write any).finish (.positional values)) =
          (unwritten (piece.placed any values.length)).map
            fun more => .positional (values ++ more) := by
        intro any
        rw [finish_positional]
        cases piece.placed any values.length <;> rfl
      rw [hAfter scope, hAfter other, unwritten_placed scope other]
  | named dict =>
      have hAfter : ∀ any : Scope, unwritten ((piece.write any).finish (.named dict)) =
          unwritten (piece.asked any dict) >>= fun pairs =>
            (dict.bindEach pairs).map Bindings.named := by
        intro any
        rw [finish_named]
        cases piece.asked any dict with
        | error fault => rfl
        | ok asked =>
            simp only [bind, Except.bind, Bindings.binding, unwritten, Except.map]
            cases dict.bindEach asked.2 <;> rfl
      rw [hAfter scope, hAfter other, unwritten_asked scope other]

/-! ## Runs -/

theorem unwritten_run_cons (scope : Scope) (piece : Piece) (rest : List Piece)
    (bindings : Bindings) :
    unwritten (run scope (piece :: rest) bindings) =
      unwritten ((piece.write scope).finish bindings) >>= fun middle =>
        unwritten (run scope rest middle) := by
  rw [run_cons]
  cases (piece.write scope).finish bindings with
  | error fault => rfl
  | ok front =>
      simp only [bind, Except.bind, unwritten, Except.map]
      cases run scope rest front.2 <;> rfl

/-- A run binds the same in every scope, or is stopped by the same fault. -/
theorem unwritten_run (scope other : Scope) (pieces : List Piece) (bindings : Bindings) :
    unwritten (run scope pieces bindings) = unwritten (run other pieces bindings) := by
  induction pieces generalizing bindings with
  | nil => rfl
  | cons piece rest ih =>
      rw [unwritten_run_cons, unwritten_run_cons, unwritten_finish scope other]
      simp only [ih]

end Piece

/-! ## Calls -/

/-- What a call gives besides its texts. -/
def Compiled.handed (compiled : Compiled) : Parameters × List Paging :=
  (compiled.parameters, compiled.paging)

/-- What a call gives besides its texts depends on what its three runs bind. -/
theorem map_handed_compile (scope : Scope) (assignments : Option (List Assignment))
    (condition : Option Condition) (arguments : List Argument) :
    (compile scope assignments condition arguments).map Compiled.handed = do
      let trailing ← Trailing.ofArguments arguments
      let (bindings, passthrough) := startOf condition trailing
      let bindings ← unwritten (Piece.run scope (setPieces assignments) bindings)
      let bindings ← unwritten (Piece.run scope (conditionPieces condition) bindings)
      let bindings ← unwritten (Piece.run scope trailing.pieces bindings)
      return (.ofBindings passthrough bindings, trailing.paging) := by
  rw [compile_eq]
  cases Trailing.ofArguments arguments with
  | error fault => rfl
  | ok trailing =>
      simp only [bind, Except.bind, unwritten]
      cases Piece.run scope (setPieces assignments) (startOf condition trailing).1 with
      | error fault => rfl
      | ok set =>
          simp only [Except.map]
          cases Piece.run scope (conditionPieces condition) set.2 with
          | error fault => rfl
          | ok text =>
              simp only
              cases Piece.run scope trailing.pieces text.2 <;> rfl

/-- Two calls that differ in their scopes alone go through with equal parameters and equal settings,
or are stopped by the same fault. -/
theorem scope_unseen (scope other : Scope) (assignments : Option (List Assignment))
    (condition : Option Condition) (arguments : List Argument) :
    (∃ compiled compiled', compile scope assignments condition arguments = .ok compiled ∧
      compile other assignments condition arguments = .ok compiled' ∧
      compiled.parameters = compiled'.parameters ∧ compiled.paging = compiled'.paging) ∨
    ∃ fault, compile scope assignments condition arguments = .error fault ∧
      compile other assignments condition arguments = .error fault := by
  have hSame : (compile scope assignments condition arguments).map Compiled.handed =
      (compile other assignments condition arguments).map Compiled.handed := by
    simp only [map_handed_compile, Piece.unwritten_run scope other]
  cases hCompiled : compile scope assignments condition arguments with
  | error fault =>
      rw [hCompiled] at hSame
      exact .inr ⟨fault, rfl, map_eq_error.mp hSame.symm⟩
  | ok compiled =>
      rw [hCompiled] at hSame
      obtain ⟨compiled', hCompiled', hHanded⟩ := map_eq_ok.mp hSame.symm
      obtain ⟨hParameters, hPaging⟩ := Prod.mk.inj hHanded
      exact .inl ⟨compiled, compiled', rfl, hCompiled', hParameters.symm, hPaging.symm⟩

end BoundQuery
