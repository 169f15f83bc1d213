import BoundQuery.Draft.Snippet
import BoundQuery.Proofs.Placeholder.Substitution

/-!
# Binding one value after the other

By position, the values of a snippet are bound while its text is rewritten: `Snippet.pushNext` takes
one for each positional placeholder. `run_substitute_pushNext` says what comes of a whole text with
as many values as places: the values stand behind those bound before, in order, and the text is
numbered from the first new place on. The induction is over the placeholders, and carries the values
that are left.
-/

namespace BoundQuery

open Placeholder (answersFrom countAnswer countNext exchanged kinds numberFrom positionalCount
  positionalText run_bind_of_ok substitute)

namespace Pushing

/-- What may be refused is refused before anything that comes after it is bound. -/
theorem run_ofExcept_bind {α β : Type} (outcome : Except Fault α) (next : α → Pushing β)
    (values : List Value) :
    (MonadExcept.ofExcept outcome >>= next : Pushing β).run.run values =
      match outcome with
      | .ok result => (next result).run.run values
      | .error fault => (.error fault, values) := by
  cases outcome <;> rfl

theorem run_forM_push (more values : List Value) :
    (more.forM fun value => discard (push value) : Pushing Unit).run.run values =
      (.ok (), values ++ more) := by
  induction more generalizing values with
  | nil => rw [List.append_nil]; rfl
  | cons value rest ih =>
      have hPush : (discard (push value) : Pushing Unit).run.run values =
          (.ok (), values ++ [value]) := rfl
      rw [List.forM, run_bind_of_ok hPush, ih, ← List.append_cons]

end Pushing

namespace Snippet

/-- One placeholder after the other: each positional one takes a value and gets its number. -/
theorem run_mapM_pushNext {list : List Placeholder} {left : List Value}
    (hEnough : list.countP (·.kind.isPositional) ≤ left.length) (values : List Value) :
    ((list.mapM pushNext).run left).run.run values =
      (.ok ((answersFrom countAnswer countNext (values.length + 1) (list.map (·.kind))).map
          (·.map positionalText), left.drop (list.countP (·.kind.isPositional))),
        values ++ left.take (list.countP (·.kind.isPositional))) := by
  induction list generalizing left values with
  | nil =>
      rw [List.countP_nil, List.take_zero, List.append_nil]
      rfl
  | cons token rest ih =>
      obtain ⟨kind, span⟩ := token
      cases kind with
      | positional number =>
          rw [List.countP_cons_of_pos rfl] at hEnough ⊢
          obtain ⟨value, left, rfl⟩ : ∃ value more, left = value :: more :=
            List.exists_cons_of_length_pos (by omega)
          have hToken : ((pushNext ⟨.positional number, span⟩).run (value :: left)).run.run values =
              (.ok (some (positionalText (values ++ [value]).length), left), values ++ [value]) :=
            rfl
          have hRest := ih (Nat.le_of_succ_le_succ hEnough) (values ++ [value])
          rw [List.mapM_cons, StateT.run_bind, run_bind_of_ok hToken, StateT.run_bind,
            run_bind_of_ok hRest, List.length_append, List.append_assoc]
          rfl
      | named name =>
          rw [List.countP_cons_of_neg (by simp [Placeholder.Kind.isPositional])] at hEnough ⊢
          have hToken : ((pushNext ⟨.named name, span⟩).run left).run.run values =
              (.ok (none, left), values) := rfl
          rw [List.mapM_cons, StateT.run_bind, run_bind_of_ok hToken, StateT.run_bind,
            run_bind_of_ok (ih hEnough values)]
          rfl

/-- As many values as places: all are bound in order, and the places get their numbers. -/
theorem run_substitute_pushNext {text : String} {values : List Value}
    (hCount : positionalCount text = values.length) (bound : List Value) :
    ((substitute pushNext text).run' values).run.run bound =
      (.ok (numberFrom text (bound.length + 1)), bound ++ values) := by
  have hAll := run_mapM_pushNext (Nat.le_of_eq hCount) bound
  have hPlaces : (placeholders text).countP (·.kind.isPositional) = values.length := hCount
  rw [hPlaces, List.drop_length, List.take_length] at hAll
  rw [StateT.run'_eq, Placeholder.substitute_eq_mapM, StateT.run_map, Functor.map_map,
    map_eq_pure_bind, run_bind_of_ok hAll, Placeholder.numberFrom_eq_exchanged]
  show (Except.ok (String.ofList (Placeholder.replaced _ _)), bound ++ values) = _
  rw [Placeholder.replaced_positionalText]
  rfl

end Snippet

end BoundQuery
