import BoundQuery.Compile

/-!
# Laws of steps

Steps compose as texts do: `append` is associative with `emit ""` as its unit, and two texts in a
row are one text. `finish_append` is the law for steps that are not stopped: both parts finish, the
second from the bindings of the first, and the texts are joined. The laws of computations that may
fail come first: what a chain of them, or one with its result changed, says about its parts.
-/

namespace BoundQuery

/-! ## Computations that may fail -/

section Outcomes

variable {ε α β : Type}

/-- A computation goes through with the next one when both do. -/
theorem bind_eq_ok {first : Except ε α} {next : α → Except ε β} {result : β} :
    first >>= next = .ok result ↔ ∃ middle, first = .ok middle ∧ next middle = .ok result := by
  cases first with
  | error fault => simp [bind, Except.bind]
  | ok middle => simp [bind, Except.bind]

theorem bind_eq_error {first : Except ε α} {next : α → Except ε β} {fault : ε} :
    first >>= next = .error fault ↔
      first = .error fault ∨ ∃ middle, first = .ok middle ∧ next middle = .error fault := by
  cases first with
  | error other => simp [bind, Except.bind]
  | ok middle => simp [bind, Except.bind]

theorem map_eq_ok {first : Except ε α} {f : α → β} {result : β} :
    first.map f = .ok result ↔ ∃ value, first = .ok value ∧ f value = result := by
  cases first with
  | error fault => simp [Except.map]
  | ok value => simp [Except.map]

theorem map_eq_error {first : Except ε α} {f : α → β} {fault : ε} :
    first.map f = .error fault ↔ first = .error fault := by
  cases first with
  | error other => simp [Except.map]
  | ok value => simp [Except.map]

theorem exists_error_iff {first : Except ε α} :
    (∃ fault, first = .error fault) ↔ ¬ ∃ value, first = .ok value := by
  cases first with
  | error fault => simp
  | ok value => simp

/-- Computations whose results look alike go through together and fail alike. -/
theorem outcome_of_map_eq {first second : Except ε α} {f : α → β}
    (h : first.map f = second.map f) :
    ((∃ value, first = .ok value) ↔ ∃ value, second = .ok value) ∧
      ∀ fault, first = .error fault ↔ second = .error fault := by
  refine ⟨⟨?_, ?_⟩, fun fault => ?_⟩
  · rintro ⟨value, rfl⟩
    obtain ⟨other, hOther, -⟩ := map_eq_ok.mp h.symm
    exact ⟨other, hOther⟩
  · rintro ⟨value, rfl⟩
    obtain ⟨other, hOther, -⟩ := map_eq_ok.mp h
    exact ⟨other, hOther⟩
  · rw [← @map_eq_error _ _ _ first f, h, map_eq_error]

end Outcomes

namespace Step

theorem append_assoc (first second third : Step) :
    first ++ second ++ third = first ++ (second ++ third) := by
  funext bindings
  simp only [append_apply]
  cases hFirst : (first bindings).fault with
  | some fault => simp [hFirst]
  | none =>
      cases hSecond : (second (first bindings).bindings).fault with
      | some fault => simp [hSecond]
      | none => simp [String.append_assoc]

@[simp] theorem emit_append_emit (front back : String) :
    emit front ++ emit back = emit (front ++ back) :=
  rfl

@[simp] theorem emit_empty_append (step : Step) : emit "" ++ step = step := by
  funext bindings
  simp [append_apply, emit]

@[simp] theorem append_emit_empty (step : Step) : step ++ emit "" = step := by
  funext bindings
  rw [append_apply]
  cases hFault : (step bindings).fault with
  | some fault => rfl
  | none => simp [emit, ← hFault]

theorem emit_append_step (front back : String) (step : Step) :
    emit (front ++ back) ++ step = emit front ++ (emit back ++ step) := by
  rw [← emit_append_emit, append_assoc]

/-! ## Finishing -/

@[simp] theorem finish_emit (text : String) (bindings : Bindings) :
    (emit text).finish bindings = .ok (text, bindings) := rfl

@[simp] theorem finish_ofBinding (bind : Bindings → Except Fault (String × Bindings))
    (bindings : Bindings) : (ofBinding bind).finish bindings = bind bindings := by
  simp only [finish, ofBinding]
  cases bind bindings <;> rfl

/-- A step finishes, with its text and its bindings, when nothing stops it. -/
theorem finish_eq_ok {step : Step} {bindings after : Bindings} {text : String} :
    step.finish bindings = .ok (text, after) ↔
      (step bindings).fault = none ∧ (step bindings).text = text ∧
        (step bindings).bindings = after := by
  rw [finish]
  cases (step bindings).fault with
  | some fault => simp
  | none => simp

theorem finish_append (first second : Step) (bindings : Bindings) :
    (first ++ second).finish bindings = do
      let (front, middle) ← first.finish bindings
      let (back, after) ← second.finish middle
      return (front ++ back, after) := by
  simp only [finish, append_apply]
  cases hFirst : (first bindings).fault with
  | some fault => simp [hFirst, bind, Except.bind]
  | none =>
      simp only [bind, Except.bind]
      cases (second (first bindings).bindings).fault <;> rfl

end Step

end BoundQuery
