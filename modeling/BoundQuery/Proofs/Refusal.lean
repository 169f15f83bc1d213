import BoundQuery.Proofs.Arguments
import BoundQuery.Proofs.BindingSeries
import BoundQuery.Proofs.Draft.AppendOnly
import BoundQuery.Proofs.HavingNames
import BoundQuery.Proofs.SubNumbers

/-!
# Refused snippets

A snippet with arguments is checked as a whole before the first of its values is bound: the kinds of
its arguments, the numbers in its text and the count of its values. `Step.WholeAt` says that a step
is written as a whole or not at all. The one snippet that can be stopped half way is a single
mapping over named bindings, which may clash with what is bound; all others are whole
(`wholeAt_writeSub`, `wholeAt_writeHaving`), since what comes after the checks cannot fail: the
names that take the values of a HAVING text are new and distinct. `SubRefused` and `HavingRefused`
list the reasons for a refusal, and `refused_snippet_binds_nothing` says what is left then.
-/

namespace BoundQuery

/-! ## Steps that are written as a whole or not at all -/

/-- A step that writes nothing and binds nothing over some bindings if it is stopped. -/
def Step.WholeAt (step : Step) (bindings : Bindings) : Prop :=
  ∀ fault, (step bindings).fault = some fault → step bindings = ⟨"", bindings, some fault⟩

namespace Step

theorem wholeAt_of_finish {step : Step} {bindings : Bindings} {result : String × Bindings}
    (h : step.finish bindings = .ok result) : step.WholeAt bindings := by
  intro fault hFault
  simp only [finish, hFault] at h
  exact absurd h (by simp)

theorem wholeAt_emit (text : String) (bindings : Bindings) : (emit text).WholeAt bindings :=
  wholeAt_of_finish (finish_emit text bindings)

theorem wholeAt_fail (fault : Fault) (bindings : Bindings) : (fail fault).WholeAt bindings := by
  intro other hOther
  obtain rfl : fault = other := Option.some.inj hOther
  rfl

/-- By position, a snippet that is refused has bound none of its values. -/
theorem wholeAt_of_placed {step : Step} {values : List Value}
    {placed : Except Fault (String × List Value)}
    (h : step (.positional values) = Draft.ofPlaced values placed) :
    step.WholeAt (.positional values) := by
  intro fault hFault
  rw [h] at hFault ⊢
  cases placed with
  | ok written => exact absurd hFault (by simp [Draft.ofPlaced])
  | error other =>
      obtain rfl : other = fault := Option.some.inj hFault
      rfl

theorem WholeAt.congr {first second : Step} {bindings : Bindings}
    (hSame : first bindings = second bindings) (h : second.WholeAt bindings) :
    first.WholeAt bindings := by
  intro fault hFault
  rw [hSame] at hFault ⊢
  exact h fault hFault

theorem finish_eq_error {step : Step} {bindings : Bindings} {fault : Fault} :
    step.finish bindings = .error fault ↔ (step bindings).fault = some fault := by
  rw [finish]
  cases (step bindings).fault with
  | some other => simp
  | none => simp

end Step

/-- A whole step that is stopped leaves a manuscript as it was. -/
theorem Manuscript.write_of_wholeAt {step : Step} {page after : Manuscript} {fault : Fault}
    (hWhole : step.WholeAt page.bindings) :
    write step page = (after, some fault) ↔
      after = page ∧ step.finish page.bindings = .error fault := by
  rw [Step.finish_eq_error]
  constructor
  · intro hWrite
    obtain ⟨hPage, hFault⟩ := Prod.mk.inj hWrite
    have hDraft := hWhole fault hFault
    refine ⟨?_, hFault⟩
    rw [← hPage, hDraft, String.append_empty]
  · rintro ⟨rfl, hFault⟩
    have hDraft := hWhole fault hFault
    simp only [write, hDraft, String.append_empty]

namespace Snippet

open Placeholder (FirstSkip InSequence kinds names positionalCount taken)

/-! ## Snippets are whole -/

/-- By name, the values of a HAVING text are bound after all checks, and then nothing stops it. -/
theorem wholeAt_writeHavingNamed (text : String) (arguments : List Argument) (dict : Dict Value)
    {step : Step} (hStep : step (.named dict) = writeHavingNamed text arguments dict) :
    step.WholeAt (.named dict) := by
  intro fault hFault
  rw [hStep] at hFault ⊢
  unfold writeHavingNamed at hFault ⊢
  cases hPlain : Argument.plainValues "having clause" text arguments with
  | error other =>
      obtain rfl : other = fault := by simpa [hPlain] using hFault
      rfl
  | ok values =>
      simp only [hPlain] at hFault ⊢
      by_cases hCount : (unboundNames dict (names text)).length = values.length
      · -- As many values as new names: no name of the pairs is bound, or comes twice.
        obtain ⟨last, hBound, -⟩ := bindEach_unboundNames dict (names text) hCount
        have hAll : dict.bindAll ((unboundNames dict (names text)).zip values) = (last, none) :=
          Dict.bindAll_eq_none_iff.mpr hBound
        rw [if_pos hCount, Step.ofPairs, hAll] at hFault
        exact absurd hFault (by simp)
      · rw [if_neg hCount] at hFault ⊢
        obtain rfl := Option.some.inj hFault
        rfl

section Whole

variable {arguments : List Argument} {bindings : Bindings}
  (hMapping : ¬ (bindings.style = .named ∧ ∃ more, arguments = [.mapping more]))
include hMapping

theorem only?_eq_none {dict : Dict Value} (hNamed : bindings = .named dict) :
    Argument.only? arguments = none := by
  cases hOnly : Argument.only? arguments with
  | none => rfl
  | some more =>
      have hArguments : arguments = [.mapping more] := by
        unfold Argument.only? at hOnly
        split at hOnly
        · rw [Option.some.inj hOnly]
        · exact absurd hOnly (by simp)
      exact absurd ⟨by rw [hNamed]; rfl, more, hArguments⟩ hMapping

theorem wholeAt_writeSub (text : String) : (writeSub text arguments).WholeAt bindings := by
  cases arguments with
  | nil => exact Step.wholeAt_emit text bindings
  | cons argument rest =>
      cases bindings with
      | positional values =>
          exact Step.wholeAt_of_placed (writeSub_positional text argument rest values)
      | named dict =>
          have hStep := Piece.writeSub_named text argument rest dict
          rw [only?_eq_none hMapping rfl] at hStep
          exact .congr hStep (Step.wholeAt_fail (.needsMapping text) _)

theorem wholeAt_writeHaving (text : String) : (writeHaving text arguments).WholeAt bindings := by
  cases arguments with
  | nil => exact Step.wholeAt_emit text bindings
  | cons argument rest =>
      cases bindings with
      | positional values =>
          exact Step.wholeAt_of_placed (writeHaving_positional text argument rest values)
      | named dict =>
          have hStep := Piece.writeHaving_named text argument rest dict
          rw [only?_eq_none hMapping rfl] at hStep
          exact wholeAt_writeHavingNamed text (argument :: rest) dict hStep

end Whole

/-! ## Why a snippet is refused -/

/-- Why a sub-expression is refused, unless it has a single mapping by name: by name nothing but
such a mapping will do, and by position the arguments are plain values, one for each place. -/
inductive SubRefused (text : String) (arguments : List Argument) : Bindings → Fault → Prop
  | unnamed (dict : Dict Value) (hSome : arguments ≠ []) :
      SubRefused text arguments (.named dict) (.needsMapping text)
  | notPlain (bound front : List Value) (other : Argument) (rest : List Argument)
      (hArguments : arguments = front.map .value ++ other :: rest) (hOther : other.plain? = none) :
      SubRefused text arguments (.positional bound)
        (.notPlain "sub-expression" text other.kindText)
  | miscount (bound values : List Value) (hArguments : arguments = values.map .value)
      (hSome : values ≠ []) (hCount : positionalCount text ≠ values.length) :
      SubRefused text arguments (.positional bound)
        (.miscount text (positionalCount text) values.length)

/-- The names in a text that are not bound, in the order in which they first come. -/
def freshNames (dict : Dict Value) (text : String) : List String :=
  ((names text).filter (· ∉ dict.keys)).eraseDups

/-- Why a HAVING text is refused, unless it has a single mapping by name: the arguments are plain
values, one for each new name or for each new number, and no number is skipped. -/
inductive HavingRefused (text : String) (arguments : List Argument) : Bindings → Fault → Prop
  | notPlain (bindings : Bindings) (front : List Value) (other : Argument) (rest : List Argument)
      (hArguments : arguments = front.map .value ++ other :: rest) (hOther : other.plain? = none) :
      HavingRefused text arguments bindings (.notPlain "having clause" text other.kindText)
  | outOfSequence (bound values : List Value) (token : Placeholder) (expected number : Nat)
      (hArguments : arguments = values.map .value) (hSome : values ≠ [])
      (hSkip : FirstSkip (bound.length + 1) (placeholders text) token expected number) :
      HavingRefused text arguments (.positional bound)
        (.outOfSequence text expected number token.span)
  | miscount (bound values : List Value) (hArguments : arguments = values.map .value)
      (hSome : values ≠ []) (hSequence : InSequence (bound.length + 1) (kinds text))
      (hCount : taken (bound.length + 1) (kinds text) ≠ values.length) :
      HavingRefused text arguments (.positional bound)
        (.miscount text (taken (bound.length + 1) (kinds text)) values.length)
  | miscountNames (dict : Dict Value) (values : List Value)
      (hArguments : arguments = values.map .value) (hSome : values ≠ [])
      (hCount : (freshNames dict text).length ≠ values.length) :
      HavingRefused text arguments (.named dict)
        (.miscount text (freshNames dict text).length values.length)

/-- Arguments are plain values, or one of them is the first that is not. -/
theorem values_or_other (arguments : List Argument) :
    (∃ values : List Value, arguments = values.map .value) ∨
      ∃ (front : List Value) (other : Argument) (rest : List Argument),
        arguments = front.map .value ++ other :: rest ∧ other.plain? = none := by
  induction arguments with
  | nil => exact .inl ⟨[], rfl⟩
  | cons argument rest ih =>
      cases hPlain : argument.plain? with
      | none => exact .inr ⟨[], argument, rest, rfl, hPlain⟩
      | some value =>
          obtain rfl : argument = .value value := by
            cases argument <;> simp_all [Argument.plain?]
          rcases ih with ⟨values, rfl⟩ | ⟨front, other, later, rfl, hOther⟩
          · exact .inl ⟨value :: values, rfl⟩
          · exact .inr ⟨value :: front, other, later, rfl, hOther⟩

/-- The first argument that is not a plain value is the one that is named in the message. -/
theorem plainValues_of_other (kind text : String) (front : List Value) {other : Argument}
    (rest : List Argument) (hOther : other.plain? = none) :
    Argument.plainValues kind text (front.map .value ++ other :: rest) =
      .error (.notPlain kind text other.kindText) := by
  induction front with
  | nil =>
      cases other with
      | value plain => exact absurd hOther (by simp [Argument.plain?])
      | mapping more => rfl
      | clause part => rfl
      | paging setting => rfl
  | cons value front ih =>
      show (Argument.plainValues kind text (front.map .value ++ other :: rest) >>= fun later =>
        pure (value :: later)) = _
      rw [ih]
      rfl

theorem finish_sub_of_other (text : String) (bound front : List Value) {other : Argument}
    (rest : List Argument) (hOther : other.plain? = none) :
    (writeSub text (front.map .value ++ other :: rest)).finish (.positional bound) =
      .error (.notPlain "sub-expression" text other.kindText) := by
  rw [Piece.finish_sub_positional, if_neg (by simp), placedSub, plainValues_of_other _ _ _ _ hOther]
  rfl

section Refused

variable {arguments : List Argument} {bindings : Bindings}
  (hMapping : ¬ (bindings.style = .named ∧ ∃ more, arguments = [.mapping more]))
include hMapping

theorem finish_sub_unnamed (text : String) {dict : Dict Value} (hNamed : bindings = .named dict)
    (hSome : arguments ≠ []) :
    (writeSub text arguments).finish bindings = .error (.needsMapping text) := by
  have hOnly := only?_eq_none hMapping hNamed
  rw [hNamed, Piece.finish_sub_named, if_neg (by simpa using hSome), askedSub, hOnly]
  rfl

theorem finish_sub_eq_error_iff (text : String) (fault : Fault) :
    (writeSub text arguments).finish bindings = .error fault ↔
      SubRefused text arguments bindings fault := by
  constructor
  · intro hError
    cases bindings with
    | named dict =>
        by_cases hSome : arguments = []
        · rw [hSome] at hError
          exact absurd hError (by simp [writeSub])
        · have hOutcome := finish_sub_unnamed hMapping text rfl hSome
          obtain rfl := Except.error.inj (hOutcome.symm.trans hError)
          exact .unnamed dict hSome
    | positional bound =>
        rcases values_or_other arguments with
          ⟨values, hArguments⟩ | ⟨front, other, rest, hArguments, hOther⟩
        · rw [hArguments, finish_sub_values] at hError
          by_cases hGoes : values = [] ∨ positionalCount text = values.length
          · rw [if_pos hGoes] at hError
            exact absurd hError (by simp)
          · rw [if_neg hGoes] at hError
            obtain ⟨hSome, hCount⟩ := not_or.mp hGoes
            obtain rfl := Except.error.inj hError
            exact .miscount bound values hArguments hSome hCount
        · rw [hArguments, finish_sub_of_other text bound front rest hOther] at hError
          obtain rfl := Except.error.inj hError
          exact .notPlain bound front other rest hArguments hOther
  · intro hRefused
    cases hRefused with
    | unnamed dict hSome => exact finish_sub_unnamed hMapping text rfl hSome
    | notPlain bound front other rest hArguments hOther =>
        rw [hArguments, finish_sub_of_other text bound front rest hOther]
    | miscount bound values hArguments hSome hCount =>
        rw [hArguments, finish_sub_values, if_neg (not_or.mpr ⟨hSome, hCount⟩)]

theorem finish_having_of_other (text : String) (front : List Value) {other : Argument}
    (rest : List Argument) (hArguments : arguments = front.map .value ++ other :: rest)
    (hOther : other.plain? = none) :
    (writeHaving text arguments).finish bindings =
      .error (.notPlain "having clause" text other.kindText) := by
  have hSome : ¬ arguments.isEmpty = true := by simp [hArguments]
  cases bindings with
  | named dict =>
      have hOnly := only?_eq_none hMapping rfl
      rw [Piece.finish_having_named, if_neg hSome, askedHaving, hOnly, hArguments,
        plainValues_of_other _ _ _ _ hOther]
      rfl
  | positional bound =>
      rw [Piece.finish_having_positional, if_neg hSome, placedHaving, hArguments,
        plainValues_of_other _ _ _ _ hOther]
      rfl

theorem finish_having_eq_error_iff (text : String) (fault : Fault) :
    (writeHaving text arguments).finish bindings = .error fault ↔
      HavingRefused text arguments bindings fault := by
  constructor
  · intro hError
    rcases values_or_other arguments with
      ⟨values, hArguments⟩ | ⟨front, other, rest, hArguments, hOther⟩
    · rw [hArguments] at hError
      by_cases hSome : values = []
      · rw [hSome] at hError
        exact absurd hError (by simp [writeHaving])
      cases bindings with
      | named dict =>
          have hFresh : unboundNames dict (names text) = freshNames dict text :=
            unboundNames_eq dict (names text)
          by_cases hCount : (freshNames dict text).length = values.length
          · obtain ⟨last, hOk, -⟩ := finish_having_of_count hSome dict (hFresh ▸ hCount)
            exact absurd (hOk.symm.trans hError) (by simp)
          · rw [finish_having_names hSome, hFresh, if_neg hCount] at hError
            obtain rfl := Except.error.inj hError
            exact .miscountNames dict values hArguments hSome hCount
      | positional bound =>
          rcases inSequence_or_firstSkip (bound.length + 1) (placeholders text) with
            hSequence | ⟨token, expected, number, hSkip⟩
          · rw [finish_having_of_inSequence hSome bound hSequence] at hError
            by_cases hCount : taken (bound.length + 1) (kinds text) = values.length
            · rw [if_pos hCount] at hError
              exact absurd hError (by simp)
            · rw [if_neg hCount] at hError
              obtain rfl := Except.error.inj hError
              exact .miscount bound values hArguments hSome hSequence hCount
          · rw [finish_having_of_firstSkip hSome bound hSkip] at hError
            obtain rfl := Except.error.inj hError
            exact .outOfSequence bound values token expected number hArguments hSome hSkip
    · rw [finish_having_of_other hMapping text front rest hArguments hOther] at hError
      obtain rfl := Except.error.inj hError
      exact .notPlain bindings front other rest hArguments hOther
  · intro hRefused
    cases hRefused with
    | notPlain bindings front other rest hArguments hOther =>
        exact finish_having_of_other hMapping text front rest hArguments hOther
    | outOfSequence bound values token expected number hArguments hSome hSkip =>
        rw [hArguments, finish_having_of_firstSkip hSome bound hSkip]
    | miscount bound values hArguments hSome hSequence hCount =>
        rw [hArguments, finish_having_of_inSequence hSome bound hSequence, if_neg hCount]
    | miscountNames dict values hArguments hSome hCount =>
        rw [hArguments, finish_having_names hSome, unboundNames_eq]
        exact if_neg hCount

end Refused

/-! ## What is left of a manuscript -/

theorem write_having_refused_iff (text : String) {arguments : List Argument} (page : Manuscript)
    (hMapping : ¬ (page.bindings.style = .named ∧ ∃ more, arguments = [.mapping more]))
    (after : Manuscript) (fault : Fault) :
    Manuscript.write (writeHaving text arguments) page = (after, some fault) ↔
      after = page ∧ HavingRefused text arguments page.bindings fault := by
  rw [Manuscript.write_of_wholeAt (wholeAt_writeHaving hMapping text),
    finish_having_eq_error_iff hMapping]

/-- A snippet that is not a single mapping over named bindings. A sub-expression is refused for one
of its reasons and for nothing else, and then text and bindings are as before. A HAVING text is
refused for one of its own, whether it is written on its own or as a clause, and then the bindings
are as before and the text has gained nothing but the word HAVING of the clause. -/
theorem refused_snippet_binds_nothing (scope : Scope) (text : String) (arguments : List Argument)
    (page : Manuscript)
    (hMapping : ¬ (page.bindings.style = .named ∧ ∃ more, arguments = [.mapping more])) :
    (∀ after fault, Manuscript.write (writeSub text arguments) page = (after, some fault) ↔
      after = page ∧ SubRefused text arguments page.bindings fault) ∧
    (∀ after fault, Manuscript.write (writeHaving text arguments) page = (after, some fault) ↔
      after = page ∧ HavingRefused text arguments page.bindings fault) ∧
    ∀ after fault,
      Manuscript.write ((Clause.having (.text (.mk text arguments))).write scope) page =
          (after, some fault) ↔
        after = ⟨page.text ++ " HAVING ", page.bindings⟩ ∧
          HavingRefused text arguments page.bindings fault := by
  refine ⟨?_, write_having_refused_iff text page hMapping, ?_⟩
  · intro after fault
    rw [Manuscript.write_of_wholeAt (wholeAt_writeSub hMapping text),
      finish_sub_eq_error_iff hMapping]
  · intro after fault
    -- The word is written whatever comes, and the text behind it meets the same bindings.
    have hClause :
        Manuscript.write ((Clause.having (.text (.mk text arguments))).write scope) page =
          Manuscript.write (writeHaving text arguments)
            ⟨page.text ++ " HAVING ", page.bindings⟩ := by
      rw [Clause.write, Having.write, Manuscript.write_append]
      rfl
    rw [hClause]
    exact write_having_refused_iff text ⟨page.text ++ " HAVING ", page.bindings⟩ hMapping after
      fault

/-- A clause behind one value: its first two places are new numbers, the third skips one. -/
theorem refused_snippet_binds_nothing_skipping :
    ¬ ((Bindings.positional [.integer 7]).style = .named ∧
        ∃ more, [Argument.value (.integer 1), .value .null] = [.mapping more]) ∧
    Manuscript.write
        ((Clause.having (.text (.mk "COUNT(e) > ? AND MIN(e.a) > ?3 AND MAX(e.a) < ?5"
          [.value (.integer 1), .value .null]))).write Scope.standard)
        ⟨"e.a = ?1", .positional [.integer 7]⟩ =
      (⟨"e.a = ?1 HAVING ", .positional [.integer 7]⟩,
        some (.outOfSequence "COUNT(e) > ? AND MIN(e.a) > ?3 AND MAX(e.a) < ?5" 4 5 ⟨46, 48⟩)) ∧
    HavingRefused "COUNT(e) > ? AND MIN(e.a) > ?3 AND MAX(e.a) < ?5"
      [.value (.integer 1), .value .null] (.positional [.integer 7])
      (.outOfSequence "COUNT(e) > ? AND MIN(e.a) > ?3 AND MAX(e.a) < ?5" 4 5 ⟨46, 48⟩) := by
  have hMapping : ¬ ((Bindings.positional [.integer 7]).style = .named ∧
      ∃ more, [Argument.value (.integer 1), .value .null] = [.mapping more]) := by
    rintro ⟨hStyle, -⟩
    exact absurd hStyle (by decide)
  have hWrite : Manuscript.write
      ((Clause.having (.text (.mk "COUNT(e) > ? AND MIN(e.a) > ?3 AND MAX(e.a) < ?5"
        [.value (.integer 1), .value .null]))).write Scope.standard)
      ⟨"e.a = ?1", .positional [.integer 7]⟩ = (_, some _) := rfl
  obtain ⟨-, -, hClause⟩ := refused_snippet_binds_nothing Scope.standard
    "COUNT(e) > ? AND MIN(e.a) > ?3 AND MAX(e.a) < ?5" [.value (.integer 1), .value .null]
    ⟨"e.a = ?1", .positional [.integer 7]⟩ hMapping
  obtain ⟨hAfter, hRefused⟩ := (hClause _ _).mp hWrite
  exact ⟨hMapping, hWrite, hRefused⟩

end Snippet

end BoundQuery
