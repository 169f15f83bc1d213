import BoundQuery.Proofs.Numbering

/-!
# The numbers of a HAVING text

By position, the placeholders of a HAVING text are checked from left to right against the next new
number: one that carries no number, or the next one, takes a value, and a lower number refers back.
`InSequence` says that no placeholder carries zero or skips ahead; `checkNumbers_of_inSequence` and
`checkNumbers_of_skip` say that the check finds just the first one that does. The second pass fills
numbers in, and it gives each placeholder the number with which the first pass has counted it
(`exchange_freshNumbers`). `numbers_of_having` puts both together: when a HAVING text is refused,
and what is written and bound when it is not.
-/

namespace BoundQuery

namespace Placeholder

/-! ## Counting from left to right -/

/-- The next new number behind a placeholder, which takes the one before it if it carries no number
or that one. -/
def Kind.advance (next : Nat) : Kind → Nat
  | .positional none => next + 1
  | .positional (some number) => if number = next then next + 1 else next
  | .named _ => next

/-- The next new number behind some placeholders. -/
def reached (next : Nat) (list : List Kind) : Nat := list.foldl Kind.advance next

/-- A placeholder with a number that no value has yet: zero, or one beyond the next. -/
def Kind.Skips (next number : Nat) (kind : Kind) : Prop :=
  kind = .positional (some number) ∧ (number = 0 ∨ next < number)

/-- No placeholder skips the number that is next when it comes. -/
def InSequence (next : Nat) (list : List Kind) : Prop :=
  ∀ front kind number, front ++ [kind] <+: list → ¬ kind.Skips (reached next front) number

/-- The first of some placeholders that skips, the number that is next when it comes, and its
own. -/
def FirstSkip (next : Nat) (list : List Placeholder) (token : Placeholder)
    (expected number : Nat) : Prop :=
  ∃ front, front ++ [token] <+: list ∧ InSequence next (front.map (·.kind)) ∧
    expected = reached next (front.map (·.kind)) ∧ token.kind.Skips expected number

theorem inSequence_nil (next : Nat) : InSequence next [] := by
  intro front kind number hComes
  exact absurd (List.prefix_nil.mp hComes) (by simp)

theorem inSequence_cons {next : Nat} {kind : Kind} {rest : List Kind} :
    InSequence next (kind :: rest) ↔
      (∀ number, ¬ kind.Skips next number) ∧ InSequence (kind.advance next) rest := by
  constructor
  · intro h
    constructor
    · intro number
      exact h [] kind number ((List.prefix_cons_inj kind).mpr List.nil_prefix)
    · intro front other number hComes
      exact h (kind :: front) other number ((List.prefix_cons_inj kind).mpr hComes)
  · rintro ⟨hKind, hRest⟩ front other number hComes
    cases front with
    | nil =>
        obtain rfl : other = kind := (List.cons_prefix_cons.mp hComes).1
        exact hKind number
    | cons first front =>
        obtain ⟨rfl, hLater⟩ := List.cons_prefix_cons.mp hComes
        exact hRest front other number hLater

/-- How many new numbers some placeholders take. -/
def taken (next : Nat) (list : List Kind) : Nat := reached next list - next

theorem le_advance (next : Nat) (kind : Kind) : next ≤ kind.advance next := by
  rcases kind with (_ | number) | name
  · exact Nat.le_succ next
  · by_cases hNumber : number = next <;> simp [Kind.advance, hNumber]
  · exact Nat.le_refl next

/-- The number that a placeholder is given: the next one, if it carries none. -/
def Kind.fresh (next : Nat) : Kind → List Nat
  | .positional none => [next]
  | _ => []

/-- The numbers for the placeholders that carry none. -/
def freshNumbers (next : Nat) : List Kind → List Nat
  | [] => []
  | kind :: rest => kind.fresh next ++ freshNumbers (kind.advance next) rest

/-! ## Filling numbers in -/

/-- A segment with the next new number filled in, if it is a placeholder that carries none. -/
def Segment.filledWith (next : Nat) : Segment → Segment
  | .marker (.positional none) _ => .numbered next
  | part => part

/-- The next new number behind a segment. -/
def Segment.advance (next : Nat) : Segment → Nat
  | .plain _ => next
  | .marker kind _ => kind.advance next

/-- Segments with numbers for the placeholders that carry none, and all else as it was. -/
def filledFrom (next : Nat) : List Segment → List Segment
  | [] => []
  | part :: rest => part.filledWith next :: filledFrom (part.advance next) rest

/-- Filling in the fresh numbers gives each placeholder the number that is next when it comes. -/
theorem exchange_freshNumbers (next : Nat) (parts : List Segment) :
    exchange (answersFrom fillAnswer fillNext
      (freshNumbers next (parts.filterMap Segment.kind?)) (parts.filterMap Segment.kind?)) parts =
      filledFrom next parts := by
  induction parts generalizing next with
  | nil => rfl
  | cons part rest ih =>
      rcases part with c | ⟨(_ | number) | name, spelling⟩
      · exact congrArg (Segment.plain c :: ·) (ih next)
      · exact congrArg (_ :: ·) (ih (next + 1))
      · exact congrArg (_ :: ·) (ih (Kind.advance next (.positional (some number))))
      · exact congrArg (_ :: ·) (ih next)

theorem segments_fillNumbers (text : String) (next : Nat) :
    segments (fillNumbers text (freshNumbers next (kinds text))) =
      filledFrom next (segments text) := by
  rw [fillNumbers_eq_exchanged, segments_exchanged, kinds_eq]
  exact exchange_freshNumbers next (segments text)

end Placeholder

open Placeholder (FirstSkip InSequence Kind Numbering filledFrom freshNumbers kinds numbers reached
  segments taken)

namespace Snippet

/-! ## The check -/

/-- A placeholder that does not skip is counted, and given a number if it carries none. -/
theorem checkNumbers_cons {fragment : String} {next : Nat} {token : Placeholder}
    {rest : List Placeholder} (h : ∀ number, ¬ token.kind.Skips next number) :
    checkNumbers fragment next (token :: rest) =
      (checkNumbers fragment (token.kind.advance next) rest).map fun checked =>
        (token.kind.fresh next ++ checked.1, checked.2) := by
  have hSame : ∀ outcome : Except Fault (List Nat × Nat),
      outcome = outcome.map fun checked => ([] ++ checked.1, checked.2) := by
    intro outcome
    cases outcome <;> rfl
  rcases token with ⟨(_ | number) | name, span⟩
  · show (checkNumbers fragment (next + 1) rest >>= fun checked =>
      pure (next :: checked.1, checked.2)) = _
    cases hRest : checkNumbers fragment (next + 1) rest <;> simp [hRest, Kind.advance] <;> rfl
  · have hNumber := h number
    simp only [Kind.Skips, true_and, not_or, Nat.not_lt] at hNumber
    simp only [checkNumbers]
    by_cases hNext : number = next
    · rw [if_pos hNext, Kind.advance, if_pos hNext]
      exact hSame _
    · have hBack : (decide (1 ≤ number) && decide (number < next)) = true := by
        simp only [Bool.and_eq_true, decide_eq_true_eq]
        omega
      rw [if_neg hNext, if_pos hBack, Kind.advance, if_neg hNext]
      exact hSame _
  · exact hSame _

/-- A placeholder that skips stops the check. -/
theorem checkNumbers_cons_of_skips {fragment : String} {next number : Nat} {token : Placeholder}
    {rest : List Placeholder} (hNext : 0 < next) (h : token.kind.Skips next number) :
    checkNumbers fragment next (token :: rest) =
      .error (.outOfSequence fragment next number token.span) := by
  obtain ⟨kind, span⟩ := token
  obtain ⟨hKind, hNumber⟩ := h
  obtain rfl : kind = .positional (some number) := hKind
  have hOther : number ≠ next := by omega
  have hBeyond : ¬ (decide (1 ≤ number) && decide (number < next)) = true := by
    simp only [Bool.and_eq_true, decide_eq_true_eq]
    omega
  simp only [checkNumbers]
  rw [if_neg hOther, if_neg hBeyond]

/-- The check goes through when all placeholders are in sequence. -/
theorem checkNumbers_of_inSequence {fragment : String} {next : Nat} {list : List Placeholder}
    (h : InSequence next (list.map (·.kind))) :
    checkNumbers fragment next list =
      .ok (freshNumbers next (list.map (·.kind)), reached next (list.map (·.kind))) := by
  induction list generalizing next with
  | nil => rfl
  | cons token rest ih =>
      obtain ⟨hToken, hRest⟩ := Placeholder.inSequence_cons.mp h
      rw [checkNumbers_cons hToken, ih hRest]
      rfl

/-- The check is stopped by the first placeholder that skips. -/
theorem checkNumbers_of_firstSkip {fragment : String} {next expected number : Nat}
    {list : List Placeholder} {token : Placeholder} (hNext : 0 < next)
    (h : FirstSkip next list token expected number) :
    checkNumbers fragment next list =
      .error (.outOfSequence fragment expected number token.span) := by
  obtain ⟨front, ⟨rest, rfl⟩, hFront, rfl, hSkips⟩ := h
  induction front generalizing next with
  | nil => exact checkNumbers_cons_of_skips hNext hSkips
  | cons first front ih =>
      obtain ⟨hFirst, hLater⟩ := Placeholder.inSequence_cons.mp hFront
      have hPositive : 0 < first.kind.advance next :=
        Nat.lt_of_lt_of_le hNext (Placeholder.le_advance next first.kind)
      show checkNumbers fragment next (first :: (front ++ [token] ++ rest)) = _
      rw [checkNumbers_cons hFirst, ih hPositive hLater hSkips]
      rfl

/-- Placeholders are in sequence, or one of them is the first that skips. -/
theorem inSequence_or_firstSkip (next : Nat) (list : List Placeholder) :
    InSequence next (list.map (·.kind)) ∨
      ∃ token expected number, FirstSkip next list token expected number := by
  induction list generalizing next with
  | nil => exact .inl (Placeholder.inSequence_nil next)
  | cons token rest ih =>
      by_cases hToken : ∃ number, token.kind.Skips next number
      · obtain ⟨number, hSkips⟩ := hToken
        exact .inr ⟨token, next, number, [], List.prefix_append [token] rest,
          Placeholder.inSequence_nil next, rfl, hSkips⟩
      have hStays : ∀ number, ¬ token.kind.Skips next number :=
        fun number hSkips => hToken ⟨number, hSkips⟩
      rcases ih (token.kind.advance next) with
        hRest | ⟨later, expected, number, front, hComes, hFront, hReached, hSkips⟩
      · exact .inl (Placeholder.inSequence_cons.mpr ⟨hStays, hRest⟩)
      · exact .inr ⟨later, expected, number, token :: front,
          (List.prefix_cons_inj token).mpr hComes,
          Placeholder.inSequence_cons.mpr ⟨hStays, hFront⟩, hReached, hSkips⟩

/-! ## The text -/

theorem plainValues_map (kind fragment : String) (values : List Value) :
    Argument.plainValues kind fragment (values.map .value) = .ok values := by
  induction values with
  | nil => rfl
  | cons value rest ih =>
      show (Argument.plainValues kind fragment (rest.map .value) >>= fun later =>
        pure (value :: later)) = _
      rw [ih]
      rfl

theorem isEmpty_values {values : List Value} (hValues : values ≠ []) :
    (values.map Argument.value).isEmpty = false := by
  rw [List.isEmpty_map, List.isEmpty_eq_false_iff]
  exact hValues

/-- What becomes of a HAVING text with plain values: the outcome of the check, then the count. -/
theorem placedHaving_values (size : Nat) (text : String) (values : List Value) :
    placedHaving size text (values.map .value) =
      (checkNumbers text (size + 1) (placeholders text) >>= fun checked =>
        if checked.2 - (size + 1) = values.length then
          .ok (Placeholder.fillNumbers text checked.1, values)
        else .error (.miscount text (checked.2 - (size + 1)) values.length)) := by
  rw [placedHaving, plainValues_map]
  cases checkNumbers text (size + 1) (placeholders text) <;> rfl

theorem finish_having_values {text : String} {values : List Value} (hValues : values ≠ [])
    (bound : List Value) :
    (writeHaving text (values.map .value)).finish (.positional bound) =
      (placedHaving bound.length text (values.map .value)).map (Bindings.extended bound) := by
  rw [Piece.finish_having_positional, isEmpty_values hValues]
  rfl

section Outcomes

variable {text : String} {values : List Value} (hValues : values ≠ []) (bound : List Value)
include hValues

/-- A HAVING text is refused for its first placeholder that skips. -/
theorem finish_having_of_firstSkip {token : Placeholder} {expected number : Nat}
    (h : FirstSkip (bound.length + 1) (placeholders text) token expected number) :
    (writeHaving text (values.map .value)).finish (.positional bound) =
      .error (.outOfSequence text expected number token.span) := by
  rw [finish_having_values hValues, placedHaving_values,
    checkNumbers_of_firstSkip (Nat.succ_pos _) h]
  rfl

/-- A HAVING text in sequence takes as many values as it counts new numbers. -/
theorem finish_having_of_inSequence (h : InSequence (bound.length + 1) (kinds text)) :
    (writeHaving text (values.map .value)).finish (.positional bound) =
      if taken (bound.length + 1) (kinds text) = values.length then
        .ok (Placeholder.fillNumbers text (freshNumbers (bound.length + 1) (kinds text)),
          .positional (bound ++ values))
      else .error (.miscount text (taken (bound.length + 1) (kinds text)) values.length) := by
  rw [finish_having_values hValues, placedHaving_values, checkNumbers_of_inSequence h]
  show Except.map _ (if _ then _ else _) = _
  split
  · next hCount => exact (if_pos hCount).symm
  · next hCount => exact (if_neg hCount).symm

theorem having_outOfSequence_iff {fault : Fault} :
    ((writeHaving text (values.map .value)).finish (.positional bound) = .error fault ∧
        fault.code = .outOfSequence) ↔
      ∃ token expected number,
        FirstSkip (bound.length + 1) (placeholders text) token expected number ∧
        fault = .outOfSequence text expected number token.span := by
  constructor
  · rintro ⟨hError, hCode⟩
    rcases inSequence_or_firstSkip (bound.length + 1) (placeholders text) with
      hSequence | ⟨token, expected, number, hSkip⟩
    · rw [finish_having_of_inSequence hValues bound hSequence] at hError
      split at hError
      · exact absurd hError (by simp)
      · rw [← Except.error.inj hError] at hCode
        exact absurd hCode (by decide : Code.miscount ≠ .outOfSequence)
    · rw [finish_having_of_firstSkip hValues bound hSkip] at hError
      exact ⟨token, expected, number, hSkip, (Except.error.inj hError).symm⟩
  · rintro ⟨token, expected, number, hSkip, rfl⟩
    exact ⟨finish_having_of_firstSkip hValues bound hSkip, rfl⟩

theorem having_miscount_iff {fault : Fault} :
    ((writeHaving text (values.map .value)).finish (.positional bound) = .error fault ∧
        fault.code = .miscount) ↔
      InSequence (bound.length + 1) (kinds text) ∧
        taken (bound.length + 1) (kinds text) ≠ values.length ∧
        fault = .miscount text (taken (bound.length + 1) (kinds text)) values.length := by
  constructor
  · rintro ⟨hError, hCode⟩
    rcases inSequence_or_firstSkip (bound.length + 1) (placeholders text) with
      hSequence | ⟨token, expected, number, hSkip⟩
    · rw [finish_having_of_inSequence hValues bound hSequence] at hError
      split at hError
      · exact absurd hError (by simp)
      · next hCount => exact ⟨hSequence, hCount, (Except.error.inj hError).symm⟩
    · rw [finish_having_of_firstSkip hValues bound hSkip] at hError
      rw [← Except.error.inj hError] at hCode
      exact absurd hCode (by decide : Code.outOfSequence ≠ .miscount)
  · rintro ⟨hSequence, hCount, rfl⟩
    rw [finish_having_of_inSequence hValues bound hSequence, if_neg hCount]
    exact ⟨rfl, rfl⟩

theorem having_ok_iff {written : String} {after : Bindings} :
    (writeHaving text (values.map .value)).finish (.positional bound) = .ok (written, after) ↔
      InSequence (bound.length + 1) (kinds text) ∧
        taken (bound.length + 1) (kinds text) = values.length ∧
        written = Placeholder.fillNumbers text (freshNumbers (bound.length + 1) (kinds text)) ∧
        after = .positional (bound ++ values) := by
  constructor
  · intro hOk
    rcases inSequence_or_firstSkip (bound.length + 1) (placeholders text) with
      hSequence | ⟨token, expected, number, hSkip⟩
    · rw [finish_having_of_inSequence hValues bound hSequence] at hOk
      split at hOk
      · next hCount =>
          obtain ⟨rfl, rfl⟩ := Prod.mk.inj (Except.ok.inj hOk)
          exact ⟨hSequence, hCount, rfl, rfl⟩
      · exact absurd hOk (by simp)
    · rw [finish_having_of_firstSkip hValues bound hSkip] at hOk
      exact absurd hOk (by simp)
  · rintro ⟨hSequence, hCount, rfl, rfl⟩
    rw [finish_having_of_inSequence hValues bound hSequence, if_pos hCount]

end Outcomes

/-- The numbers of a HAVING text that is in sequence and takes all of its values. -/
theorem numbering_fillNumbers {text : String} {size count : Nat}
    (h : InSequence (size + 1) (kinds text)) (hCount : taken (size + 1) (kinds text) = count) :
    Numbering size (size + count)
      (numbers (Placeholder.fillNumbers text (freshNumbers (size + 1) (kinds text)))) := by
  have hChecked : checkNumbers text (size + 1) (placeholders text) = .ok _ :=
    checkNumbers_of_inSequence h
  obtain ⟨high, hLast, hFollows⟩ := follows_checkNumbers hChecked
  have hLow := hFollows.le
  have hReached : reached (size + 1) (kinds text) = high + 1 := hLast
  have hHigh : size + count = high := by
    rw [taken] at hCount
    omega
  rw [Placeholder.numbers_fillNumbers, hHigh]
  exact hFollows.numbering

/-- A HAVING text with plain values, written after others by position. It is refused for its first
placeholder that skips the next new number, or else when it does not take as many new numbers as
there are values. Otherwise the values are appended, the text is the given one with numbers filled
in where there were none, and it is read as just that: all numbers are those of values, no new value
is missed, and the new ones are first used in their order. -/
theorem numbers_of_having (text : String) (values bound : List Value) (hValues : values ≠ []) :
    let outcome := (writeHaving text (values.map .value)).finish (.positional bound)
    let next := bound.length + 1
    (∀ fault, (outcome = .error fault ∧ fault.code = .outOfSequence) ↔
      ∃ token expected number, FirstSkip next (placeholders text) token expected number ∧
        fault = .outOfSequence text expected number token.span) ∧
    (∀ fault, (outcome = .error fault ∧ fault.code = .miscount) ↔
      InSequence next (kinds text) ∧ taken next (kinds text) ≠ values.length ∧
        fault = .miscount text (taken next (kinds text)) values.length) ∧
    ((∃ result, outcome = .ok result) ↔
      InSequence next (kinds text) ∧ taken next (kinds text) = values.length) ∧
    ∀ written after, outcome = .ok (written, after) →
      after = .positional (bound ++ values) ∧
      segments written = filledFrom next (segments text) ∧
      Numbering bound.length (bound.length + values.length) (numbers written) := by
  intro outcome next
  refine ⟨fun fault => having_outOfSequence_iff hValues bound,
    fun fault => having_miscount_iff hValues bound, ⟨?_, ?_⟩, ?_⟩
  · rintro ⟨⟨written, after⟩, hOk⟩
    obtain ⟨hSequence, hCount, -, -⟩ := (having_ok_iff hValues bound).mp hOk
    exact ⟨hSequence, hCount⟩
  · rintro ⟨hSequence, hCount⟩
    exact ⟨_, (having_ok_iff hValues bound).mpr ⟨hSequence, hCount, rfl, rfl⟩⟩
  · intro written after hOk
    obtain ⟨hSequence, hCount, rfl, rfl⟩ := (having_ok_iff hValues bound).mp hOk
    exact ⟨rfl, Placeholder.segments_fillNumbers text next, numbering_fillNumbers hSequence hCount⟩

/-- New numbers with and without digits, a reference back and a literal, behind one value. -/
theorem numbers_of_having_referring_back :
    [Value.integer 4, .null] ≠ [] ∧
    ∃ written,
      (writeHaving "MAX(e.age) > ? AND e.sign <> '?' AND MIN(e.age) IN (?1, ?3, ?2)"
        ([.integer 4, .null].map .value)).finish (.positional [.integer 9]) =
        .ok (written, .positional [.integer 9, .integer 4, .null]) ∧
      written = "MAX(e.age) > ?2 AND e.sign <> '?' AND MIN(e.age) IN (?1, ?3, ?2)" ∧
      Numbering 1 3 (numbers written) := by
  have hValues : [Value.integer 4, .null] ≠ [] := by decide
  have hOk : (writeHaving "MAX(e.age) > ? AND e.sign <> '?' AND MIN(e.age) IN (?1, ?3, ?2)"
      ([.integer 4, .null].map .value)).finish (.positional [.integer 9]) =
      .ok ("MAX(e.age) > ?2 AND e.sign <> '?' AND MIN(e.age) IN (?1, ?3, ?2)",
        .positional [.integer 9, .integer 4, .null]) := rfl
  obtain ⟨-, -, -, hResult⟩ := numbers_of_having
    "MAX(e.age) > ? AND e.sign <> '?' AND MIN(e.age) IN (?1, ?3, ?2)" [.integer 4, .null]
    [.integer 9] hValues
  exact ⟨hValues, _, hOk, rfl, (hResult _ _ hOk).2.2⟩

end Snippet

end BoundQuery
