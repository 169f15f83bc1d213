import BoundQuery.Proofs.Alias.Matching
import BoundQuery.Proofs.Alias.Standard

/-!
# The standard rule as a pattern

The standard rule for fields that carry an alias is a search for a pattern with four alternatives.
For each of them it is said at which characters it matches; `found_standardPattern_iff` puts this
together: the pattern is found in just the fields that carry the alias.
-/

namespace BoundQuery

namespace Pattern

variable {whole : Nat} {cs rest : List Char}

/-! ## Pieces of the pattern -/

/-- Any number of spaces. -/
def blanks : Pattern := .star (.one (.single ' '))

/-- Characters as they stand, and then another pattern. -/
def spelling (cs : List Char) (behind : Pattern) : Pattern :=
  cs.foldr (fun c pattern => .seq (.one (.single c)) pattern) behind

theorem leaves_single_iff {c : Char} :
    Leaves whole (.one (.single c)) cs rest ↔ cs = c :: rest := by
  rw [leaves_one_iff]
  constructor
  · rintro ⟨d, hHas, rfl⟩
    simp only [CharSet.single, CharSet.has, Bool.and_eq_true, decide_eq_true_eq] at hHas
    rw [Char.le_antisymm hHas.2 hHas.1]
  · rintro rfl
    refine ⟨c, ?_, rfl⟩
    simp [CharSet.single, CharSet.has]

theorem leaves_blanks_iff : Leaves whole blanks cs rest ↔ ∃ n, cs = Alias.spaces n ++ rest := by
  constructor
  · intro h
    generalize hBlanks : blanks = pattern at h
    induction h with
    | done body cs => exact ⟨0, rfl⟩
    | more hFirst hMore ihFirst ihMore =>
        obtain rfl := Pattern.star.inj hBlanks
        obtain ⟨n, rfl⟩ := ihMore rfl
        exact ⟨n + 1, leaves_single_iff.mp hFirst⟩
    | _ => exact absurd hBlanks (by simp [blanks])
  · rintro ⟨n, rfl⟩
    induction n with
    | zero => exact .done _ rest
    | succ n ih => exact .more (leaves_single_iff.mpr rfl) ih

theorem leaves_spelling_iff {name : List Char} {behind : Pattern} :
    Leaves whole (spelling name behind) cs rest ↔
      ∃ middle, cs = name ++ middle ∧ Leaves whole behind middle rest := by
  induction name generalizing cs with
  | nil => simp [spelling]
  | cons c name ih =>
      show Leaves whole (.seq (.one (.single c)) (spelling name behind)) cs rest ↔ _
      simp only [leaves_seq_iff, leaves_single_iff, ih]
      constructor
      · rintro ⟨_, rfl, middle, rfl, hBehind⟩
        exact ⟨middle, rfl, hBehind⟩
      · rintro ⟨middle, rfl, hBehind⟩
        exact ⟨_, rfl, middle, rfl, hBehind⟩

@[simp] theorem names_blanks : blanks.names = [] := rfl

@[simp] theorem names_spelling (cs : List Char) (behind : Pattern) :
    (spelling cs behind).names = behind.names := by
  induction cs with
  | nil => rfl
  | cons c rest ih => exact ih

end Pattern

namespace Alias

open Pattern (blanks spelling Leaves)

/-- The alias alone. -/
def alonePattern (name : List Char) : Pattern :=
  .seq .atStart (.seq blanks (spelling name (.seq blanks (.seq .atEnd .empty))))

/-- The alias in front, before a point. -/
def pathPattern (name : List Char) : Pattern :=
  .seq .atStart (.seq blanks (spelling name (spelling ['.'] .empty)))

/-- The alias behind a character of no word, before a point. -/
def innerPattern (name : List Char) : Pattern :=
  .seq (.one (.complement .word)) (spelling name (spelling ['.'] .empty))

/-- The alias alone in parentheses. -/
def enclosedPattern (name : List Char) : Pattern :=
  spelling ['('] (.seq blanks (spelling name (.seq blanks (spelling [')'] .empty))))

/-- The pattern of the standard rule. -/
def standardPattern (name : List Char) : Pattern :=
  .alt (alonePattern name)
    (.alt (pathPattern name) (.alt (innerPattern name) (enclosedPattern name)))

/-- No group of the standard pattern has a name. -/
theorem names_standardPattern (name : List Char) : (standardPattern name).names = [] := by
  simp [standardPattern, alonePattern, pathPattern, innerPattern, enclosedPattern, Pattern.names]

section Found

variable {whole : Nat} {name cs : List Char}

theorem matches_alonePattern_iff :
    (∃ rest, Leaves whole (alonePattern name) cs rest) ↔
      cs.length = whole ∧ ∃ before behind, cs = spaces before ++ (name ++ spaces behind) := by
  simp only [alonePattern, Pattern.leaves_seq_iff, Pattern.leaves_atStart_iff,
    Pattern.leaves_blanks_iff, Pattern.leaves_spelling_iff, Pattern.leaves_atEnd_iff,
    Pattern.leaves_empty_iff]
  constructor
  · rintro ⟨rest, _, ⟨hWhole, rfl⟩, _, ⟨before, rfl⟩, _, rfl, _, ⟨behind, rfl⟩, _, ⟨rfl, -⟩, -⟩
    exact ⟨hWhole, before, behind, by rw [List.append_nil]⟩
  · rintro ⟨hWhole, before, behind, rfl⟩
    exact ⟨[], _, ⟨hWhole, rfl⟩, _, ⟨before, rfl⟩, _, rfl, [], ⟨behind, (List.append_nil _).symm⟩,
      [], ⟨rfl, rfl⟩, rfl⟩

theorem matches_pathPattern_iff :
    (∃ rest, Leaves whole (pathPattern name) cs rest) ↔
      cs.length = whole ∧ ∃ before rest, cs = spaces before ++ (name ++ '.' :: rest) := by
  simp only [pathPattern, Pattern.leaves_seq_iff, Pattern.leaves_atStart_iff,
    Pattern.leaves_blanks_iff, Pattern.leaves_spelling_iff, Pattern.leaves_empty_iff]
  constructor
  · rintro ⟨rest, _, ⟨hWhole, rfl⟩, _, ⟨before, rfl⟩, _, rfl, _, rfl, -⟩
    exact ⟨hWhole, before, _, rfl⟩
  · rintro ⟨hWhole, before, rest, rfl⟩
    exact ⟨rest, _, ⟨hWhole, rfl⟩, _, ⟨before, rfl⟩, _, rfl, rest, rfl, rfl⟩

theorem matches_innerPattern_iff :
    (∃ rest, Leaves whole (innerPattern name) cs rest) ↔
      ∃ c rest, Text.isWord c = false ∧ cs = c :: (name ++ '.' :: rest) := by
  simp only [innerPattern, Pattern.leaves_seq_iff, Pattern.leaves_one_iff,
    Pattern.leaves_spelling_iff, Pattern.leaves_empty_iff, CharSet.has, Bool.not_eq_true']
  constructor
  · rintro ⟨rest, _, ⟨c, hWord, rfl⟩, _, rfl, _, rfl, -⟩
    exact ⟨c, _, hWord, rfl⟩
  · rintro ⟨c, rest, hWord, rfl⟩
    exact ⟨rest, _, ⟨c, hWord, rfl⟩, _, rfl, rest, rfl, rfl⟩

theorem matches_enclosedPattern_iff :
    (∃ rest, Leaves whole (enclosedPattern name) cs rest) ↔ ∃ before behind rest,
      cs = '(' :: (spaces before ++ (name ++ (spaces behind ++ ')' :: rest))) := by
  simp only [enclosedPattern, Pattern.leaves_seq_iff, Pattern.leaves_blanks_iff,
    Pattern.leaves_spelling_iff, Pattern.leaves_empty_iff]
  constructor
  · rintro ⟨rest, _, rfl, _, ⟨before, rfl⟩, _, rfl, _, ⟨behind, rfl⟩, _, rfl, -⟩
    exact ⟨before, behind, _, rfl⟩
  · rintro ⟨before, behind, rest, rfl⟩
    exact ⟨rest, _, rfl, _, ⟨before, rfl⟩, _, rfl, _, ⟨behind, rfl⟩, rest, rfl, rfl⟩

theorem matches_standardPattern_iff :
    (∃ rest, Leaves whole (standardPattern name) cs rest) ↔
      ((∃ rest, Leaves whole (alonePattern name) cs rest) ∨
        ∃ rest, Leaves whole (pathPattern name) cs rest) ∨
      (∃ rest, Leaves whole (innerPattern name) cs rest) ∨
        ∃ rest, Leaves whole (enclosedPattern name) cs rest := by
  simp only [standardPattern, Pattern.leaves_alt_iff, exists_or, or_assoc]

end Found

/-- A search for the pattern finds the fields that carry the alias. -/
theorem found_standardPattern_iff {name : List Char} {field : String} :
    (standardPattern name).found field = true ↔ Carried name field.toList := by
  rw [Pattern.found_iff]
  constructor
  · rintro ⟨front, back, rest, hField, h⟩
    -- What is bound to the start of the field has nothing in front of it.
    have hFront : back.length = field.toList.length → field.toList = back := by
      intro hWhole
      rw [hField, List.length_append] at hWhole
      rw [hField, List.length_eq_zero_iff.mp (by omega : front.length = 0), List.nil_append]
    rcases matches_standardPattern_iff.mp ⟨rest, h⟩ with (hAlone | hPath) | hInner | hEnclosed
    · obtain ⟨hWhole, before, behind, hBack⟩ := matches_alonePattern_iff.mp hAlone
      rw [hFront hWhole, hBack]
      exact .alone before behind
    · obtain ⟨hWhole, before, later, hBack⟩ := matches_pathPattern_iff.mp hPath
      rw [hFront hWhole, hBack]
      exact .path before later
    · obtain ⟨c, later, hWord, rfl⟩ := matches_innerPattern_iff.mp hInner
      rw [hField]
      exact .inner front c later hWord
    · obtain ⟨before, behind, later, rfl⟩ := matches_enclosedPattern_iff.mp hEnclosed
      rw [hField]
      exact .enclosed front before behind later
  · intro hCarried
    have hFound : ∃ front back, field.toList = front ++ back ∧
        ∃ rest, Leaves field.toList.length (standardPattern name) back rest := by
      generalize hWhole : field.toList.length = whole
      generalize field.toList = cs at hCarried hWhole
      cases hCarried with
      | alone before behind =>
          exact ⟨[], _, rfl, matches_standardPattern_iff.mpr
            (.inl (.inl (matches_alonePattern_iff.mpr ⟨hWhole, before, behind, rfl⟩)))⟩
      | path before rest =>
          exact ⟨[], _, rfl, matches_standardPattern_iff.mpr
            (.inl (.inr (matches_pathPattern_iff.mpr ⟨hWhole, before, rest, rfl⟩)))⟩
      | inner front c rest hWord =>
          exact ⟨front, _, rfl, matches_standardPattern_iff.mpr
            (.inr (.inl (matches_innerPattern_iff.mpr ⟨c, rest, hWord, rfl⟩)))⟩
      | enclosed front before behind rest =>
          exact ⟨front, _, rfl, matches_standardPattern_iff.mpr
            (.inr (.inr (matches_enclosedPattern_iff.mpr ⟨before, behind, rest, rfl⟩)))⟩
    obtain ⟨front, back, hField, rest, h⟩ := hFound
    exact ⟨front, back, rest, hField, h⟩

end Alias

end BoundQuery
