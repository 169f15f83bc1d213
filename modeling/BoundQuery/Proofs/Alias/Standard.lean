import BoundQuery.Alias

/-!
# The standard rule for fields that carry an alias

`Alias.Carried` says when a field carries an alias: in four ways, of which each is a shape of the
whole field. The rule that is run takes a field from the left and skips spaces as far as it can;
`Alias.carriedBy_iff` says that it finds just those fields, since no alias starts with a space.
-/

namespace BoundQuery

namespace Alias

/-- A run of spaces; no other character counts as a blank around an alias. -/
def spaces (n : Nat) : List Char := List.replicate n ' '

/-- The fields that carry an alias. -/
inductive Carried (name : List Char) : List Char → Prop
  | alone (before behind : Nat) : Carried name (spaces before ++ (name ++ spaces behind))
  | path (before : Nat) (rest : List Char) :
      Carried name (spaces before ++ (name ++ '.' :: rest))
  | inner (front : List Char) (c : Char) (rest : List Char) (hWord : Text.isWord c = false) :
      Carried name (front ++ c :: (name ++ '.' :: rest))
  | enclosed (front : List Char) (before behind : Nat) (rest : List Char) :
      Carried name (front ++ '(' :: (spaces before ++ (name ++ (spaces behind ++ ')' :: rest))))

/-! ## The rule that is run -/

theorem after?_eq_some_iff {front cs rest : List Char} :
    after? front cs = some rest ↔ cs = front ++ rest := by
  constructor
  · intro h
    induction front generalizing cs with
    | nil => exact Option.some.inj h
    | cons a front ih =>
        cases cs with
        | nil => exact absurd h (by simp [after?])
        | cons c back =>
            rw [after?] at h
            by_cases hSame : a = c
            · rw [if_pos hSame] at h
              rw [ih h, hSame, List.cons_append]
            · rw [if_neg hSame] at h
              exact absurd h (by simp)
  · rintro rfl
    exact after?_append front rest

theorem startsPath_iff {name field : List Char} :
    startsPath name field = true ↔ ∃ rest, field = name ++ '.' :: rest := by
  rw [startsPath, Option.isSome_iff_exists]
  simp only [after?_eq_some_iff, List.append_assoc, List.singleton_append]

/-- Characters without a space in front. -/
def NoSpace (cs : List Char) : Prop := ∀ c ∈ cs.head?, c ≠ ' '

/-- Skipping spaces leaves what has none in front. -/
theorem skipSpaces_eq_iff {cs back : List Char} (hBack : NoSpace back) :
    skipSpaces cs = back ↔ ∃ n, cs = spaces n ++ back := by
  constructor
  · rintro rfl
    induction cs with
    | nil => exact ⟨0, rfl⟩
    | cons c rest ih =>
        by_cases hSpace : c = ' '
        · subst hSpace
          obtain ⟨n, hn⟩ := ih hBack
          exact ⟨n + 1, congrArg (' ' :: ·) hn⟩
        · have hStays : skipSpaces (c :: rest) = c :: rest :=
            List.dropWhile_cons_of_neg (by simpa using hSpace)
          exact ⟨0, hStays.symm⟩
  · rintro ⟨n, rfl⟩
    induction n with
    | zero =>
        cases back with
        | nil => rfl
        | cons c rest => exact List.dropWhile_cons_of_neg (by simpa using hBack c rfl)
    | succ n ih => exact ih

theorem isEmpty_skipSpaces_iff {cs : List Char} :
    (skipSpaces cs).isEmpty = true ↔ ∃ n, cs = spaces n := by
  rw [List.isEmpty_iff, skipSpaces_eq_iff (by simp [NoSpace])]
  simp only [List.append_nil]

/-- A search for a character and what comes behind it. -/
theorem somewhere_iff {search : List Char → Bool} (here : Char → List Char → Bool)
    (hNil : search [] = false)
    (hCons : ∀ c rest, search (c :: rest) = (here c rest || search rest)) {field : List Char} :
    search field = true ↔ ∃ front c rest, field = front ++ c :: rest ∧ here c rest = true := by
  induction field with
  | nil => simp [hNil]
  | cons c later ih =>
      rw [hCons, Bool.or_eq_true, ih]
      constructor
      · rintro (hHere | ⟨front, d, rest, rfl, hHere⟩)
        · exact ⟨[], c, later, rfl, hHere⟩
        · exact ⟨c :: front, d, rest, rfl, hHere⟩
      · rintro ⟨front, d, rest, hField, hHere⟩
        cases front with
        | nil =>
            obtain ⟨rfl, rfl⟩ := List.cons.inj hField
            exact .inl hHere
        | cons first front =>
            obtain ⟨rfl, rfl⟩ := List.cons.inj hField
            exact .inr ⟨front, d, rest, rfl, hHere⟩

theorem followsNonWord_iff {name field : List Char} :
    followsNonWord name field = true ↔
      ∃ front c rest, field = front ++ c :: (name ++ '.' :: rest) ∧ Text.isWord c = false := by
  rw [somewhere_iff (fun c rest => !Text.isWord c && startsPath name rest) rfl
    fun _ _ => rfl]
  simp only [Bool.and_eq_true, Bool.not_eq_true', startsPath_iff]
  constructor
  · rintro ⟨front, c, back, hField, hWord, rest, rfl⟩
    exact ⟨front, c, rest, hField, hWord⟩
  · rintro ⟨front, c, rest, hField, hWord⟩
    exact ⟨front, c, _, hField, hWord, rest, rfl⟩

/-- What follows a name without a space in front, behind spaces. -/
theorem after?_skipSpaces_iff {name field rest : List Char} (hName : NoSpace (name ++ rest)) :
    after? name (skipSpaces field) = some rest ↔ ∃ n, field = spaces n ++ (name ++ rest) := by
  rw [after?_eq_some_iff, skipSpaces_eq_iff hName]

theorem after?_paren_iff {cs : List Char} :
    (after? [')'] (skipSpaces cs)).isSome = true ↔ ∃ n rest, cs = spaces n ++ ')' :: rest := by
  rw [Option.isSome_iff_exists]
  have hParen : ∀ rest, NoSpace ([')'] ++ rest) := fun rest => by simp [NoSpace]
  simp only [after?_skipSpaces_iff (hParen _), List.singleton_append]
  exact exists_comm

section Rule

variable {name : List Char} (hName : ∀ rest, NoSpace (name ++ rest)) {field : List Char}
include hName

theorem isAlone_iff :
    isAlone name field = true ↔
      ∃ before behind, field = spaces before ++ (name ++ spaces behind) := by
  unfold isAlone
  constructor
  · intro h
    split at h
    · next rest hAfter =>
        obtain ⟨before, hField⟩ := (after?_skipSpaces_iff (hName rest)).mp hAfter
        obtain ⟨behind, rfl⟩ := isEmpty_skipSpaces_iff.mp h
        exact ⟨before, behind, hField⟩
    · exact absurd h (by simp)
  · rintro ⟨before, behind, hField⟩
    have hAfter := (after?_skipSpaces_iff (hName (spaces behind))).mpr ⟨before, hField⟩
    rw [hAfter]
    exact isEmpty_skipSpaces_iff.mpr ⟨behind, rfl⟩

theorem startsPath_skipSpaces_iff :
    startsPath name (skipSpaces field) = true ↔
      ∃ before rest, field = spaces before ++ (name ++ '.' :: rest) := by
  rw [startsPath_iff]
  constructor
  · rintro ⟨rest, hRest⟩
    obtain ⟨before, hField⟩ := (skipSpaces_eq_iff (hName ('.' :: rest))).mp hRest
    exact ⟨before, rest, hField⟩
  · rintro ⟨before, rest, hField⟩
    exact ⟨rest, (skipSpaces_eq_iff (hName ('.' :: rest))).mpr ⟨before, hField⟩⟩

theorem closes_iff :
    closes name field = true ↔ ∃ before behind rest,
      field = spaces before ++ (name ++ (spaces behind ++ ')' :: rest)) := by
  unfold closes
  constructor
  · intro h
    split at h
    · next back hAfter =>
        obtain ⟨before, hField⟩ := (after?_skipSpaces_iff (hName back)).mp hAfter
        obtain ⟨behind, rest, rfl⟩ := after?_paren_iff.mp h
        exact ⟨before, behind, rest, hField⟩
    · exact absurd h (by simp)
  · rintro ⟨before, behind, rest, hField⟩
    have hAfter := (after?_skipSpaces_iff (hName (spaces behind ++ ')' :: rest))).mpr
      ⟨before, hField⟩
    rw [hAfter]
    exact after?_paren_iff.mpr ⟨behind, rest, rfl⟩

theorem inParentheses_iff :
    inParentheses name field = true ↔ ∃ front before behind rest,
      field =
        front ++ '(' :: (spaces before ++ (name ++ (spaces behind ++ ')' :: rest))) := by
  rw [somewhere_iff (fun c rest => (c = '(') && closes name rest) rfl fun _ _ => rfl]
  simp only [Bool.and_eq_true, decide_eq_true_eq, closes_iff hName]
  constructor
  · rintro ⟨front, c, back, hField, rfl, before, behind, rest, rfl⟩
    exact ⟨front, before, behind, rest, hField⟩
  · rintro ⟨front, before, behind, rest, hField⟩
    exact ⟨front, '(', _, hField, rfl, before, behind, rest, rfl⟩

/-- The rule finds the fields that carry the alias. -/
theorem carriedBy_iff : carriedBy name field = true ↔ Carried name field := by
  simp only [carriedBy, Bool.or_eq_true, isAlone_iff hName, startsPath_skipSpaces_iff hName,
    followsNonWord_iff, inParentheses_iff hName]
  constructor
  · rintro (((⟨before, behind, rfl⟩ | ⟨before, rest, rfl⟩) | ⟨front, c, rest, rfl, hWord⟩) |
      ⟨front, before, behind, rest, rfl⟩)
    · exact .alone before behind
    · exact .path before rest
    · exact .inner front c rest hWord
    · exact .enclosed front before behind rest
  · intro hCarried
    cases hCarried with
    | alone before behind => exact .inl (.inl (.inl ⟨before, behind, rfl⟩))
    | path before rest => exact .inl (.inl (.inr ⟨before, rest, rfl⟩))
    | inner front c rest hWord => exact .inl (.inr ⟨front, c, rest, rfl, hWord⟩)
    | enclosed front before behind rest => exact .inr ⟨front, before, behind, rest, rfl⟩

end Rule

end Alias

end BoundQuery
