import BoundQuery.Proofs.Alias.StandardPattern

/-!
# Reading the standard pattern

`Alias.standardText` is a text that spells the standard pattern of an alias. Of the characters that
may stand in an alias only the dollar sign means something in a pattern, so it alone is escaped
(`readSequence_escaped`). The reader takes fuel for each piece of a sequence; there is enough of it,
and `parse?_standardText` says that the text is read as the pattern it is meant for.
-/

namespace BoundQuery

namespace Alias

/-- Characters of an alias as a pattern spells them: a dollar sign is escaped. -/
def escaped (name : List Char) : List Char :=
  name.flatMap fun c => if c = '$' then ['\\', '$'] else [c]

/-- The text of the standard pattern. -/
def standardText (name : String) : String :=
  let inside := String.ofList (escaped name.toList)
  "^ *" ++ inside ++ " *$|^ *" ++ inside ++ "\\.|\\W" ++ inside ++ "\\.|\\( *" ++ inside ++ " *\\)"

end Alias

namespace Pattern

open Alias (escaped)

/-- Characters before which no repetition stands. -/
def Unrepeated (cs : List Char) : Prop :=
  ∀ c ∈ cs.head?, c ≠ '*' ∧ c ≠ '+' ∧ c ≠ '?' ∧ c ≠ '\x7b'

theorem unrepeated_cons {c : Char} {rest : List Char}
    (h : c ≠ '*' ∧ c ≠ '+' ∧ c ≠ '?' ∧ c ≠ '\x7b') : Unrepeated (c :: rest) := by
  intro d hd
  rwa [← Option.some.inj hd]

theorem readRepeats_of_unrepeated (fuel : Nat) (body : Pattern) {cs : List Char}
    (h : Unrepeated cs) : readRepeats (fuel + 1) body cs = some (body, cs) := by
  cases cs with
  | nil => rfl
  | cons c rest =>
      obtain ⟨hStar, hPlus, hMark, hBrace⟩ := h c rfl
      simp [readRepeats, hStar, hPlus, hMark, hBrace]

theorem skipReluctant_of_unrepeated {cs : List Char} (h : Unrepeated cs) :
    skipReluctant cs = cs := by
  cases cs with
  | nil => rfl
  | cons c rest =>
      have hMark : c ≠ '?' := (h c rfl).2.2.1
      simp [skipReluctant, hMark]

section Sequence

variable {fuel : Nat} {c : Char} {inside back rest : List Char} {body others : Pattern}

/-- A sequence is an atom with its repetitions, and then the rest of the sequence. -/
theorem readSequence_cons {middle : List Char} {repetition : Pattern} (hBar : c ≠ '|')
    (hParen : c ≠ ')') (hAtom : readAtom (fuel + 1) (c :: inside) = some (body, middle))
    (hRepeats : readRepeats (middle.length + 1) body middle = some (repetition, back))
    (h : readSequence (fuel + 1) back = some (others, rest)) :
    readSequence (fuel + 2) (c :: inside) = some (.seq repetition others, rest) := by
  have hGoes : ¬ (decide (c = '|') || decide (c = ')')) = true := by simp [hBar, hParen]
  rw [readSequence, if_neg hGoes, hAtom]
  show (readRepeats (middle.length + 1) body middle >>= _) = _
  rw [hRepeats]
  show (readSequence (fuel + 1) back >>= _) = _
  rw [h]
  rfl

/-- An atom that is not repeated. -/
theorem readSequence_piece (hBar : c ≠ '|') (hParen : c ≠ ')')
    (hAtom : readAtom (fuel + 1) (c :: inside) = some (body, back)) (hBack : Unrepeated back)
    (h : readSequence (fuel + 1) back = some (others, rest)) :
    readSequence (fuel + 2) (c :: inside) = some (.seq body others, rest) :=
  readSequence_cons hBar hParen hAtom (readRepeats_of_unrepeated _ body hBack) h

/-- A space with a star. -/
theorem readSequence_blanks (hBack : Unrepeated back)
    (h : readSequence (fuel + 1) back = some (others, rest)) :
    readSequence (fuel + 2) (' ' :: '*' :: back) = some (.seq blanks others, rest) := by
  have hRepeats : readRepeats (('*' :: back).length + 1) (.one (.single ' ')) ('*' :: back) =
      some (blanks, back) := by
    show readRepeats (back.length + 1) blanks (skipReluctant back) = _
    rw [skipReluctant_of_unrepeated hBack, readRepeats_of_unrepeated _ _ hBack]
  exact readSequence_cons (by decide) (by decide) rfl hRepeats h

end Sequence

/-- A character of an alias is none of those with a meaning in patterns, but for the dollar sign. -/
theorem ne_of_isPart {c d : Char} (hPart : Alias.isPart c = true)
    (hOther : Alias.isPart d = false) : c ≠ d := by
  rintro rfl
  exact absurd (hPart.symm.trans hOther) (by decide)

theorem unrepeated_of_isPart {c : Char} (hPart : Alias.isPart c = true) (rest : List Char) :
    Unrepeated (c :: rest) :=
  unrepeated_cons ⟨ne_of_isPart hPart (by decide +kernel), ne_of_isPart hPart (by decide +kernel),
    ne_of_isPart hPart (by decide +kernel), ne_of_isPart hPart (by decide +kernel)⟩

theorem readAtom_of_isPart {c : Char} (hPart : Alias.isPart c = true) (hDollar : c ≠ '$')
    (fuel : Nat) (rest : List Char) :
    readAtom (fuel + 1) (c :: rest) = some (.one (.single c), rest) := by
  have hParen : c ≠ '(' := ne_of_isPart hPart (by decide +kernel)
  have hBracket : c ≠ '[' := ne_of_isPart hPart (by decide +kernel)
  have hPoint : c ≠ '.' := ne_of_isPart hPart (by decide +kernel)
  have hStart : c ≠ '^' := ne_of_isPart hPart (by decide +kernel)
  have hEscape : c ≠ '\\' := ne_of_isPart hPart (by decide +kernel)
  obtain ⟨hStar, hPlus, hMark, hBrace⟩ := unrepeated_of_isPart hPart rest c rfl
  rw [readAtom] <;> assumption

/-- The characters of an alias, escaped, are read as they stand. -/
theorem readSequence_escaped {name : List Char} (hName : ∀ c ∈ name, Alias.isPart c = true)
    {fuel : Nat} {back : List Char} {others : Pattern} {rest : List Char}
    (hBack : Unrepeated back) (h : readSequence (fuel + 1) back = some (others, rest)) :
    readSequence (fuel + name.length + 1) (escaped name ++ back) =
        some (spelling name others, rest) ∧
      Unrepeated (escaped name ++ back) := by
  induction name with
  | nil => exact ⟨h, hBack⟩
  | cons c name ih =>
      obtain ⟨hRead, hLater⟩ := ih fun d hd => hName d (.tail _ hd)
      have hPart : Alias.isPart c = true := hName c (.head _)
      by_cases hDollar : c = '$'
      · subst hDollar
        have hAtom : readAtom (fuel + name.length + 1) ('\\' :: '$' :: (escaped name ++ back)) =
            some (.one (.single '$'), escaped name ++ back) := rfl
        exact ⟨readSequence_piece (by decide) (by decide) hAtom hLater hRead,
          unrepeated_cons (by decide)⟩
      · have hEscaped : escaped (c :: name) ++ back = c :: (escaped name ++ back) := by
          rw [escaped, List.flatMap_cons, if_neg hDollar]
          rfl
        have hAtom := readAtom_of_isPart hPart hDollar (fuel + name.length) (escaped name ++ back)
        rw [hEscaped]
        exact ⟨readSequence_piece (ne_of_isPart hPart (by decide +kernel))
          (ne_of_isPart hPart (by decide +kernel)) hAtom hLater hRead,
          unrepeated_of_isPart hPart _⟩

/-- The end of an alternative: that of the whole text, or a bar. -/
def EndsAlternative (cs : List Char) : Prop := cs = [] ∨ ∃ rest, cs = '|' :: rest

section Alternatives

variable {name : List Char} (hName : ∀ c ∈ name, Alias.isPart c = true) {fuel : Nat}
  {back : List Char} (hBack : EndsAlternative back)

include hBack in
theorem readSequence_end (fuel : Nat) :
    readSequence (fuel + 1) back = some (.empty, back) ∧ Unrepeated back := by
  rcases hBack with rfl | ⟨rest, rfl⟩
  · exact ⟨rfl, by simp [Unrepeated]⟩
  · exact ⟨rfl, unrepeated_cons (by decide)⟩

include hBack in
/-- An escaped character at the end of an alternative. -/
theorem readSequence_escapedEnd (fuel : Nat) {c : Char} (hChar : c = '.' ∨ c = ')') :
    readSequence (fuel + 2) ('\\' :: c :: back) = some (spelling [c] .empty, back) := by
  obtain ⟨hEnd, hStops⟩ := readSequence_end hBack fuel
  have hAtom : readAtom (fuel + 1) ('\\' :: c :: back) = some (.one (.single c), back) := by
    rcases hChar with rfl | rfl <;> rfl
  exact readSequence_piece (by decide) (by decide) hAtom hStops hEnd

variable (hFuel : name.length + 5 ≤ fuel)
include hName hBack hFuel

theorem readSequence_alone :
    readSequence fuel ('^' :: ' ' :: '*' :: (escaped name ++ ' ' :: '*' :: '$' :: back)) =
      some (Alias.alonePattern name, back) := by
  obtain ⟨more, rfl⟩ : ∃ more, fuel = more + 2 + name.length + 3 :=
    ⟨fuel - name.length - 5, by omega⟩
  obtain ⟨hEnd, hStops⟩ := readSequence_end hBack more
  have hDollar : readSequence (more + 2) ('$' :: back) = some (.seq .atEnd .empty, back) :=
    readSequence_piece (by decide) (by decide) rfl hStops hEnd
  have hBehind := readSequence_blanks (unrepeated_cons (by decide)) hDollar
  obtain ⟨hInside, hUnrepeated⟩ :=
    readSequence_escaped hName (unrepeated_cons (by decide)) hBehind
  have hBefore := readSequence_blanks hUnrepeated hInside
  exact readSequence_piece (by decide) (by decide) rfl (unrepeated_cons (by decide)) hBefore

theorem readSequence_path :
    readSequence fuel ('^' :: ' ' :: '*' :: (escaped name ++ '\\' :: '.' :: back)) =
      some (Alias.pathPattern name, back) := by
  obtain ⟨more, rfl⟩ : ∃ more, fuel = more + 1 + name.length + 3 :=
    ⟨fuel - name.length - 4, by omega⟩
  have hPoint := readSequence_escapedEnd hBack more (.inl rfl)
  obtain ⟨hInside, hUnrepeated⟩ :=
    readSequence_escaped hName (unrepeated_cons (by decide)) hPoint
  have hBefore := readSequence_blanks hUnrepeated hInside
  exact readSequence_piece (by decide) (by decide) rfl (unrepeated_cons (by decide)) hBefore

theorem readSequence_inner :
    readSequence fuel ('\\' :: 'W' :: (escaped name ++ '\\' :: '.' :: back)) =
      some (Alias.innerPattern name, back) := by
  obtain ⟨more, rfl⟩ : ∃ more, fuel = more + 1 + name.length + 2 :=
    ⟨fuel - name.length - 3, by omega⟩
  have hPoint := readSequence_escapedEnd hBack more (.inl rfl)
  obtain ⟨hInside, hUnrepeated⟩ :=
    readSequence_escaped hName (unrepeated_cons (by decide)) hPoint
  exact readSequence_piece (by decide) (by decide) rfl hUnrepeated hInside

theorem readSequence_enclosed :
    readSequence fuel
        ('\\' :: '(' :: ' ' :: '*' :: (escaped name ++ ' ' :: '*' :: '\\' :: ')' :: back)) =
      some (Alias.enclosedPattern name, back) := by
  obtain ⟨more, rfl⟩ : ∃ more, fuel = more + 2 + name.length + 3 :=
    ⟨fuel - name.length - 5, by omega⟩
  have hParen := readSequence_escapedEnd hBack more (.inr rfl)
  have hBehind := readSequence_blanks (unrepeated_cons (by decide)) hParen
  obtain ⟨hInside, hUnrepeated⟩ :=
    readSequence_escaped hName (unrepeated_cons (by decide)) hBehind
  have hBefore := readSequence_blanks hUnrepeated hInside
  exact readSequence_piece (by decide) (by decide) rfl (unrepeated_cons (by decide)) hBefore

end Alternatives

theorem readAlternatives_bar {fuel : Nat} {cs back rest : List Char} {left right : Pattern}
    (hLeft : readSequence fuel cs = some (left, '|' :: back))
    (hRight : readAlternatives fuel back = some (right, rest)) :
    readAlternatives (fuel + 1) cs = some (.alt left right, rest) := by
  rw [readAlternatives, hLeft]
  show (readAlternatives fuel back >>= _) = _
  rw [hRight]
  rfl

theorem readAlternatives_last {fuel : Nat} {cs : List Char} {pattern : Pattern}
    (h : readSequence fuel cs = some (pattern, [])) :
    readAlternatives (fuel + 1) cs = some (pattern, []) := by
  rw [readAlternatives, h]
  rfl

theorem length_le_escaped (cs : List Char) : cs.length ≤ (escaped cs).length := by
  induction cs with
  | nil => exact Nat.le_refl 0
  | cons c rest ih =>
      have hCons : escaped (c :: rest) = (if c = '$' then ['\\', '$'] else [c]) ++ escaped rest :=
        rfl
      have hOne : 1 ≤ (if c = '$' then ['\\', '$'] else [c]).length := by
        by_cases hDollar : c = '$'
        · rw [if_pos hDollar]
          decide
        · rw [if_neg hDollar]
          exact Nat.le_refl 1
      rw [hCons, List.length_append, List.length_cons]
      omega

/-- The text of the standard pattern spells that pattern. -/
theorem parse?_standardText {name : String} (hName : ∀ c ∈ name.toList, Alias.isPart c = true) :
    parse? (Alias.standardText name) = some (Alias.standardPattern name.toList) := by
  have hText : (Alias.standardText name).toList =
      '^' :: ' ' :: '*' :: (escaped name.toList ++ ' ' :: '*' :: '$' :: '|' ::
        '^' :: ' ' :: '*' :: (escaped name.toList ++ '\\' :: '.' :: '|' ::
        '\\' :: 'W' :: (escaped name.toList ++ '\\' :: '.' :: '|' ::
        '\\' :: '(' :: ' ' :: '*' ::
          (escaped name.toList ++ ' ' :: '*' :: '\\' :: ')' :: [])))) := by
    simp only [Alias.standardText, String.toList_append, String.toList_ofList, List.append_assoc]
    rfl
  have hLong : name.toList.length + 5 ≤ (Alias.standardText name).toList.length := by
    have hEscaped := length_le_escaped name.toList
    rw [hText]
    simp only [List.length_cons, List.length_append]
    omega
  obtain ⟨fuel, hFuel⟩ : ∃ fuel, 4 * (Alias.standardText name).toList.length + 4 = fuel + 4 :=
    ⟨_, rfl⟩
  have hEnough : name.toList.length + 5 ≤ fuel := by omega
  have hBar : ∀ rest, EndsAlternative ('|' :: rest) := fun rest => .inr ⟨rest, rfl⟩
  have hRead : readAlternatives (fuel + 4) (Alias.standardText name).toList =
      some (Alias.standardPattern name.toList, []) := by
    rw [hText]
    refine readAlternatives_bar (readSequence_alone hName (hBar _) (by omega)) ?_
    refine readAlternatives_bar (readSequence_path hName (hBar _) (by omega)) ?_
    refine readAlternatives_bar (readSequence_inner hName (hBar _) (by omega)) ?_
    exact readAlternatives_last (readSequence_enclosed hName (.inl rfl) hEnough)
  simp only [parse?, hFuel, hRead]
  rw [if_pos (by rw [Alias.names_standardPattern]; exact List.nodup_nil)]

/-- The text of the standard pattern asks for the search for that pattern. -/
theorem search?_standardText {name : String} (hName : ∀ c ∈ name.toList, Alias.isPart c = true) :
    search? (Alias.standardText name) = some (Alias.standardPattern name.toList).found := by
  rw [search?, parse?_standardText hName, Option.map_some]

end Pattern

end BoundQuery
