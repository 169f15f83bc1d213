import BoundQuery.Proofs.Draft.Literal
import BoundQuery.Proofs.Numbering
import BoundQuery.Proofs.Placeholder.Joined
import BoundQuery.Proofs.Placeholder.Skeleton

/-!
# The text of a native fragment stays inside its literal

A native fragment is written as a call: its text as a quoted literal, then its arguments behind
commas. `Argument.places` hands the bindings from one argument to the next, and `Place.renderings`
are the texts that stand for an argument at its place. Quotes of the text are doubled, which
`undoubled?` takes back, so the literal ends where the fragment has put its end, and a scan meets
the placeholders of the renderings and no others (`native_text_stays_inside`).
-/

namespace BoundQuery

open Placeholder
  (Apart Closed isNameChar listed listedPlaceholders namedText positionalText shifted)
open Text (byteLength)

/-! ## Doubled quotes -/

/-- Characters with each double quote made one; a quote that stands alone is refused. -/
def Snippet.undoubled? : List Char → Option (List Char)
  | [] => some []
  | '\'' :: '\'' :: rest => (undoubled? rest).map ('\'' :: ·)
  | c :: rest => if c = '\'' then none else (undoubled? rest).map (c :: ·)

theorem Snippet.undoubled?_doubled (cs : List Char) : undoubled? (doubled cs) = some cs := by
  induction cs with
  | nil => rfl
  | cons c rest ih =>
      by_cases hQuote : c = '\''
      · subst hQuote
        show (undoubled? (doubled rest)).map ('\'' :: ·) = _
        rw [ih]
        rfl
      · have hCons : doubled (c :: rest) = c :: doubled rest := by
          rw [doubled, List.flatMap_cons, if_neg hQuote]
          rfl
        have hPlain : ∀ back, undoubled? (c :: back) = (undoubled? back).map (c :: ·) := by
          intro back
          rw [undoubled?, if_neg hQuote]
          intro later hFalse
          exact absurd hFalse hQuote
        rw [hCons, hPlain, ih]
        rfl

/-! ## Arguments at their places -/

/-- An argument of a native fragment, and the bindings over which it is written. -/
structure Place where
  argument : Argument
  bindings : Bindings

/-- The places of arguments that are written one after the other. -/
def Argument.places (scope : Scope) (bindings : Bindings) : List Argument → List Place
  | [] => []
  | argument :: rest =>
      ⟨argument, bindings⟩ :: places scope (argument.writeNative scope bindings).bindings rest

namespace Place

/-- The texts that stand for an argument: one for a value and for a clause, and one for each key of
a mapping. -/
def renderings (scope : Scope) (place : Place) : List String :=
  match place.argument with
  | .value plain =>
      [if plain.isNull then "NULL" else positionalText (place.bindings.size + 1)]
  | .mapping more => more.keys.map namedText
  | .clause part => [(part.write scope place.bindings).text]
  | .paging _ => []

/-- A clause whose quotes come in pairs, or a mapping whose keys are names. -/
def Tame (scope : Scope) (place : Place) : Prop :=
  match place.argument with
  | .clause part => EvenQuotes (part.write scope place.bindings).text
  | .mapping more => ∀ key ∈ more.keys, key ≠ "" ∧ key.toList.all isNameChar = true
  | .value _ | .paging _ => True

instance (scope : Scope) (place : Place) : Decidable (place.Tame scope) :=
  match place with
  | ⟨.clause part, bindings⟩ =>
      inferInstanceAs (Decidable (EvenQuotes (part.write scope bindings).text))
  | ⟨.mapping more, _⟩ =>
      inferInstanceAs
        (Decidable (∀ key ∈ more.keys, key ≠ "" ∧ key.toList.all isNameChar = true))
  | ⟨.value _, _⟩ | ⟨.paging _, _⟩ => .isTrue trivial

theorem closed_of_mem_renderings {scope : Scope} {place : Place} (hTame : place.Tame scope)
    {text : String} (hText : text ∈ place.renderings scope) : Closed text := by
  obtain ⟨argument, bindings⟩ := place
  cases argument with
  | value plain =>
      obtain rfl := List.mem_singleton.mp hText
      by_cases hNull : plain.isNull = true
      · rw [if_pos hNull]
        exact Placeholder.closed_of_quiet (by decide)
      · rw [if_neg hNull]
        exact Placeholder.Counted.closed_positionalText _
  | mapping more =>
      obtain ⟨key, hKey, rfl⟩ := List.mem_map.mp hText
      obtain ⟨hNonempty, hName⟩ := hTame key hKey
      exact (Placeholder.spells_namedText hNonempty hName).leavesOpen false
  | clause part =>
      obtain rfl := List.mem_singleton.mp hText
      exact EvenQuotes.closed hTame
  | paging setting => exact absurd hText List.not_mem_nil

end Place

theorem Snippet.text_writeNativeValue {plain : Value} {bindings : Bindings}
    (h : (writeNativeValue plain bindings).fault = none) :
    (writeNativeValue plain bindings).text =
      ", " ++ (if plain.isNull then "NULL" else positionalText (bindings.size + 1)) := by
  unfold writeNativeValue at h ⊢
  by_cases hNull : plain.isNull = true
  · rw [if_pos hNull, if_pos hNull]
    rfl
  · rw [if_neg hNull] at h ⊢
    rw [if_neg hNull]
    cases bindings with
    | named dict => exact absurd h (by simp [Step.fail])
    | positional values => rfl

theorem Snippet.text_writeNativeMapping {more : Dict Value} {bindings : Bindings}
    (h : (writeNativeMapping more bindings).fault = none) :
    (writeNativeMapping more bindings).text = listed (more.keys.map namedText) := by
  cases bindings with
  | positional values => exact absurd h (by simp [writeNativeMapping, Step.fail])
  | named dict =>
      have hListed : listed (more.keys.map namedText) =
          String.join (more.keys.map fun key => ", " ++ namedText key) := by
        rw [listed, List.map_map]
        rfl
      rw [hListed]
      simp only [writeNativeMapping, Step.ofPairs] at h ⊢
      -- Bindings that clash leave a fault; without one the whole text is there.
      split at h
      · rfl
      · exact absurd h (by simp)

/-- A written argument is its renderings, each behind a comma. -/
theorem Argument.text_writeNative {scope : Scope} {argument : Argument} {bindings : Bindings}
    (h : (argument.writeNative scope bindings).fault = none) :
    (argument.writeNative scope bindings).text =
      listed (Place.renderings scope ⟨argument, bindings⟩) := by
  cases argument with
  | value plain =>
      rw [writeNative] at h ⊢
      rw [Snippet.text_writeNativeValue h, Place.renderings, Placeholder.listed_singleton]
  | mapping more =>
      rw [writeNative] at h ⊢
      exact Snippet.text_writeNativeMapping h
  | clause part =>
      rw [writeNative, Step.append_apply]
      exact (Placeholder.listed_singleton _).symm
  | paging setting => exact absurd h (by simp [writeNative, Step.fail])

/-- Written arguments are their renderings at their places. -/
theorem Argument.text_writeNativeAll {scope : Scope} {arguments : List Argument}
    {bindings : Bindings} (h : (writeNativeAll scope arguments bindings).fault = none) :
    (writeNativeAll scope arguments bindings).text =
      listed ((places scope bindings arguments).flatMap (·.renderings scope)) := by
  induction arguments generalizing bindings with
  | nil => rfl
  | cons argument rest ih =>
      rw [writeNativeAll, Step.append_apply] at h ⊢
      cases hFirst : (argument.writeNative scope bindings).fault with
      | some fault =>
          simp only [hFirst] at h
          exact absurd h (by simp)
      | none =>
          simp only [hFirst] at h ⊢
          rw [text_writeNative hFirst, ih h, places, List.flatMap_cons, Placeholder.listed_append]

namespace Snippet

/-- A written fragment is its literal, the renderings of its arguments, and a parenthesis. -/
theorem text_writeNative {scope : Scope} {text : String} {arguments : List Argument}
    {bindings : Bindings} (h : (writeNative scope (.mk text arguments) bindings).fault = none) :
    (writeNative scope (.mk text arguments) bindings).text =
      literalText text ++
        (listed ((Argument.places scope bindings arguments).flatMap (·.renderings scope)) ++
          ")") := by
  rw [writeNative, Step.append_apply, Step.append_apply] at h ⊢
  simp only [Step.emit] at h ⊢
  cases hArguments : (Argument.writeNativeAll scope arguments bindings).fault with
  | some fault =>
      simp only [hArguments] at h
      exact absurd h (by simp)
  | none =>
      simp only
      show literalText text ++ (Argument.writeNativeAll scope arguments bindings).text ++ ")" = _
      rw [Argument.text_writeNativeAll hArguments, String.append_assoc]

/-- A native fragment that is written is a call. Its text stands first, as a quoted literal from
which doubling back its quotes gives the text; behind it stand the renderings of the arguments. If
these are tame, then a scan of it all finds the placeholders of the renderings, in their order and
where they stand, and none in the literal. -/
theorem native_text_stays_inside (scope : Scope) (text : String) (arguments : List Argument)
    (bindings after : Bindings) (added : String)
    (hWritten : (writeNative scope (.mk text arguments)).finish bindings = .ok (added, after)) :
    let places := Argument.places scope bindings arguments
    let renderings := places.flatMap (·.renderings scope)
    added = "SQL('" ++ doubleQuotes text ++ "'" ++ listed renderings ++ ")" ∧
    undoubled? (doubleQuotes text).toList = some text.toList ∧
    ((∀ place ∈ places, place.Tame scope) →
      placeholders added = (listedPlaceholders renderings).map
        (shifted (byteLength ("SQL('" ++ doubleQuotes text ++ "'").toList))) := by
  intro places renderings
  obtain ⟨hFault, hText, -⟩ := Step.finish_eq_ok.mp hWritten
  have hAdded : added = literalText text ++ (listed renderings ++ ")") :=
    hText.symm.trans (text_writeNative hFault)
  refine ⟨?_, ?_, ?_⟩
  · rw [hAdded, literalText]
    simp only [String.append_assoc]
  · rw [toList_doubleQuotes, undoubled?_doubled]
  · intro hTame
    have hClosed : ∀ rendering ∈ renderings, Closed rendering := by
      intro rendering hRendering
      obtain ⟨place, hPlace, hOne⟩ := List.mem_flatMap.mp hRendering
      exact Place.closed_of_mem_renderings (hTame place hPlace) hOne
    have hParen : Apart ")".toList := Placeholder.stops_cons (by decide)
    have hNone : placeholders (literalText text) = [] :=
      Placeholder.placeholders_eq_nil_iff.mpr (kinds_literalText text)
    rw [hAdded, Placeholder.placeholders_append (closed_literalText text)
        (Placeholder.apart_listed renderings hParen), hNone, List.nil_append,
      Placeholder.placeholders_listed hClosed hParen (by decide +kernel)]
    rfl

/-- By name: a text with quotes, a null, a clause that is a native fragment again, and a mapping. -/
theorem native_text_stays_inside_nested :
    (∃ after, (writeNative Scope.standard (.mk "it''s :x OR '?" [.value .null,
        .clause (.native (.mk "f('?')" [.mapping (Dict.empty.insert "n" (.integer 3))])),
        .mapping ((Dict.empty.insert "a" (.integer 1)).insert "b_$" .null)])).finish
          (.named Dict.empty) =
      .ok ("SQL('it''''s :x OR ''?', NULL, SQL('f(''?'')', :n), :a, :b_$)", after)) ∧
    (∀ place ∈ Argument.places Scope.standard (.named Dict.empty) [.value .null,
        .clause (.native (.mk "f('?')" [.mapping (Dict.empty.insert "n" (.integer 3))])),
        .mapping ((Dict.empty.insert "a" (.integer 1)).insert "b_$" .null)],
      place.Tame Scope.standard) ∧
    placeholders "SQL('it''''s :x OR ''?', NULL, SQL('f(''?'')', :n), :a, :b_$)" =
      (listedPlaceholders ["NULL", "SQL('f(''?'')', :n)", ":a", ":b_$"]).map (shifted 23) := by
  have hWritten : ∃ after, (writeNative Scope.standard (.mk "it''s :x OR '?" [.value .null,
        .clause (.native (.mk "f('?')" [.mapping (Dict.empty.insert "n" (.integer 3))])),
        .mapping ((Dict.empty.insert "a" (.integer 1)).insert "b_$" .null)])).finish
          (.named Dict.empty) =
      .ok ("SQL('it''''s :x OR ''?', NULL, SQL('f(''?'')', :n), :a, :b_$)", after) := ⟨_, rfl⟩
  have hTame : ∀ place ∈ Argument.places Scope.standard (.named Dict.empty) [.value .null,
        .clause (.native (.mk "f('?')" [.mapping (Dict.empty.insert "n" (.integer 3))])),
        .mapping ((Dict.empty.insert "a" (.integer 1)).insert "b_$" .null)],
      place.Tame Scope.standard := by decide +kernel
  obtain ⟨after, hOk⟩ := hWritten
  obtain ⟨-, -, hPlaceholders⟩ := native_text_stays_inside Scope.standard _ _ _ _ _ hOk
  exact ⟨⟨after, hOk⟩, hTame, hPlaceholders hTame⟩

end Snippet

end BoundQuery
