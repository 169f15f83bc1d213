import BoundQuery.Proofs.Alias.Reading
import BoundQuery.Proofs.Placeholder.Qualified

/-!
# Qualified fields

Under the standard rule a field is left alone when it carries the alias, and else is put behind the
alias and a point, after which it does carry it. `qualify_by_standard_rule` says this for every
alias that is accepted, and that a caller who gives the text of the standard pattern as a pattern of
their own gets the same.
-/

namespace BoundQuery

namespace Alias

/-- An alias is not empty and does not start with a space. -/
theorem noSpace (name : Alias) (rest : List Char) : NoSpace (name.text.toList ++ rest) := by
  have hIdentifier := name.identifier
  cases hText : name.text.toList with
  | nil =>
      rw [hText] at hIdentifier
      exact absurd hIdentifier (by decide)
  | cons c later =>
      have hPart := name.isPart_of_mem c (hText ▸ .head _)
      intro d hd
      rw [← Option.some.inj hd]
      exact Pattern.ne_of_isPart hPart (by decide +kernel)

end Alias

namespace Scope

theorem ofAlias_eq_ok {text : String} {scope : Scope} (h : ofAlias text = .ok scope) :
    Alias.ofText text = .ok scope.entityAlias ∧ scope.entityAlias.text = Text.trim text ∧
      scope.marking = .standard := by
  unfold ofAlias Alias.ofText at h
  unfold Alias.ofText
  by_cases hIdentifier : Alias.isIdentifier (Text.trim text).toList = true
  · rw [dif_pos hIdentifier] at h ⊢
    obtain rfl := Except.ok.inj h
    exact ⟨rfl, rfl, rfl⟩
  · rw [dif_neg hIdentifier] at h
    exact absurd h (by simp [bind, Except.bind])

section Standard

variable {scope : Scope} (hMarking : scope.marking = .standard)
include hMarking

theorem carries_iff (field : String) :
    scope.carries field = true ↔
      Alias.Carried scope.entityAlias.text.toList field.toList := by
  rw [carries, hMarking]
  exact Alias.carriedBy_iff scope.entityAlias.noSpace

/-- A field behind the alias and a point carries the alias. -/
theorem carries_qualify (field : String) : scope.carries (scope.qualify field) = true := by
  by_cases hCarries : scope.carries field = true
  · rw [qualify, if_pos hCarries, hCarries]
  · rw [qualify, if_neg hCarries, carries_iff hMarking, String.append_assoc, String.toList_append,
      String.toList_append]
    exact .path 0 field.toList

end Standard

/-- The scope of an alias and the text of the standard pattern. -/
theorem ofPattern_standardText {text : String} {name : Alias} (h : Alias.ofText text = .ok name) :
    ofPattern text (Alias.standardText name.text) =
      .ok ⟨name, .search (Alias.standardPattern name.text.toList).found⟩ := by
  rw [ofPattern, h, Pattern.search?_standardText name.isPart_of_mem]
  rfl

/-- The scope of an alias that is accepted. The alias is the text without the blanks around it. The
fields that carry it are those of the four shapes; they are left alone, all others are put behind
the alias and a point. A qualified field carries the alias, so qualifying it again changes nothing.
All this is what the search for the standard pattern gives. -/
theorem qualify_by_standard_rule {text : String} {scope : Scope}
    (hScope : ofAlias text = .ok scope) :
    let name := Text.trim text
    (∀ field, scope.carries field = true ↔ Alias.Carried name.toList field.toList) ∧
    (∀ field, Alias.Carried name.toList field.toList → scope.qualify field = field) ∧
    (∀ field, ¬ Alias.Carried name.toList field.toList →
      scope.qualify field = name ++ "." ++ field) ∧
    (∀ field, scope.carries (scope.qualify field) = true ∧
      scope.qualify (scope.qualify field) = scope.qualify field) ∧
    ∃ searched, ofPattern text (Alias.standardText name) = .ok searched ∧
      ∀ field, searched.carries field = scope.carries field ∧
        searched.qualify field = scope.qualify field := by
  intro name
  obtain ⟨hAlias, hName, hMarking⟩ := ofAlias_eq_ok hScope
  have hCarries : ∀ field, scope.carries field = true ↔
      Alias.Carried name.toList field.toList := by
    intro field
    rw [carries_iff hMarking, hName]
  refine ⟨hCarries, ?_, ?_, ?_, ?_⟩
  · intro field hCarried
    exact if_pos ((hCarries field).mpr hCarried)
  · intro field hCarried
    have hNot : ¬ scope.carries field = true := mt (hCarries field).mp hCarried
    rw [qualify, if_neg hNot, hName]
  · intro field
    have hQualified := carries_qualify hMarking field
    exact ⟨hQualified, if_pos hQualified⟩
  · have hSearch := ofPattern_standardText hAlias
    rw [hName] at hSearch
    have hSame : ∀ field,
        (Alias.standardPattern name.toList).found field = scope.carries field := by
      intro field
      rw [Bool.eq_iff_iff, Alias.found_standardPattern_iff, hCarries]
    refine ⟨_, hSearch, fun field => ⟨hSame field, ?_⟩⟩
    show (if (Alias.standardPattern name.toList).found field = true then field else _) = _
    rw [hSame]
    rfl

/-- An alias with a dollar sign: it is found in parentheses with spaces, but not in a longer
word. -/
theorem qualify_by_standard_rule_dollar :
    ∃ scope, ofAlias " e$1 " = .ok scope ∧ scope.carries "SUM( e$1 )" = true ∧
      scope.qualify "fe$1.x" = "e$1.fe$1.x" ∧
      ∃ searched, ofPattern " e$1 " "^ *e\\$1 *$|^ *e\\$1\\.|\\We\\$1\\.|\\( *e\\$1 *\\)" =
          .ok searched ∧ searched.qualify "fe$1.x" = "e$1.fe$1.x" := by
  have hIdentifier : Alias.isIdentifier (Text.trim " e$1 ").toList = true := by decide +kernel
  obtain ⟨scope, hScope, hLonger⟩ :
      ∃ scope, ofAlias " e$1 " = .ok scope ∧ ¬ scope.carries "fe$1.x" = true := by
    refine ⟨⟨⟨Text.trim " e$1 ", by decide +kernel⟩, .standard⟩, ?_, by decide +kernel⟩
    rw [ofAlias, Alias.ofText, dif_pos hIdentifier]
    rfl
  have hName : Text.trim " e$1 " = "e$1" := by decide +kernel
  have hText : Alias.standardText "e$1" =
      "^ *e\\$1 *$|^ *e\\$1\\.|\\We\\$1\\.|\\( *e\\$1 *\\)" := by decide +kernel
  have hRule := qualify_by_standard_rule hScope
  simp only [hName, hText] at hRule
  obtain ⟨hCarries, -, hOthers, -, searched, hSearched, hSame⟩ := hRule
  have hEnclosed : Alias.Carried "e$1".toList "SUM( e$1 )".toList :=
    .enclosed ['S', 'U', 'M'] 1 1 []
  have hPut : scope.qualify "fe$1.x" = "e$1.fe$1.x" :=
    hOthers "fe$1.x" (mt (hCarries "fe$1.x").mpr hLonger)
  exact ⟨scope, hScope, (hCarries _).mpr hEnclosed, hPut, searched, hSearched,
    (hSame "fe$1.x").2.trans hPut⟩

end Scope

end BoundQuery
