import BoundQuery.Proofs.Placeholder.Exchange

/-!
# Texts apart from their placeholders

The skeleton of a text is the text with one and the same mark for every placeholder: two texts have
the same skeleton when they differ in nothing but what their placeholders refer to. Together with
the list of these, `kinds`, the skeleton can be read off a text that is put together from quiet
parts and placeholders.
-/

namespace BoundQuery.Placeholder

/-- The character of a segment, or nothing for a placeholder. -/
def Segment.plain? : Segment → Option Char
  | .plain c => some c
  | .marker _ _ => none

/-- The characters of a text, with nothing in the place of each placeholder. -/
def skeleton (text : String) : List (Option Char) := (segments text).map Segment.plain?

theorem skeleton_quiet_append {front : String} (h : Quiet front.toList) (back : String) :
    skeleton (front ++ back) = front.toList.map some ++ skeleton back := by
  simp only [skeleton, segments, String.toList_append]
  rw [scan_quiet_append h, List.map_append, List.map_map]
  rfl

theorem skeleton_mark_append {kind : Kind} {mark : String} (h : Spells false kind mark.toList)
    {back : String} (hApart : Apart back.toList) :
    skeleton (mark ++ back) = none :: skeleton back := by
  simp only [skeleton, segments, String.toList_append]
  rw [scan_spelling_append h hApart]
  rfl

theorem kinds_mark_append {kind : Kind} {mark : String} (h : Spells false kind mark.toList)
    {back : String} (hApart : Apart back.toList) :
    kinds (mark ++ back) = kind :: kinds back := by
  simp only [kinds_eq, segments, String.toList_append]
  rw [scan_spelling_append h hApart]
  rfl

theorem spells_namedText {name : String} (hNonempty : name ≠ "")
    (hName : name.toList.all isNameChar = true) :
    Spells false (.named name) (namedText name).toList := by
  have hSpells : Spells false (.named (String.ofList name.toList)) (':' :: name.toList) := by
    refine .named name.toList ?_ hName
    intro hNil
    exact hNonempty (String.toList_inj.mp hNil)
  rw [String.ofList_toList] at hSpells
  rw [namedText, String.toList_append]
  exact hSpells

end BoundQuery.Placeholder
