import BoundQuery.Proofs.Placeholder.Exchange

/-!
# The placeholders of joined texts

A text that is closed and one that does not continue it are scanned each on its own, so the
placeholders of both together are those of the front and those of the back, the latter moved by the
bytes of the front (`placeholders_append`). `placeholders_listed` repeats this for texts in a list,
each of them behind a comma.
-/

namespace BoundQuery.Placeholder

open Text (byteLength)

/-- A placeholder behind some bytes more. -/
def shifted (offset : Nat) (token : Placeholder) : Placeholder :=
  ⟨token.kind, ⟨offset + token.span.start, offset + token.span.stop⟩⟩

theorem shifted_shifted (first second : Nat) (token : Placeholder) :
    shifted first (shifted second token) = shifted (first + second) token := by
  simp only [shifted, Nat.add_assoc]

theorem located_shifted (offset start : Nat) (parts : List Segment) :
    located (offset + start) parts = (located start parts).map (shifted offset) := by
  induction parts generalizing start with
  | nil => rfl
  | cons part rest ih =>
      cases part with
      | plain c =>
          show located (offset + start + c.utf8Size) rest = _
          rw [Nat.add_assoc, ih]
          rfl
      | marker kind spelling =>
          show _ :: located (offset + start + byteLength spelling) rest = _
          rw [Nat.add_assoc, ih]
          rfl

theorem located_append (start : Nat) (front back : List Segment) :
    located start (front ++ back) =
      located start front ++ located (start + byteLength (spelled front)) back := by
  induction front generalizing start with
  | nil => rfl
  | cons part rest ih =>
      have hLength : start + byteLength part.spelling + byteLength (spelled rest) =
          start + byteLength (spelled (part :: rest)) := by
        rw [spelled_cons, Text.byteLength_append, Nat.add_assoc]
      cases part with
      | plain c =>
          show located (start + byteLength [c]) (rest ++ back) = _
          rw [ih, ← hLength]
          rfl
      | marker kind spelling =>
          show _ :: located (start + byteLength spelling) (rest ++ back) = _
          rw [ih, ← hLength]
          rfl

theorem placeholders_eq_nil_iff {text : String} : placeholders text = [] ↔ kinds text = [] := by
  rw [kinds, List.map_eq_nil_iff]

/-- Texts that are cut each on its own have their placeholders one after the other. -/
theorem placeholders_of_segments {front back : String}
    (h : segments (front ++ back) = segments front ++ segments back) :
    placeholders (front ++ back) =
      placeholders front ++ (placeholders back).map (shifted (byteLength front.toList)) := by
  have hSpelled : spelled (segments front) = front.toList := spelled_scan false false 0 front.toList
  have hBack : located (byteLength front.toList) (segments back) =
      (placeholders back).map (shifted (byteLength front.toList)) :=
    located_shifted (byteLength front.toList) 0 (segments back)
  show located 0 (segments (front ++ back)) = located 0 (segments front) ++ _
  rw [h, located_append, Nat.zero_add, hSpelled, hBack]

theorem placeholders_append {front back : String} (hClosed : Closed front)
    (hApart : Apart back.toList) :
    placeholders (front ++ back) =
      placeholders front ++ (placeholders back).map (shifted (byteLength front.toList)) :=
  placeholders_of_segments (segments_append hClosed hApart)

/-- A quiet text in front only moves placeholders, whatever follows it. -/
theorem placeholders_quiet_append {front : String} (h : Quiet front.toList) (back : String) :
    placeholders (front ++ back) =
      (placeholders back).map (shifted (byteLength front.toList)) := by
  have hFront : segments front = front.toList.map .plain := scan_quiet h
  have hNone : placeholders front = [] := placeholders_eq_nil_iff.mpr (kinds_quiet h)
  have hBoth : segments (front ++ back) = segments front ++ segments back := by
    rw [segments_quiet_append h, hFront]
  rw [placeholders_of_segments hBoth, hNone, List.nil_append]

/-- A text whose first character cannot continue anything continues nothing as a whole. -/
theorem apart_of_front {front : String} {c : Char} {rest : List Char}
    (hChar : (isNameChar c || c = ':') = false) (hFront : front.toList = c :: rest)
    (back : String) : Apart (front ++ back).toList := by
  rw [String.toList_append, hFront]
  exact stops_cons hChar

/-! ## Texts behind commas -/

/-- Texts, each behind a comma. -/
def listed (texts : List String) : String := String.join (texts.map (", " ++ ·))

theorem listed_cons (text : String) (rest : List String) :
    listed (text :: rest) = ", " ++ text ++ listed rest := String.join_cons

theorem listed_singleton (text : String) : listed [text] = ", " ++ text := by
  rw [listed_cons]
  exact String.append_empty

theorem listed_append (front back : List String) :
    listed (front ++ back) = listed front ++ listed back := by
  simp only [listed, List.map_append, String.join_append]

/-- The placeholders of texts in a list, in their order. -/
def listedPlaceholders : List String → List Placeholder
  | [] => []
  | text :: rest =>
      ((placeholders text) ++
        (listedPlaceholders rest).map (shifted (byteLength text.toList))).map (shifted 2)

/-- A list of texts does not continue what stands before it, if what ends it does not. -/
theorem apart_listed (texts : List String) {back : String} (hBack : Apart back.toList) :
    Apart (listed texts ++ back).toList := by
  cases texts with
  | nil => exact hBack
  | cons text rest =>
      rw [listed_cons, String.append_assoc, String.append_assoc]
      exact apart_of_front (by decide) rfl _

/-- Closed texts in a list are scanned each on its own. -/
theorem placeholders_listed {texts : List String} (hClosed : ∀ text ∈ texts, Closed text)
    {back : String} (hApart : Apart back.toList) (hNone : placeholders back = []) :
    placeholders (listed texts ++ back) = listedPlaceholders texts := by
  induction texts with
  | nil => exact hNone
  | cons text rest ih =>
      have hText : Closed text := hClosed text (.head _)
      have hRest := ih fun other hOther => hClosed other (.tail _ hOther)
      rw [listed_cons, String.append_assoc, String.append_assoc,
        placeholders_quiet_append (by decide), placeholders_append hText (apart_listed rest hApart),
        hRest]
      rfl

end BoundQuery.Placeholder
