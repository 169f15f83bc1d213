import BoundQuery.Proofs.Json.Layout

/-!
# Reading a layout

The reader gives back the document that its characters lay out, and stops where they end
(`readValue_laidOut`); twice as many steps as there are characters are enough. So a plain document
is read back from its compact and from its pretty text (`read_compact`, `read_pretty`).
-/

namespace BoundQuery.Json

/-! ## Blanks -/

theorem skipSpace_append {before : List Char} (h : Spaces before) (cs : List Char) :
    skipSpace (before ++ cs) = skipSpace cs := by
  induction before with
  | nil => rfl
  | cons c before ih =>
      have hFirst : isSpace c = true := h c List.mem_cons_self
      have hRest := ih fun d hd => h d (List.mem_cons_of_mem c hd)
      rw [List.cons_append, skipSpace, List.dropWhile_cons, hFirst, if_pos rfl]
      exact hRest

theorem skipSpace_cons {c : Char} (h : isSpace c = false) (rest : List Char) :
    skipSpace (c :: rest) = c :: rest := by
  rw [skipSpace, List.dropWhile_cons, h]
  rfl

theorem skipSpace_skipSpace (cs : List Char) : skipSpace (skipSpace cs) = skipSpace cs := by
  induction cs with
  | nil => rfl
  | cons c rest ih =>
      cases hSpace : isSpace c with
      | false => rw [skipSpace_cons hSpace, skipSpace_cons hSpace]
      | true =>
          have hRest : skipSpace (c :: rest) = skipSpace rest := by
            rw [skipSpace, List.dropWhile_cons, hSpace]
            rfl
          rw [hRest, ih]

theorem readValue_skipSpace (fuel : Nat) (cs : List Char) :
    readValue fuel (skipSpace cs) = readValue fuel cs := by
  cases fuel with
  | zero => rfl
  | succ fuel => rw [readValue, readValue, skipSpace_skipSpace]

theorem readItems_skipSpace (fuel : Nat) (cs : List Char) :
    readItems fuel (skipSpace cs) = readItems fuel cs := by
  cases fuel with
  | zero => rfl
  | succ fuel => rw [readItems, readItems, readValue_skipSpace]

theorem readMembers_skipSpace (fuel : Nat) (cs : List Char) :
    readMembers fuel (skipSpace cs) = readMembers fuel cs := by
  cases fuel with
  | zero => rfl
  | succ fuel => rw [readMembers, readMembers, skipSpace_skipSpace]

/-- Blanks in front of a value are passed over. -/
theorem readValue_append {before : List Char} (h : Spaces before) (fuel : Nat) (cs : List Char) :
    readValue fuel (before ++ cs) = readValue fuel cs := by
  rw [← readValue_skipSpace, skipSpace_append h, readValue_skipSpace]

theorem isSpace_colon : isSpace ':' = false := by decide

/-! ## What follows a value -/

theorem endsNumber_nil : EndsNumber [] := fun _ h => absurd h (by simp)

theorem endsNumber_cons {c : Char}
    (h : Text.isDigit c = false ∧ c ≠ '.' ∧ c ≠ 'e' ∧ c ≠ 'E') (rest : List Char) :
    EndsNumber (c :: rest) := by
  intro d hd
  exact Option.mem_some_iff.mp hd ▸ h

theorem EndsNumber.spaces {after rest : List Char} (h : EndsNumber rest) (hAfter : Spaces after) :
    EndsNumber (after ++ rest) := by
  cases after with
  | nil => exact h
  | cons c after =>
      refine endsNumber_cons ?_ (after ++ rest)
      have hSpace := hAfter c List.mem_cons_self
      simp only [isSpace, Bool.or_eq_true, decide_eq_true_eq] at hSpace
      rcases hSpace with ((rfl | rfl) | rfl) | rfl <;> decide

/-! ## The first character -/

/-- A number does not start with a blank. -/
theorem isSpace_of_number {c : Char} (h : Text.isDigit c = true ∨ c = '-') : isSpace c = false := by
  cases hSpace : isSpace c with
  | false => rfl
  | true =>
      simp only [isSpace, Bool.or_eq_true, decide_eq_true_eq] at hSpace
      rcases hSpace with ((rfl | rfl) | rfl) | rfl <;> exact absurd h (by decide)

/-- A layout starts neither with a blank nor with a closing bracket. -/
theorem LaidOut.exists_first {json : Json} {text : List Char} (h : json.LaidOut text) :
    ∃ c rest, text = c :: rest ∧ isSpace c = false ∧ c ≠ ']' := by
  cases json with
  | null => exact ⟨'n', ['u', 'l', 'l'], h, by decide, by decide⟩
  | boolean b =>
      cases b with
      | false => exact ⟨'f', ['a', 'l', 's', 'e'], h, by decide, by decide⟩
      | true => exact ⟨'t', ['r', 'u', 'e'], h, by decide, by decide⟩
  | number spelling =>
      obtain ⟨rfl, n, rfl⟩ := h
      obtain ⟨c, rest, hText, hFirst⟩ := exists_first_toString n
      refine ⟨c, rest, hText, ?_, ?_⟩
      · exact isSpace_of_number hFirst
      · rintro rfl
        exact absurd hFirst (by decide)
  | string s => exact ⟨'"', _, h, by decide, by decide⟩
  | array items =>
      obtain ⟨inside, hText, -⟩ := h
      exact ⟨'[', _, hText, by decide, by decide⟩
  | object members =>
      obtain ⟨inside, hText, -⟩ := h
      exact ⟨'\x7b', _, hText, by decide, by decide⟩
  | unpaired => exact h.elim
  | cut => exact h.elim

theorem ItemsLaidOut.exists_first {items : List Json} {cs : List Char} (h : ItemsLaidOut items cs)
    (back : List Char) : ∃ c rest, skipSpace (cs ++ back) = c :: rest ∧ c ≠ ']' := by
  cases items with
  | nil => exact h.elim
  | cons item items =>
      obtain ⟨before, text, after, behind, hBefore, -, hText, rfl, -⟩ := h
      obtain ⟨c, rest, rfl, hSpace, hBracket⟩ := hText.exists_first
      refine ⟨c, rest ++ after ++ behind ++ back, ?_, hBracket⟩
      rw [List.append_assoc, List.append_assoc, List.append_assoc, skipSpace_append hBefore,
        List.cons_append, skipSpace_cons hSpace]
      simp

theorem MembersLaidOut.exists_first {members : List (Option String × Json)} {cs : List Char}
    (h : MembersLaidOut members cs) (back : List Char) :
    ∃ rest, skipSpace (cs ++ back) = '"' :: rest := by
  cases members with
  | nil => exact h.elim
  | cons member members =>
      obtain ⟨name, before, gap, text, after, behind, -, hBefore, -, -, -, rfl, -⟩ := h
      have hText : before ++ quoted name ++ ':' :: gap ++ text ++ after ++ behind ++ back =
          before ++ '"' :: (name.toList.flatMap escape ++ '"' :: ':' :: gap ++ text ++ after ++
            behind ++ back) := by
        simp [quoted]
      rw [hText, skipSpace_append hBefore, skipSpace_cons (by decide)]
      exact ⟨_, rfl⟩

/-! ## Reading -/

/-- A reader that has twice as many steps as there are characters has one for a character. -/
theorem exists_step {length fuel : Nat} (hLength : 0 < length) (h : 2 * length ≤ fuel) :
    ∃ rest, fuel = rest + 1 := ⟨fuel - 1, by omega⟩

/-- A document that starts like a number is read as a number. -/
theorem readValue_number {c : Char} {rest spelling back : List Char} (fuel : Nat)
    (h : Text.isDigit c = true ∨ c = '-')
    (hRead : readNumber (c :: rest) = some (spelling, back)) :
    readValue (fuel + 1) (c :: rest) = (.number (String.ofList spelling), back) := by
  have hOthers : isSpace c = false ∧ c ≠ '"' ∧ c ≠ '[' ∧ c ≠ '\x7b' ∧ c ≠ 'n' ∧ c ≠ 't' ∧
      c ≠ 'f' := by
    refine ⟨?_, ?_, ?_, ?_, ?_, ?_, ?_⟩
    · exact isSpace_of_number h
    all_goals
      rintro rfl
      exact absurd h (by decide)
  obtain ⟨hSpace, hQuote, hBracket, hBrace, hNull, hTrue, hFalse⟩ := hOthers
  rw [readValue, skipSpace_cons hSpace]
  simp only [hQuote, hBracket, hBrace, hNull, hTrue, hFalse, if_false, hRead]

/-- A document that starts with a quote is read as a string. -/
theorem readValue_quoted (fuel : Nat) (s : String) (rest : List Char) :
    readValue (fuel + 1) (quoted s ++ rest) = (.string s, rest) := by
  have hText : quoted s ++ rest = '"' :: (s.toList.flatMap escape ++ '"' :: rest) := by
    simp [quoted]
  rw [hText, readValue, skipSpace_cons (by decide)]
  simp only [if_true, readCodes_escape, pairCodes_toNat, String.ofList_toList]

mutual

/-- A document is read from its layout, whatever follows. -/
theorem readValue_laidOut : ∀ (json : Json) {text rest : List Char} {fuel : Nat},
    json.LaidOut text → EndsNumber rest → 2 * text.length ≤ fuel →
      readValue fuel (text ++ rest) = (json, rest)
  | .null, text, rest, fuel, h, _, hFuel => by
      obtain rfl : text = ['n', 'u', 'l', 'l'] := h
      obtain ⟨fuel, rfl⟩ := exists_step (by decide) hFuel
      simp [readValue, skipSpace, isSpace, readWord]
  | .boolean true, text, rest, fuel, h, _, hFuel => by
      obtain rfl : text = ['t', 'r', 'u', 'e'] := h
      obtain ⟨fuel, rfl⟩ := exists_step (by decide) hFuel
      simp [readValue, skipSpace, isSpace, readWord]
  | .boolean false, text, rest, fuel, h, _, hFuel => by
      obtain rfl : text = ['f', 'a', 'l', 's', 'e'] := h
      obtain ⟨fuel, rfl⟩ := exists_step (by decide) hFuel
      simp [readValue, skipSpace, isSpace, readWord]
  | .number spelling, text, rest, fuel, h, hRest, hFuel => by
      obtain ⟨rfl, n, rfl⟩ := h
      obtain ⟨c, digits, hText, hFirst⟩ := exists_first_toString n
      have hLength : 0 < (toString n).toList.length := by
        rw [hText]
        exact Nat.succ_pos _
      obtain ⟨fuel, rfl⟩ := exists_step hLength hFuel
      have hRead := readNumber_toString n hRest
      rw [hText, List.cons_append] at hRead
      rw [hText, List.cons_append, readValue_number fuel hFirst hRead, ← hText,
        String.ofList_toList]
  | .string s, text, rest, fuel, h, _, hFuel => by
      obtain rfl : text = quoted s := h
      obtain ⟨fuel, rfl⟩ := exists_step (by simp [quoted]) hFuel
      exact readValue_quoted fuel s rest
  | .array items, text, rest, fuel, h, _, hFuel => by
      obtain ⟨inside, rfl, hItems⟩ := h
      obtain ⟨fuel, rfl⟩ := exists_step (by simp) hFuel
      simp only [List.cons_append, List.length_cons, List.length_append, List.length_nil] at hFuel
      rw [List.append_assoc, List.cons_append, List.singleton_append]
      rcases hItems with ⟨rfl, rfl⟩ | hItems
      · rw [readValue, skipSpace_cons (by decide)]
        simp [skipSpace, isSpace]
      · obtain ⟨c, back, hSkip, hBracket⟩ := hItems.exists_first (']' :: rest)
        have hRead := @readItems_laidOut items inside rest fuel hItems (by omega)
        rw [← readItems_skipSpace, hSkip] at hRead
        rw [readValue, skipSpace_cons (by decide)]
        simp [hSkip, hBracket, hRead]
  | .object members, text, rest, fuel, h, _, hFuel => by
      obtain ⟨inside, rfl, hMembers⟩ := h
      obtain ⟨fuel, rfl⟩ := exists_step (by simp) hFuel
      simp only [List.cons_append, List.length_cons, List.length_append, List.length_nil] at hFuel
      rw [List.append_assoc, List.cons_append, List.singleton_append]
      rcases hMembers with ⟨rfl, rfl⟩ | hMembers
      · rw [readValue, skipSpace_cons (by decide)]
        simp [skipSpace, isSpace]
      · obtain ⟨back, hSkip⟩ := hMembers.exists_first ('\x7d' :: rest)
        have hRead := @readMembers_laidOut members inside rest fuel hMembers (by omega)
        rw [← readMembers_skipSpace, hSkip] at hRead
        rw [readValue, skipSpace_cons (by decide)]
        simp [hSkip, hRead]
  | .unpaired, _, _, _, h, _, _ => h.elim
  | .cut, _, _, _, h, _, _ => h.elim

theorem readItems_laidOut : ∀ (items : List Json) {cs rest : List Char} {fuel : Nat},
    ItemsLaidOut items cs → 2 * cs.length + 1 ≤ fuel →
      readItems fuel (cs ++ ']' :: rest) = (items, rest)
  | [], _, _, _, h, _ => h.elim
  | item :: items, cs, rest, fuel, h, hFuel => by
      obtain ⟨before, text, after, behind, hBefore, hAfter, hText, rfl, hBehind⟩ := h
      obtain ⟨fuel, rfl⟩ := Nat.exists_eq_add_of_le' (Nat.le_of_add_left_le hFuel)
      simp only [List.length_append] at hFuel
      rcases hBehind with ⟨rfl, rfl⟩ | ⟨later, rfl, hLater⟩
      · have hEnds := (@endsNumber_cons ']' (by decide) rest).spaces hAfter
        have hItem := @readValue_laidOut item text _ fuel hText hEnds (by omega)
        have hClosing : skipSpace (after ++ ']' :: rest) = ']' :: rest := by
          rw [skipSpace_append hAfter, skipSpace_cons (by decide)]
        simp only [List.append_nil, List.append_assoc]
        rw [readItems, readValue_append hBefore, hItem]
        simp only [hClosing]
      · rw [List.length_cons] at hFuel
        have hEnds := (@endsNumber_cons ',' (by decide) (later ++ ']' :: rest)).spaces hAfter
        have hItem := @readValue_laidOut item text _ fuel hText hEnds (by omega)
        have hItems := @readItems_laidOut items later rest fuel hLater (by omega)
        have hComma : skipSpace (after ++ ',' :: (later ++ ']' :: rest)) =
            ',' :: (later ++ ']' :: rest) := by
          rw [skipSpace_append hAfter, skipSpace_cons (by decide)]
        simp only [List.append_assoc, List.cons_append]
        rw [readItems, readValue_append hBefore, hItem]
        simp only [hComma, hItems]

theorem readMembers_laidOut : ∀ (members : List (Option String × Json)) {cs rest : List Char}
    {fuel : Nat}, MembersLaidOut members cs → 2 * cs.length + 1 ≤ fuel →
      readMembers fuel (cs ++ '\x7d' :: rest) = (members, rest)
  | [], _, _, _, h, _ => h.elim
  | (key, value) :: members, cs, rest, fuel, h, hFuel => by
      obtain ⟨name, before, gap, text, after, behind, rfl, hBefore, hGap, hAfter, hText, rfl,
        hBehind⟩ := h
      obtain ⟨fuel, rfl⟩ := Nat.exists_eq_add_of_le' (Nat.le_of_add_left_le hFuel)
      simp only [List.length_append, List.length_cons] at hFuel
      rcases hBehind with ⟨rfl, rfl⟩ | ⟨later, rfl, hLater⟩
      · have hEnds := (@endsNumber_cons '\x7d' (by decide) rest).spaces hAfter
        have hValue := @readValue_laidOut value text _ fuel hText hEnds (by omega)
        have hClosing : skipSpace (after ++ '\x7d' :: rest) = '\x7d' :: rest := by
          rw [skipSpace_append hAfter, skipSpace_cons (by decide)]
        have hColon : before ++ quoted name ++ ':' :: gap ++ text ++ after ++ [] ++ '\x7d' :: rest =
            before ++ '"' :: (name.toList.flatMap escape ++
              '"' :: ':' :: (gap ++ (text ++ (after ++ '\x7d' :: rest)))) := by
          simp [quoted]
        rw [hColon, readMembers, skipSpace_append hBefore, skipSpace_cons (by decide)]
        simp only [readCodes_escape, pairCodes_toNat, Option.map_some, String.ofList_toList,
          skipSpace_cons isSpace_colon, readValue_append hGap, hValue, hClosing]
      · rw [List.length_cons] at hFuel
        have hEnds := (@endsNumber_cons ',' (by decide) (later ++ '\x7d' :: rest)).spaces hAfter
        have hValue := @readValue_laidOut value text _ fuel hText hEnds (by omega)
        have hMembers := @readMembers_laidOut members later rest fuel hLater (by omega)
        have hComma : skipSpace (after ++ ',' :: (later ++ '\x7d' :: rest)) =
            ',' :: (later ++ '\x7d' :: rest) := by
          rw [skipSpace_append hAfter, skipSpace_cons (by decide)]
        have hColon : before ++ quoted name ++ ':' :: gap ++ text ++ after ++ ',' :: later ++
            '\x7d' :: rest =
            before ++ '"' :: (name.toList.flatMap escape ++
              '"' :: ':' :: (gap ++ (text ++ (after ++ ',' :: (later ++ '\x7d' :: rest))))) := by
          simp [quoted]
        rw [hColon, readMembers, skipSpace_append hBefore, skipSpace_cons (by decide)]
        simp only [readCodes_escape, pairCodes_toNat, Option.map_some, String.ofList_toList,
          skipSpace_cons isSpace_colon, readValue_append hGap, hValue, hComma, hMembers]

end

/-! ## Whole texts -/

theorem readFront_laidOut {json : Json} {text : List Char} (h : json.LaidOut text) :
    readFront text = (json, []) := by
  have hRead := @readValue_laidOut json text [] (2 * text.length + 2) h endsNumber_nil (by omega)
  rwa [List.append_nil] at hRead

theorem read_laidOut {json : Json} {text : List Char} (h : json.LaidOut text) :
    read (String.ofList text) = (json, true) := by
  rw [read, String.toList_ofList, readFront_laidOut h]
  rfl

/-- A plain document is read back from its text without blanks. -/
theorem read_compact {json : Json} (h : json.Plain) : read json.compact = (json, true) :=
  read_laidOut (laidOut_chars json h)

/-- A plain document is read back from its text with one item or member a line. -/
theorem read_pretty {json : Json} (h : json.Plain) : read json.pretty = (json, true) :=
  read_laidOut (laidOut_prettyChars json 0 h)

end BoundQuery.Json
