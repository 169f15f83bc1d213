import BoundQuery.Proofs.Json.Spelling

/-!
# Documents are read as they are written

`LaidOut` says which characters lay out a document: the tokens of the grammar in order, with blanks
wherever the grammar allows them. What `compact` and `pretty` write is laid out, if the document is
`Plain`: it has no cuts, no half surrogate pairs and integers for numbers. One induction over the
reader then serves both ways of writing.
-/

namespace BoundQuery.Json

/-! ## Plain documents -/

mutual

/-- Whether a document is what encoders give: every number is an integer, every key a text. -/
def Plain : Json → Prop
  | .null | .boolean _ | .string _ => True
  | .number spelling => ∃ n : Int, spelling = toString n
  | .array items => PlainItems items
  | .object members => PlainMembers members
  | .unpaired | .cut => False

def PlainItems : List Json → Prop
  | [] => True
  | item :: rest => item.Plain ∧ PlainItems rest

def PlainMembers : List (Option String × Json) → Prop
  | [] => True
  | (key, value) :: rest => key.isSome ∧ value.Plain ∧ PlainMembers rest

end

/-! ## Layouts -/

/-- Blanks of the grammar. -/
def Spaces (cs : List Char) : Prop := ∀ c ∈ cs, isSpace c = true

theorem spaces_nil : Spaces [] := fun _ h => absurd h List.not_mem_nil

theorem spaces_blank : Spaces [' '] := by simp [Spaces, isSpace]

theorem spaces_newline (level : Nat) : Spaces (newline level) := by
  intro c hc
  rcases List.mem_cons.mp hc with rfl | hBlank
  · decide
  · rw [List.eq_of_mem_replicate hBlank]
    decide

mutual

/-- Whether characters lay out a document. -/
def LaidOut : Json → List Char → Prop
  | .null, cs => cs = "null".toList
  | .boolean b, cs => cs = (if b then "true" else "false").toList
  | .number spelling, cs => cs = spelling.toList ∧ ∃ n : Int, spelling = toString n
  | .string s, cs => cs = quoted s
  | .array items, cs => ∃ inside, cs = '[' :: inside ++ [']'] ∧
      (items = [] ∧ inside = [] ∨ ItemsLaidOut items inside)
  | .object members, cs => ∃ inside, cs = '\x7b' :: inside ++ ['\x7d'] ∧
      (members = [] ∧ inside = [] ∨ MembersLaidOut members inside)
  | .unpaired, _ | .cut, _ => False

/-- Whether characters lay out items, at least one, with blanks around each and commas between. -/
def ItemsLaidOut : List Json → List Char → Prop
  | [], _ => False
  | item :: rest, cs => ∃ before text after behind, Spaces before ∧ Spaces after ∧
      item.LaidOut text ∧ cs = before ++ text ++ after ++ behind ∧
      (rest = [] ∧ behind = [] ∨ ∃ later, behind = ',' :: later ∧ ItemsLaidOut rest later)

/-- Whether characters lay out members, at least one, with blanks around each, in front of each
value, and commas between. -/
def MembersLaidOut : List (Option String × Json) → List Char → Prop
  | [], _ => False
  | (key, value) :: rest, cs => ∃ name before gap text after behind, key = some name ∧
      Spaces before ∧ Spaces gap ∧ Spaces after ∧ value.LaidOut text ∧
      cs = before ++ quoted name ++ ':' :: gap ++ text ++ after ++ behind ∧
      (rest = [] ∧ behind = [] ∨ ∃ later, behind = ',' :: later ∧ MembersLaidOut rest later)

end

theorem ItemsLaidOut.ne_nil {items : List Json} {cs : List Char} (h : ItemsLaidOut items cs) :
    items ≠ [] := by
  rintro rfl
  exact h

theorem MembersLaidOut.ne_nil {members : List (Option String × Json)} {cs : List Char}
    (h : MembersLaidOut members cs) : members ≠ [] := by
  rintro rfl
  exact h

/-! ## Both ways of writing lay out -/

theorem prettyChars_array {items : List Json} (h : items ≠ []) (level : Nat) :
    prettyChars level (.array items) =
      '[' :: (newline (level + 1) ++ prettyItems (level + 1) items ++ newline level) ++ [']'] := by
  cases items with
  | nil => exact absurd rfl h
  | cons item rest => simp [prettyChars]

theorem prettyChars_object {members : List (Option String × Json)} (h : members ≠ [])
    (level : Nat) :
    prettyChars level (.object members) =
      '\x7b' :: (newline (level + 1) ++ prettyMembers (level + 1) members ++ newline level) ++
        ['\x7d'] := by
  cases members with
  | nil => exact absurd rfl h
  | cons member rest => simp [prettyChars]

mutual

theorem laidOut_chars : ∀ json : Json, json.Plain → json.LaidOut json.chars
  | .null, _ => rfl
  | .boolean _, _ => rfl
  | .number _, h => ⟨rfl, h⟩
  | .string _, _ => rfl
  | .array items, h => ⟨itemsChars items, rfl, itemsLaidOut_chars items h⟩
  | .object members, h => ⟨membersChars members, rfl, membersLaidOut_chars members h⟩
  | .unpaired, h => h.elim
  | .cut, h => h.elim

theorem itemsLaidOut_chars : ∀ items : List Json, PlainItems items →
    items = [] ∧ itemsChars items = [] ∨ ItemsLaidOut items (itemsChars items)
  | [], _ => .inl ⟨rfl, rfl⟩
  | [item], h =>
      .inr ⟨[], item.chars, [], [], spaces_nil, spaces_nil, laidOut_chars item h.1,
        by simp [itemsChars], .inl ⟨rfl, rfl⟩⟩
  | item :: next :: rest, h => by
      have hLater := (itemsLaidOut_chars (next :: rest) h.2).resolve_left (by simp)
      exact .inr ⟨[], item.chars, [], ',' :: itemsChars (next :: rest), spaces_nil, spaces_nil,
        laidOut_chars item h.1, by simp [itemsChars], .inr ⟨_, rfl, hLater⟩⟩

theorem membersLaidOut_chars : ∀ members : List (Option String × Json), PlainMembers members →
    members = [] ∧ membersChars members = [] ∨ MembersLaidOut members (membersChars members)
  | [], _ => .inl ⟨rfl, rfl⟩
  | [(key, value)], h => by
      obtain ⟨name, rfl⟩ := Option.isSome_iff_exists.mp h.1
      exact .inr ⟨name, [], [], value.chars, [], [], rfl, spaces_nil, spaces_nil, spaces_nil,
        laidOut_chars value h.2.1, by simp [membersChars, quotedKey], .inl ⟨rfl, rfl⟩⟩
  | (key, value) :: next :: rest, h => by
      obtain ⟨name, rfl⟩ := Option.isSome_iff_exists.mp h.1
      have hLater := (membersLaidOut_chars (next :: rest) h.2.2).resolve_left (by simp)
      exact .inr ⟨name, [], [], value.chars, [], ',' :: membersChars (next :: rest), rfl,
        spaces_nil, spaces_nil, spaces_nil, laidOut_chars value h.2.1,
        by simp [membersChars, quotedKey],
        .inr ⟨_, rfl, hLater⟩⟩

end

mutual

theorem laidOut_prettyChars :
    ∀ (json : Json) (level : Nat), json.Plain → json.LaidOut (prettyChars level json)
  | .null, _, _ => rfl
  | .boolean _, _, _ => rfl
  | .number _, _, h => ⟨rfl, h⟩
  | .string _, _, _ => rfl
  | .array items, level, h => by
      have hItems := itemsLaidOut_pretty items (level + 1) (spaces_newline (level + 1))
        (spaces_newline level) h
      rcases hItems with rfl | hItems
      · exact ⟨[], rfl, .inl ⟨rfl, rfl⟩⟩
      · exact ⟨_, prettyChars_array hItems.ne_nil level, .inr hItems⟩
  | .object members, level, h => by
      have hMembers := membersLaidOut_pretty members (level + 1) (spaces_newline (level + 1))
        (spaces_newline level) h
      rcases hMembers with rfl | hMembers
      · exact ⟨[], rfl, .inl ⟨rfl, rfl⟩⟩
      · exact ⟨_, prettyChars_object hMembers.ne_nil level, .inr hMembers⟩
  | .unpaired, _, h => h.elim
  | .cut, _, h => h.elim

theorem itemsLaidOut_pretty : ∀ (items : List Json) (level : Nat) {before after : List Char},
    Spaces before → Spaces after → PlainItems items →
    items = [] ∨ ItemsLaidOut items (before ++ prettyItems level items ++ after)
  | [], _, _, _, _, _, _ => .inl rfl
  | [item], level, before, after, hBefore, hAfter, h =>
      .inr ⟨before, prettyChars level item, after, [], hBefore, hAfter,
        laidOut_prettyChars item level h.1, by simp [prettyItems], .inl ⟨rfl, rfl⟩⟩
  | item :: next :: rest, level, before, after, hBefore, hAfter, h => by
      have hLater := (itemsLaidOut_pretty (next :: rest) level (spaces_newline level) hAfter
        h.2).resolve_left (by simp)
      exact .inr ⟨before, prettyChars level item, [], _, hBefore, spaces_nil,
        laidOut_prettyChars item level h.1, by simp [prettyItems], .inr ⟨_, rfl, hLater⟩⟩

theorem membersLaidOut_pretty : ∀ (members : List (Option String × Json)) (level : Nat)
    {before after : List Char}, Spaces before → Spaces after → PlainMembers members →
    members = [] ∨ MembersLaidOut members (before ++ prettyMembers level members ++ after)
  | [], _, _, _, _, _, _ => .inl rfl
  | [(key, value)], level, before, after, hBefore, hAfter, h => by
      obtain ⟨name, rfl⟩ := Option.isSome_iff_exists.mp h.1
      exact .inr ⟨name, before, [' '], prettyChars level value, after, [], rfl, hBefore,
        spaces_blank, hAfter, laidOut_prettyChars value level h.2.1,
        by simp [prettyMembers, quotedKey], .inl ⟨rfl, rfl⟩⟩
  | (key, value) :: next :: rest, level, before, after, hBefore, hAfter, h => by
      obtain ⟨name, rfl⟩ := Option.isSome_iff_exists.mp h.1
      have hLater := (membersLaidOut_pretty (next :: rest) level (spaces_newline level) hAfter
        h.2.2).resolve_left (by simp)
      exact .inr ⟨name, before, [' '], prettyChars level value, [], _, rfl, hBefore,
        spaces_blank, spaces_nil, laidOut_prettyChars value level h.2.1,
        by simp [prettyMembers, quotedKey], .inr ⟨_, rfl, hLater⟩⟩

end

end BoundQuery.Json
