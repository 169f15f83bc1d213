import BoundQuery.Proofs.Tree.Plain

/-!
# How trees come to be

The items of a group's document are appended one after the other, and the first one that cannot be
is the fault: one without a condition, or a later one whose conjunction is blank (`Group.offence?`).
The step is `Group.append?_of_sound` and `Group.append?_of_offence`; `Group.appendItems_of_sound`
and `Group.appendItems_of_offence` follow by induction on the items, which start where the group
ends. `trees_well_formed` says what all trees are and what a group's document makes of its items.
-/

namespace BoundQuery

open Plain (IsPhrase AreFields)

namespace Group

/-! ## Groups by their parts -/

theorem texts_inj {first second : List Phrase}
    (h : first.map (·.text) = second.map (·.text)) : first = second := by
  refine (List.map_inj_right fun phrase other hText => ?_).mp h
  cases phrase
  cases other
  simp_all

/-- The flag, the conditions and the texts of the conjunctions are all that there is to a group. -/
theorem ext_parts {first second : Group} (hNegated : first.isNegated = second.isNegated)
    (hChildren : first.children = second.children)
    (hConjunctions : first.conjunctions.map (·.text) = second.conjunctions.map (·.text)) :
    first = second := by
  have hPhrases := texts_inj hConjunctions
  cases first with
  | empty negated =>
      cases second with
      | empty other => exact congrArg Group.empty hNegated
      | joined other child rest => exact absurd hChildren (by simp [children])
  | joined negated child rest =>
      cases second with
      | empty other => exact absurd hChildren (by simp [children])
      | joined other child' rest' =>
          obtain ⟨rfl, hRest⟩ := List.cons.inj hChildren
          have hPairs : rest = rest' := by
            rw [← List.zip_unzip rest, ← List.zip_unzip rest', List.unzip_eq_map,
              List.unzip_eq_map]
            exact congr (congrArg List.zip hPhrases) hRest
          rw [hPairs]
          exact congrArg (Group.joined · child rest') hNegated

/-! ## One item -/

/-- What is wrong with an item of a group's document at a place, counted from zero. The conjunction
of the first item is not looked at, and a missing one counts as empty. -/
def offence? (place : Nat) (item : Item) : Option Fault :=
  match item.2 with
  | none => some .missingChild
  | some _ =>
      if place ≠ 0 ∧ Text.trim (item.1.getD "") = "" then some .emptyConjunction else none

/-- The conjunctions that an item adds to a group. -/
def addedConjunctions (group : Group) (item : Item) : List String :=
  if group.isEmpty then [] else [Text.trim (item.1.getD "")]

theorem append?_of_offence {group : Group} {item : Item} {fault : Fault}
    (h : offence? group.size item = some fault) :
    group.append? (item.1.getD "") item.2 = .error fault := by
  obtain ⟨conjunction, _ | child⟩ := item
  · obtain rfl := Option.some.inj h
    rfl
  · cases group with
    | empty negated => exact absurd h (by simp [offence?, size, children])
    | joined negated first rest =>
        by_cases hBlank : Text.trim (conjunction.getD "") = ""
        · have hFault : Fault.emptyConjunction = fault := by
            simpa [offence?, size, children, hBlank] using h
          simp only [append?, append, Phrase.of?_eq_none_iff.mpr hBlank, hFault]
        · exact absurd h (by simp [offence?, hBlank])

/-- An item with nothing wrong adds its condition and, unless it is the first, its conjunction. -/
theorem append?_of_sound {group : Group} {item : Item}
    (h : offence? group.size item = none) :
    ∃ after, group.append? (item.1.getD "") item.2 = .ok after ∧
      after.isNegated = group.isNegated ∧ after.isEmpty = false ∧
      after.children = group.children ++ item.2.toList ∧
      after.conjunctions.map (·.text) =
        group.conjunctions.map (·.text) ++ group.addedConjunctions item := by
  obtain ⟨conjunction, _ | child⟩ := item
  · exact absurd h (by simp [offence?])
  · cases group with
    | empty negated => exact ⟨_, rfl, rfl, rfl, rfl, rfl⟩
    | joined negated first rest =>
        cases hPhrase : Phrase.of? (conjunction.getD "") with
        | none =>
            have hBlank := Phrase.of?_eq_none_iff.mp hPhrase
            exact absurd h (by simp [offence?, size, children, hBlank])
        | some phrase =>
            refine ⟨.joined negated first (rest ++ [(phrase, child)]), ?_, rfl, rfl, ?_, ?_⟩
            · simp only [append?, append, hPhrase, join]
            · simp [children]
            · simp [conjunctions, addedConjunctions, isEmpty, Phrase.text_of_of? hPhrase]

theorem size_of_append? {group after : Group} {conjunction : String} {child : Option Condition}
    (h : group.append? conjunction child = .ok after) : after.size = group.size + 1 := by
  cases child with
  | none => exact absurd h (by simp [append?])
  | some child =>
      cases group with
      | empty negated =>
          obtain rfl := Except.ok.inj h
          rfl
      | joined negated first rest =>
          simp only [append?, append] at h
          split at h
          · obtain rfl := Except.ok.inj h
            simp [join, size, children]
          · exact absurd h (by simp)

/-! ## All items -/

theorem appendItems_cons (group : Group) (item : Item) (rest : List Item) :
    group.appendItems (item :: rest) =
      group.append? (item.1.getD "") item.2 >>= fun after => after.appendItems rest := by
  simp only [appendItems, List.foldlM_cons]

/-- Items with nothing wrong, appended to a group, add their conditions and their conjunctions. -/
theorem appendItems_of_sound {group : Group} {items : List Item}
    (h : ∀ index item, items[index]? = some item → offence? (group.size + index) item = none) :
    ∃ after, group.appendItems items = .ok after ∧ after.isNegated = group.isNegated ∧
      after.children = group.children ++ items.filterMap Prod.snd ∧
      after.conjunctions.map (·.text) = group.conjunctions.map (·.text) ++
        (if group.isEmpty then items.tail else items).map fun item =>
          Text.trim (item.1.getD "") := by
  -- The places of the items are counted from the size of the group, which each step makes one more.
  induction items generalizing group with
  | nil => exact ⟨group, rfl, rfl, by simp, by simp⟩
  | cons item rest ih =>
      obtain ⟨middle, hMiddle, hNegated, hEmpty, hChildren, hConjunctions⟩ :=
        append?_of_sound (h 0 item rfl)
      have hSize := size_of_append? hMiddle
      obtain ⟨after, hAfter, hSame, hMore, hTexts⟩ := ih fun index later hLater => by
        rw [hSize, Nat.add_assoc, Nat.add_comm 1 index]
        exact h (index + 1) later hLater
      refine ⟨after, ?_, hSame.trans hNegated, ?_, ?_⟩
      · rw [appendItems_cons, hMiddle]
        exact hAfter
      · rw [hMore, hChildren, List.append_assoc]
        obtain ⟨conjunction, _ | child⟩ := item <;> rfl
      · rw [hTexts, hConjunctions, hEmpty, addedConjunctions]
        cases group.isEmpty <;> simp

/-- The first item with something wrong is where appending stops. -/
theorem appendItems_of_offence {group : Group} {items : List Item} {place : Nat} {item : Item}
    {fault : Fault} (hItem : items[place]? = some item)
    (hOffence : offence? (group.size + place) item = some fault)
    (hBefore : ∀ earlier other, earlier < place → items[earlier]? = some other →
      offence? (group.size + earlier) other = none) :
    group.appendItems items = .error fault := by
  induction items generalizing group place with
  | nil => exact absurd hItem (by simp)
  | cons first rest ih =>
      rw [appendItems_cons]
      cases place with
      | zero =>
          obtain rfl := Option.some.inj hItem
          rw [append?_of_offence hOffence]
          rfl
      | succ place =>
          obtain ⟨middle, hMiddle, -⟩ :=
            append?_of_sound (hBefore 0 first (Nat.succ_pos place) rfl)
          have hSize := size_of_append? hMiddle
          have hShift : ∀ index, middle.size + index = group.size + (index + 1) := by
            intro index
            omega
          rw [hMiddle]
          refine ih hItem (hShift place ▸ hOffence) fun earlier other hEarlier hOther => ?_
          rw [hShift]
          exact hBefore (earlier + 1) other (Nat.succ_lt_succ hEarlier) hOther

/-- Either nothing is wrong with any item, or there is a first one that something is wrong with. -/
theorem sound_or_offence (start : Nat) (items : List Item) :
    (∀ index item, items[index]? = some item → offence? (start + index) item = none) ∨
      ∃ place item fault, items[place]? = some item ∧
        offence? (start + place) item = some fault ∧
        ∀ earlier other, earlier < place → items[earlier]? = some other →
          offence? (start + earlier) other = none := by
  induction items generalizing start with
  | nil => exact .inl (by simp)
  | cons first rest ih =>
      cases hFirst : offence? start first with
      | some fault => exact .inr ⟨0, first, fault, rfl, hFirst, by simp⟩
      | none =>
          have hShift : ∀ index, start + (index + 1) = start + 1 + index := by
            intro index
            omega
          rcases ih (start + 1) with hSound | ⟨place, item, fault, hItem, hOffence, hBefore⟩
          · refine .inl fun index item hItem => ?_
            cases index with
            | zero =>
                obtain rfl := Option.some.inj hItem
                exact hFirst
            | succ index =>
                rw [hShift]
                exact hSound index item hItem
          · refine .inr ⟨place + 1, item, fault, hItem, hShift place ▸ hOffence, ?_⟩
            intro earlier other hEarlier hOther
            cases earlier with
            | zero =>
                obtain rfl := Option.some.inj hOther
                exact hFirst
            | succ earlier =>
                rw [hShift]
                exact hBefore earlier other (Nat.lt_of_succ_lt_succ hEarlier) hOther

/-! ## What the items of a document make -/

/-- The group that some items make: nothing is wrong with any of them, and the group has their
conditions and the conjunctions of all but the first. -/
structure MadeOf (negated : Bool) (items : List Item) (group : Group) : Prop where
  sound : ∀ place item, items[place]? = some item → offence? place item = none
  isNegated : group.isNegated = negated
  children : group.children = items.filterMap Prod.snd
  conjunctions : group.conjunctions.map (·.text) =
    items.tail.map fun item => Text.trim (item.1.getD "")

/-- The first item that something is wrong with, and what that is. -/
structure FirstOffence (items : List Item) (place : Nat) (fault : Fault) : Prop where
  here : ∃ item, items[place]? = some item ∧ offence? place item = some fault
  before : ∀ earlier item, earlier < place → items[earlier]? = some item →
    offence? earlier item = none

theorem sound_or_firstOffence (items : List Item) :
    (∀ place item, items[place]? = some item → offence? place item = none) ∨
      ∃ place fault, FirstOffence items place fault := by
  rcases sound_or_offence 0 items with hSound | ⟨place, item, fault, hItem, hOffence, hBefore⟩
  · exact .inl (by simpa using hSound)
  · simp only [Nat.zero_add] at hOffence hBefore
    exact .inr ⟨place, fault, ⟨item, hItem, hOffence⟩, hBefore⟩

theorem FirstOffence.appendItems {items : List Item} {place : Nat} {fault : Fault}
    (h : FirstOffence items place fault) (negated : Bool) :
    (Group.empty negated).appendItems items = .error fault := by
  obtain ⟨⟨item, hItem, hOffence⟩, hBefore⟩ := h
  have hSize : ∀ index, (Group.empty negated).size + index = index := Nat.zero_add
  refine appendItems_of_offence hItem ((hSize place).symm ▸ hOffence) ?_
  intro earlier other hEarlier hOther
  rw [hSize]
  exact hBefore earlier other hEarlier hOther

theorem madeOf_of_sound {items : List Item}
    (h : ∀ place item, items[place]? = some item → offence? place item = none)
    (negated : Bool) :
    ∃ group, (Group.empty negated).appendItems items = .ok group ∧
      MadeOf negated items group := by
  have hSize : ∀ index, (Group.empty negated).size + index = index := Nat.zero_add
  obtain ⟨group, hGroup, hNegated, hChildren, hConjunctions⟩ :=
    appendItems_of_sound fun index item hItem => by
      rw [hSize]
      exact h index item hItem
  exact ⟨group, hGroup, h, hNegated, hChildren, hConjunctions⟩

theorem MadeOf.unique {negated : Bool} {items : List Item} {first second : Group}
    (hFirst : MadeOf negated items first) (hSecond : MadeOf negated items second) :
    first = second :=
  ext_parts (hFirst.isNegated.trans hSecond.isNegated.symm)
    (hFirst.children.trans hSecond.children.symm)
    (hFirst.conjunctions.trans hSecond.conjunctions.symm)

theorem appendItems_eq_ok_iff {negated : Bool} {items : List Item} {group : Group} :
    (Group.empty negated).appendItems items = .ok group ↔ MadeOf negated items group := by
  constructor
  · intro hOk
    rcases sound_or_firstOffence items with hSound | ⟨place, fault, hOffence⟩
    · obtain ⟨other, hOther, hMade⟩ := madeOf_of_sound hSound negated
      obtain rfl := Except.ok.inj (hOk.symm.trans hOther)
      exact hMade
    · exact absurd (hOk.symm.trans (hOffence.appendItems negated)) (by simp)
  · intro hMade
    obtain ⟨other, hOther, hSame⟩ := madeOf_of_sound hMade.sound negated
    rw [hOther, hMade.unique hSame]

theorem appendItems_eq_error_iff {negated : Bool} {items : List Item} {fault : Fault} :
    (Group.empty negated).appendItems items = .error fault ↔
      ∃ place, FirstOffence items place fault := by
  constructor
  · intro hError
    rcases sound_or_firstOffence items with hSound | ⟨place, other, hOffence⟩
    · obtain ⟨group, hGroup, -⟩ := madeOf_of_sound hSound negated
      exact absurd (hError.symm.trans hGroup) (by simp)
    · obtain rfl := Except.error.inj (hError.symm.trans (hOffence.appendItems negated))
      exact ⟨place, hOffence⟩
  · rintro ⟨place, hOffence⟩
    exact hOffence.appendItems negated

/-- A document is decoded by appending the items that are read from it. -/
theorem decode_of_items {budget : Nat} {json : Json} {negated : Bool} {items : List Item}
    (h : json.fields ["not", "items"] 0 (false, []) (readField (decodeItems budget)) =
      .ok (negated, items)) :
    decode (budget + 1) json = Json.checked ((Group.empty negated).appendItems items) := by
  simp only [decode, h, bind, Except.bind]

end Group

/-! ## All trees -/

/-- The trees of a kind read out as just the plain data that keep some rules. -/
def Plain.Exactly {π τ : Type} (rules : π → Prop) (read : τ → π) : Prop :=
  ∀ plain, rules plain ↔ ∃ tree, read tree = plain

theorem Plain.exactly {π τ : Type} {rules : π → Prop} {read : τ → π}
    (hRules : ∀ tree, rules (read tree))
    (hExists : ∀ plain, rules plain → ∃ tree, read tree = plain) : Exactly rules read := by
  intro plain
  constructor
  · exact hExists plain
  · rintro ⟨tree, rfl⟩
    exact hRules tree

/-- A tree reads out as what callers see of it. Fields are trimmed and not empty, lists of them have
at least one, and in every tree, at every depth, operators, names and conjunctions are trimmed and
not empty, a marked field has neither operator nor name, a scalar is not null, and a group has one
conjunction less than conditions; plain data that keep these rules are a tree. A group's document is
decoded by appending its items, which either makes the group of their conditions and conjunctions,
or stops at the first item that something is wrong with. -/
theorem trees_well_formed :
    (∀ comparison : Comparison, comparison.plain =
      .mk comparison.field.text (comparison.operator?.map (·.text)) comparison.operand.plain
        (comparison.name?.map (·.text))) ∧
    (∀ group : Group, group.plain =
      .mk group.isNegated (group.children.map Condition.plain)
        (group.conjunctions.map (·.text))) ∧
    (Plain.Exactly IsPhrase Phrase.text ∧ Plain.Exactly AreFields Fields.plain ∧
      Plain.Exactly Plain.Comparison.WellFormed Comparison.plain ∧
      Plain.Exactly Plain.Group.WellFormed Group.plain ∧
      Plain.Exactly Plain.Condition.WellFormed Condition.plain ∧
      Plain.Exactly Plain.Snippet.WellFormed Snippet.plain ∧
      Plain.Exactly Plain.Argument.WellFormed Argument.plain ∧
      Plain.Exactly Plain.Having.WellFormed Having.plain ∧
      Plain.Exactly Plain.Clause.WellFormed Clause.plain ∧
      Plain.Exactly Plain.Aggregate.WellFormed Aggregate.plain ∧
      Plain.Exactly Plain.AreAssignments (List.map Assignment.plain) ∧
      Plain.Exactly Plain.Request.WellFormed Request.plain) ∧
    ∀ negated items,
      (∀ group, (Group.empty negated).appendItems items = .ok group ↔
        Group.MadeOf negated items group) ∧
      (∀ fault, (Group.empty negated).appendItems items = .error fault ↔
        ∃ place, Group.FirstOffence items place fault) ∧
      ∀ budget (json : Json), json.fields ["not", "items"] 0 (false, [])
          (Group.readField (Group.decodeItems budget)) = .ok (negated, items) →
        Group.decode (budget + 1) json =
          Json.checked ((Group.empty negated).appendItems items) := by
  refine ⟨Comparison.plain_eq, Group.plain_eq,
    ⟨?_, ?_, ?_, ?_, ?_, ?_, ?_, ?_, ?_, ?_, ?_, ?_⟩, fun negated items =>
    ⟨fun group => Group.appendItems_eq_ok_iff, fun fault => Group.appendItems_eq_error_iff,
      fun budget json hItems => Group.decode_of_items hItems⟩⟩
  · exact Plain.exactly Phrase.isPhrase fun _ h => h.exists_phrase
  · exact Plain.exactly Fields.areFields fun _ => exists_fields
  · exact Plain.exactly Comparison.wellFormed_plain Comparison.exists_plain
  · exact Plain.exactly Group.wellFormed_plain Group.exists_plain
  · exact Plain.exactly Condition.wellFormed_plain Condition.exists_plain
  · exact Plain.exactly Snippet.wellFormed_plain Snippet.exists_plain
  · exact Plain.exactly Argument.wellFormed_plain Argument.exists_plain
  · exact Plain.exactly Having.wellFormed_plain Having.exists_plain
  · exact Plain.exactly Clause.wellFormed_plain Clause.exists_plain
  · exact Plain.exactly (fun aggregate => aggregate.fields.areFields) fun _ => exists_aggregate
  · exact Plain.exactly areAssignments fun _ => exists_assignments
  · exact Plain.exactly Request.wellFormed_plain fun _ => exists_request

/-- A document of a group whose second item has a blank conjunction and whose third has no
condition. -/
def unjoinedDocument : Json :=
  .record [("items", .array
    [.record [("criteria", .record [("sub", .record [("text", .string "a = 1")])])],
      .record [("conjunction", .string " "),
        ("criteria", .record [("sub", .record [("text", .string "b = 1")])])],
      .record [("conjunction", .string "AND")]])]

/-- The blank conjunction comes first. -/
theorem unjoinedDocument_refused :
    Group.decode 9 unjoinedDocument = .error (.invalid .emptyConjunction) := by
  have hItems : unjoinedDocument.fields ["not", "items"] 0 (false, [])
      (Group.readField (Group.decodeItems 8)) =
      .ok (false, [(none, some (.sub (.mk "a = 1" []))), (some " ", some (.sub (.mk "b = 1" []))),
        (some "AND", none)]) := rfl
  obtain ⟨-, hFault, hDecode⟩ := trees_well_formed.2.2.2 false
    [(none, some (.sub (.mk "a = 1" []))), (some " ", some (.sub (.mk "b = 1" []))),
      (some "AND", none)]
  rw [hDecode 8 unjoinedDocument hItems, (hFault .emptyConjunction).mpr ⟨1, ?_⟩]
  · rfl
  · refine ⟨⟨_, rfl, rfl⟩, fun earlier item hEarlier hItem => ?_⟩
    obtain rfl := Nat.lt_one_iff.mp hEarlier
    obtain rfl := Option.some.inj hItem
    rfl

end BoundQuery
