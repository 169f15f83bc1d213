import BoundQuery.Proofs.Draft.Step
import BoundQuery.Proofs.Tree.Plain

/-!
# What the builders make of plain data

Callers write trees as texts and values. A builder cuts the blanks around a text, takes a blank
operator or name as none, and refuses a blank field; nothing else of what it is given is changed or
lost. Each builder has one equation here, which reads the tree that it makes out as plain data.
-/

namespace BoundQuery

/-! ## Phrases -/

/-- What a builder keeps of a text that may be blank. -/
def Plain.kept (text : String) : Option String :=
  if Text.trim text = "" then none else some (Text.trim text)

theorem Phrase.map_text_of? (text : String) :
    (Phrase.of? text).map (·.text) = Plain.kept text := by
  rw [Plain.kept]
  cases hPhrase : Phrase.of? text with
  | none => rw [if_pos (of?_eq_none_iff.mp hPhrase), Option.map_none]
  | some phrase =>
      have hText := text_of_of? hPhrase
      have hSome : Text.trim text ≠ "" := hText ▸ phrase.nonempty
      rw [if_neg hSome, Option.map_some, hText]

theorem Phrase.map_text_bind_of? (given : Option String) :
    (given.bind Phrase.of?).map (·.text) = given.bind Plain.kept := by
  cases given with
  | none => rfl
  | some text => exact map_text_of? text

/-- A field is made of every text that is not blank. -/
theorem Field.ofText_cases (text : String) :
    (Text.trim text = "" ∧ ofText text = .error .emptyField) ∨
      ∃ field : Field, ofText text = .ok field ∧ field.text = Text.trim text ∧
        Text.trim text ≠ "" := by
  cases hPhrase : Phrase.of? text with
  | none => exact .inl ⟨Phrase.of?_eq_none_iff.mp hPhrase, by rw [ofText, hPhrase]⟩
  | some field =>
      have hText := Phrase.text_of_of? hPhrase
      exact .inr ⟨field, by rw [ofText, hPhrase], hText, hText ▸ field.nonempty⟩

theorem Field.map_text_ofText (text : String) :
    (ofText text).map (·.text) =
      if Text.trim text = "" then .error .emptyField else .ok (Text.trim text) := by
  rcases ofText_cases text with ⟨hBlank, hFault⟩ | ⟨field, hField, hText, hSome⟩
  · rw [hFault, if_pos hBlank]
    rfl
  · rw [hField, if_neg hSome, ← hText]
    rfl

/-! ## Comparisons -/

/-- A right side as a comparison keeps it: null is not kept as a scalar. -/
def Plain.Operand.settled : Plain.Operand → Plain.Operand
  | .scalar value => if value.isNull then .null else .scalar value
  | operand => operand

/-- A comparison is made of its four parts. A marked field takes neither operator nor name, whatever
is given. -/
theorem Comparison.plain_ofParts (field : String) (operator : Option String) (operand : Operand)
    (name : Option String) :
    (ofParts field operator operand name).map Comparison.plain =
      if Text.trim field = "" then .error .emptyField
      else .ok (.mk (Text.trim field)
        (if operand.plain.isMarked then none else operator.bind Plain.kept)
        operand.plain.settled
        (if operand.plain.isMarked then none else name.bind Plain.kept)) := by
  rw [ofParts]
  rcases Field.ofText_cases field with ⟨hBlank, hFault⟩ | ⟨column, hColumn, hText, hSome⟩
  · rw [hFault, if_pos hBlank]
    rfl
  · rw [hColumn, if_neg hSome, ← hText, ← Phrase.map_text_bind_of?, ← Phrase.map_text_bind_of?]
    cases operand with
    | marked mark => rfl
    | null => rfl
    | nested clause => rfl
    | scalar value =>
        cases hNull : value.isNull <;>
          simp [Present.of?, hNull, bind, Except.bind, pure, Except.pure, Except.map, plain,
            Operand.plain, Plain.Operand.isMarked, Plain.Operand.settled]

/-- A name takes the place of the one before. A blank one removes it, and a marked field keeps
none. -/
theorem Comparison.plain_named (comparison : Comparison) (name : String) :
    (comparison.named name).plain =
      .mk comparison.field.text (comparison.operator?.map (·.text)) comparison.operand.plain
        (if comparison.isBare then none else Plain.kept name) := by
  rw [← Phrase.map_text_of?]
  cases comparison <;> rfl

/-! ## Groups -/

theorem Group.plain_of (child : Condition) : (Group.of child).plain = .mk false [child.plain] [] :=
  rfl

/-- A condition goes behind those that are there, and its conjunction with it unless it is the
first. -/
theorem Group.plain_join (group : Group) (conjunction : Phrase) (child : Condition) :
    (group.join conjunction child).plain =
      .mk group.isNegated (group.children.map Condition.plain ++ [child.plain])
        (group.conjunctions.map (·.text) ++ if group.isEmpty then [] else [conjunction.text]) := by
  rw [Group.plain_eq]
  cases group with
  | empty negated => rfl
  | joined negated first rest =>
      simp [join, isNegated, children, conjunctions, isEmpty]

theorem Group.plain_and (group : Group) (child : Condition) :
    (group.and child).plain =
      .mk group.isNegated (group.children.map Condition.plain ++ [child.plain])
        (group.conjunctions.map (·.text) ++ if group.isEmpty then [] else ["AND"]) :=
  group.plain_join andPhrase child

theorem Group.plain_or (group : Group) (child : Condition) :
    (group.or child).plain =
      .mk group.isNegated (group.children.map Condition.plain ++ [child.plain])
        (group.conjunctions.map (·.text) ++ if group.isEmpty then [] else ["OR"]) :=
  group.plain_join orPhrase child

/-- Negation is set, not turned around, and it is all that changes. -/
theorem Group.plain_negateIf (group : Group) (negated : Bool) :
    (group.negateIf negated).plain =
      .mk negated (group.children.map Condition.plain) (group.conjunctions.map (·.text)) := by
  rw [Group.plain_eq]
  cases group <;> rfl

/-! ## Lists of fields -/

/-- Making one thing after the other: the first that cannot be made is the fault, and otherwise all
are made in order. -/
theorem map_mapM_of_map {α β γ : Type} {make : α → Except Fault β} {view : β → γ} {read : α → γ}
    {Blank : α → Prop} [DecidablePred Blank] {fault : Fault}
    (h : ∀ a, (make a).map view = if Blank a then .error fault else .ok (read a)) (list : List α) :
    (list.mapM make).map (List.map view) =
      if ∃ a ∈ list, Blank a then .error fault else .ok (list.map read) := by
  induction list with
  | nil => simp [pure, Except.pure, Except.map]
  | cons a rest ih =>
      have hOne := h a
      rw [List.mapM_cons]
      by_cases hBlank : Blank a
      · rw [if_pos hBlank, map_eq_error] at hOne
        rw [hOne, if_pos ⟨a, List.mem_cons_self, hBlank⟩]
        rfl
      · rw [if_neg hBlank, map_eq_ok] at hOne
        obtain ⟨made, hMade, hView⟩ := hOne
        rw [hMade]
        by_cases hRest : ∃ b ∈ rest, Blank b
        · rw [if_pos hRest, map_eq_error] at ih
          have hSome : ∃ b ∈ a :: rest, Blank b :=
            hRest.imp fun b hb => ⟨List.mem_cons_of_mem a hb.1, hb.2⟩
          rw [if_pos hSome, ih]
          rfl
        · rw [if_neg hRest, map_eq_ok] at ih
          obtain ⟨others, hOthers, hViews⟩ := ih
          have hNone : ¬ ∃ b ∈ a :: rest, Blank b := by
            simpa [hBlank] using hRest
          rw [if_neg hNone, hOthers, List.map_cons, ← hView, ← hViews]
          rfl

namespace Fields

/-- Every text makes a field; a blank one is the fault even where there are others. -/
theorem plain_ofTexts (texts : List String) :
    (ofTexts texts).map Fields.plain =
      if ∃ text ∈ texts, Text.trim text = "" then .error .emptyField
      else if texts = [] then .error .emptyFields
      else .ok (texts.map Text.trim) := by
  have hAll := map_mapM_of_map Field.map_text_ofText texts
  rw [ofTexts]
  by_cases hBlank : ∃ text ∈ texts, Text.trim text = ""
  · rw [if_pos hBlank, map_eq_error] at hAll
    rw [if_pos hBlank, hAll]
    rfl
  · rw [if_neg hBlank, map_eq_ok] at hAll
    obtain ⟨fields, hFields, hTexts⟩ := hAll
    rw [if_neg hBlank, hFields, ← hTexts]
    cases fields with
    | nil =>
        obtain rfl : texts = [] := List.map_eq_nil_iff.mp hTexts.symm
        rfl
    | cons first rest =>
        have hSome : texts ≠ [] := by
          rintro rfl
          exact absurd hTexts (by simp)
        rw [if_neg hSome]
        rfl

theorem betweenCommas_ne_nil (cs : List Char) : betweenCommas cs ≠ [] := by
  cases cs with
  | nil => simp [betweenCommas]
  | cons c rest =>
      rw [betweenCommas]
      split
      · exact List.cons_ne_nil _ _
      · split
        · exact List.cons_ne_nil _ _
        · exact List.cons_ne_nil _ _

/-- The parts between the commas, put together with commas, are the text again. -/
theorem intercalate_betweenCommas (cs : List Char) : [','].intercalate (betweenCommas cs) = cs := by
  induction cs with
  | nil => rfl
  | cons c rest ih =>
      obtain ⟨part, parts, hParts⟩ := List.exists_cons_of_ne_nil (betweenCommas_ne_nil rest)
      rw [betweenCommas, hParts]
      rw [hParts] at ih
      by_cases hComma : c = ','
      · rw [if_pos hComma, List.intercalate_cons_cons, ih, hComma]
        rfl
      · rw [if_neg hComma]
        cases parts with
        | nil =>
            rw [List.intercalate_singleton] at ih ⊢
            rw [ih]
        | cons next more =>
            rw [List.intercalate_cons_cons] at ih ⊢
            rw [List.cons_append, List.cons_append, ih]

theorem comma_notMem_of_mem_betweenCommas {cs part : List Char} (h : part ∈ betweenCommas cs) :
    ',' ∉ part := by
  induction cs generalizing part with
  | nil =>
      obtain rfl := List.mem_singleton.mp h
      exact List.not_mem_nil
  | cons c rest ih =>
      obtain ⟨first, parts, hParts⟩ := List.exists_cons_of_ne_nil (betweenCommas_ne_nil rest)
      rw [betweenCommas, hParts] at h
      rw [hParts] at ih
      by_cases hComma : c = ','
      · rw [if_pos hComma] at h
        rcases List.mem_cons.mp h with rfl | hRest
        · exact List.not_mem_nil
        · exact ih hRest
      · rw [if_neg hComma] at h
        rcases List.mem_cons.mp h with rfl | hRest
        · have hFirst : ',' ∉ first := ih List.mem_cons_self
          simp [hFirst, Ne.symm hComma]
        · exact ih (List.mem_cons_of_mem first hRest)

/-- The fields of a text are what stands between its commas; each of them has to be there. -/
theorem plain_parse (text : String) :
    ∃ parts : List String, ",".intercalate parts = text ∧ (∀ part ∈ parts, ',' ∉ part.toList) ∧
      (parse text).map Fields.plain =
        if ∃ part ∈ parts, Text.trim part = "" then .error .emptyField
        else .ok (parts.map Text.trim) := by
  refine ⟨(betweenCommas text.toList).map String.ofList, ?_, ?_, ?_⟩
  · rw [← String.toList_inj, String.toList_intercalate, List.map_map]
    have hId : String.toList ∘ String.ofList = id := by
      funext cs
      exact String.toList_ofList
    rw [hId, List.map_id]
    exact intercalate_betweenCommas text.toList
  · intro part hPart
    obtain ⟨cs, hMember, rfl⟩ := List.mem_map.mp hPart
    rw [String.toList_ofList]
    exact comma_notMem_of_mem_betweenCommas hMember
  · have hSome : (betweenCommas text.toList).map String.ofList ≠ [] :=
      mt List.map_eq_nil_iff.mp (betweenCommas_ne_nil text.toList)
    rw [parse, plain_ofTexts, if_neg hSome]

end Fields

/-! ## Aggregates and assignments -/

/-- An expression goes under its name as it is: in the place of the one that is there, or behind all
others. The fields and the other expressions stay. -/
theorem Aggregate.plain_withOutput (aggregate : Aggregate) (name expression : String) :
    let plain := (aggregate.withOutput name expression).plain
    plain.fields = aggregate.fields.plain ∧
    plain.outputs.keys = (if name ∈ aggregate.outputs.keys then aggregate.outputs.keys
      else aggregate.outputs.keys ++ [name]) ∧
    ∀ other, plain.outputs.find? other =
      if name = other then some expression else aggregate.outputs.find? other :=
  ⟨rfl, Dict.keys_insert _ name expression,
    fun other => Dict.find?_insert _ name other expression⟩

/-- Every pair makes an assignment, whose field is trimmed and whose value is as it was. -/
theorem Assignment.plain_ofPairs (pairs : List (String × Value)) :
    (ofPairs pairs).map (List.map Assignment.plain) =
      if ∃ pair ∈ pairs, Text.trim pair.1 = "" then .error .emptyField
      else .ok (pairs.map fun pair => (Text.trim pair.1, pair.2)) := by
  refine map_mapM_of_map (fun pair => ?_) pairs
  obtain ⟨field, value⟩ := pair
  rcases Field.ofText_cases field with ⟨hBlank, hFault⟩ | ⟨column, hColumn, hText, hSome⟩
  · simp [hBlank, hFault, bind, Except.bind, Except.map]
  · simp [hSome, hColumn, hText, bind, Except.bind, pure, Except.pure, Except.map,
      Assignment.plain]

end BoundQuery
