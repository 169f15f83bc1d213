import BoundQuery.Proofs.Document.Value

/-!
# Documents of trees

A tree decodes to itself from its document if its decimals read back. The proof goes through all
kinds of trees at once; each case puts together what the parts decode to with the law of the
document around them. What decoders check again goes through: a field, an operator, a conjunction
and a name are phrases already, and appending the items of a group one by one rebuilds it.
-/

namespace BoundQuery

open Json (DecodesTo AllDecodeTo)

/-! ## Trees whose decimals read back -/

mutual

/-- Whether every decimal in a comparison reads back from its text. -/
def Comparison.Readable : Comparison → Prop
  | .bare .. | .isNull .. => True
  | .scalar _ _ value _ => value.value.Readable
  | .nested _ _ clause _ => clause.Readable

def Group.Readable : Group → Prop
  | .empty _ => True
  | .joined _ first rest => first.Readable ∧ Group.RestReadable rest

def Group.RestReadable : List (Phrase × Condition) → Prop
  | [] => True
  | (_, child) :: rest => child.Readable ∧ Group.RestReadable rest

def Condition.Readable : Condition → Prop
  | .comparison comparison => comparison.Readable
  | .group group => group.Readable
  | .sub snippet | .native snippet => snippet.Readable

def Snippet.Readable : Snippet → Prop
  | .mk _ arguments => Argument.AllReadable arguments

def Argument.Readable : Argument → Prop
  | .value value => value.Readable
  | .mapping bindings => bindings.Readable
  | .clause clause => clause.Readable
  | .paging _ => True

def Argument.AllReadable : List Argument → Prop
  | [] => True
  | argument :: rest => argument.Readable ∧ Argument.AllReadable rest

def Having.Readable : Having → Prop
  | .condition condition => condition.Readable
  | .text snippet => snippet.Readable

def Clause.Readable : Clause → Prop
  | .condition condition => condition.Readable
  | .having having => having.Readable
  | .sub snippet | .native snippet => snippet.Readable
  | .groupBy _ | .orderBy _ | .aggregate _ => True

end

/-- Whether every decimal on the right side of a comparison reads back from its text. -/
def Operand.Readable : Operand → Prop
  | .scalar value => value.Readable
  | .nested clause => clause.Readable
  | .null | .marked _ => True

/-! ## Right sides of comparisons -/

theorem Operand.decodesTo_scalar {value : Value} (h : value.Readable) :
    DecodesTo Operand.decode (Operand.scalar value).encode (.scalar value) :=
  (Value.decodesTo_encode value h).alternative Operand.named rfl (fun _ => rfl) fun _ _ => rfl

theorem Operand.decodesTo_null : DecodesTo Operand.decode Operand.null.encode .null :=
  .bare Operand.named rfl fun budget => by cases budget <;> rfl

theorem Operand.decodesTo_nested {clause : Clause}
    (h : DecodesTo Clause.decode clause.encode clause) :
    DecodesTo Operand.decode (Operand.nested clause).encode (.nested clause) :=
  h.alternative Operand.named rfl (fun _ => rfl) fun _ _ => rfl

theorem Operand.decodesTo_marked (mark : Mark) :
    DecodesTo Operand.decode (Operand.marked mark).encode (.marked mark) :=
  mark.decodesTo_encode.alternative Operand.named rfl (fun _ => rfl) fun _ _ => rfl

/-! ## Parts of comparisons -/

theorem Present.of?_value (present : Present) : of? present.value = some present :=
  dif_pos present.notNull

/-- The document of a comparison's parts decodes to the comparison that is built of them. -/
theorem Comparison.decodesTo_encodeWith {field : Field} {operator name : Option Phrase}
    {operand : Operand} {comparison : Comparison}
    (hOperand : DecodesTo Operand.decode operand.encode operand)
    (hParts : Comparison.ofParts field.text (operator.map (·.text)) operand
      (name.map (·.text)) = .ok comparison) :
    DecodesTo Comparison.decode (Comparison.encodeWith field operator operand.encode name)
      comparison := by
  have hBuild : (Parts.mk (some field.text) (operator.map (·.text)) operand
      (name.map (·.text))).build = .ok comparison := by
    simp only [Parts.build, Json.required, bind, Except.bind, hParts]
    rfl
  refine .built _ (fun _ _ => rfl) (by decide) ?_ (fun budget hBudget => ?_) hBuild
  · intro member hMember
    simp only [List.mem_append, List.mem_cons] at hMember
    rcases hMember with (rfl | hOperator) | rfl | hName
    · trivial
    · exact Json.forall_mem_optional (fun _ _ => trivial) member hOperator
    · exact hOperand.plain
    · exact Json.forall_mem_optional (fun _ _ => trivial) member hName
  · have hRead := hOperand.decoded budget (hBudget ("value", operand.encode) (by simp))
    have hField : Json.TakesUp (Parts.readField (Operand.decode budget)) ["field"]
        [("field", field.encode)] Parts.start ⟨some field.text, none, .null, none⟩ :=
      .member rfl
    have hOperator : Json.TakesUp (Parts.readField (Operand.decode budget)) ["op"]
        (Json.optional "op" (operator.map (.string ·.text))) ⟨some field.text, none, .null, none⟩
        ⟨some field.text, operator.map (·.text), .null, none⟩ :=
      .optional (by rintro rfl; rfl) (by rintro phrase rfl; rfl)
    have hValue : Json.TakesUp (Parts.readField (Operand.decode budget)) ["value"]
        [("value", operand.encode)] ⟨some field.text, operator.map (·.text), .null, none⟩
        ⟨some field.text, operator.map (·.text), operand, none⟩ := by
      refine .member ?_
      simp only [Parts.readField, hRead]
      rfl
    have hName : Json.TakesUp (Parts.readField (Operand.decode budget)) ["name"]
        (Json.optional "name" (name.map (.string ·.text)))
        ⟨some field.text, operator.map (·.text), operand, none⟩
        ⟨some field.text, operator.map (·.text), operand, name.map (·.text)⟩ :=
      .optional (by rintro rfl; rfl) (by rintro phrase rfl; rfl)
    exact (hField.append hOperator).append (hValue.append hName)

/-- Phrases read from their texts are the phrases. -/
theorem Phrase.bind_of?_text (phrase : Option Phrase) :
    (phrase.map (·.text)).bind Phrase.of? = phrase := by
  cases phrase with
  | none => rfl
  | some phrase => exact phrase.of?_text

/-- Taking a comparison apart and putting it together gives it back. -/
theorem Comparison.ofParts_parts (comparison : Comparison) :
    Comparison.ofParts comparison.field.text (comparison.operator?.map (·.text))
      comparison.operand (comparison.name?.map (·.text)) = .ok comparison := by
  cases comparison <;>
    simp [ofParts, Comparison.field, operator?, name?, operand, Field.ofText_text,
      Phrase.bind_of?_text, Present.of?_value, bind, Except.bind, pure, Except.pure]

/-! ## Items of groups -/

/-- The document of a condition is not null, so it is not taken for a missing one. -/
theorem Condition.asOptional_encode {decode : Json → Decoded Condition} {condition : Condition}
    (h : decode condition.encode = .ok condition) :
    condition.encode.asOptional decode = .ok (some condition) := by
  have hSome : condition.encode.asOptional decode = some <$> decode condition.encode := by
    cases condition <;> rfl
  rw [hSome, h]
  rfl

/-- An item of a group is a conjunction, unless it is the first, and a condition. -/
theorem Group.decodesTo_encodeItem {conjunction : Option Phrase} {child : Condition}
    (hChild : DecodesTo Condition.decode child.encode child) :
    DecodesTo Group.decodeItem (Group.encodeItem conjunction child.encode)
      (conjunction.map (·.text), some child) := by
  refine .taken (fun _ _ => rfl) (by decide) ?_ (fun budget hBudget => ?_)
  · intro member hMember
    simp only [List.mem_append, List.mem_singleton] at hMember
    rcases hMember with hConjunction | rfl
    · exact Json.forall_mem_optional (fun _ _ => trivial) member hConjunction
    · exact hChild.plain
  · have hRead := hChild.decoded budget (hBudget ("criteria", child.encode) (by simp))
    have hConjunction : Json.TakesUp (Group.readItemField (Condition.decode budget))
        ["conjunction"] (Json.optional "conjunction" (conjunction.map (.string ·.text)))
        (none, none) (conjunction.map (·.text), none) :=
      .optional (by rintro rfl; rfl) (by rintro phrase rfl; rfl)
    have hCriteria : Json.TakesUp (Group.readItemField (Condition.decode budget)) ["criteria"]
        [("criteria", child.encode)] (conjunction.map (·.text), none)
        (conjunction.map (·.text), some child) := by
      refine .member ?_
      simp only [Group.readItemField, Condition.asOptional_encode hRead]
      rfl
    exact hConjunction.append hCriteria

/-- The items of the later conditions of a group. -/
def Group.restItems (rest : List (Phrase × Condition)) : List Group.Item :=
  rest.map fun (conjunction, child) => (some conjunction.text, some child)

theorem Group.appendItems_restItems (negated : Bool) (first : Condition)
    (before rest : List (Phrase × Condition)) :
    (Group.joined negated first before).appendItems (Group.restItems rest) =
      .ok (.joined negated first (before ++ rest)) := by
  induction rest generalizing before with
  | nil => simp [appendItems, restItems, pure, Except.pure]
  | cons entry rest ih =>
      obtain ⟨conjunction, child⟩ := entry
      have hStep : (Group.joined negated first before).append? conjunction.text (some child) =
          .ok (.joined negated first (before ++ [(conjunction, child)])) := by
        simp only [append?, append, Phrase.of?_text, join]
      have hRest := ih (before ++ [(conjunction, child)])
      simp only [appendItems, restItems, List.map_cons, List.foldlM_cons, Option.getD_some,
        hStep, bind, Except.bind] at hRest ⊢
      rw [hRest, List.append_assoc, List.singleton_append]

/-- Appending the items of a group to an empty one gives the group back. -/
theorem Group.appendItems_items (negated : Bool) (first : Condition)
    (rest : List (Phrase × Condition)) :
    (Group.empty negated).appendItems ((none, some first) :: Group.restItems rest) =
      .ok (.joined negated first rest) :=
  Group.appendItems_restItems negated first [] rest

/-- A group is a flag and its items, which are appended one by one. -/
theorem Group.decodesTo_record {negated : Bool} {items : List Json} {values : List Group.Item}
    {group : Group} (hItems : AllDecodeTo Group.decodeItem items values)
    (hAppend : (Group.empty negated).appendItems values = .ok group) :
    DecodesTo Group.decode (.record [("not", .boolean negated), ("items", .array items)])
      group := by
  have hArray := hItems.array Group.decodeItems fun _ => rfl
  have hBuild : Json.checked ((Group.empty negated).appendItems values) = .ok group := by
    rw [hAppend]
    rfl
  refine .built (negated, values) (fun _ _ => rfl) (by decide) ?_ (fun budget hBudget => ?_) hBuild
  · have hPlain : Json.PlainItems items := hItems.plain
    simp [hPlain, Json.Plain]
  · have hRead := hArray.decoded budget (hBudget ("items", .array items) (by simp))
    have hNot : Json.TakesUp (Group.readField (Group.decodeItems budget)) ["not"]
        [("not", .boolean negated)] (false, []) (negated, []) := .member rfl
    have hList : Json.TakesUp (Group.readField (Group.decodeItems budget)) ["items"]
        [("items", .array items)] (negated, []) (negated, values) := by
      refine .member ?_
      simp only [Group.readField, hRead]
      rfl
    exact hNot.append hList

/-! ## Snippets -/

/-- A snippet is a text and its arguments, if it has any. -/
theorem Snippet.decodesTo_record {text : String} {items : List Json} {arguments : List Argument}
    (hItems : AllDecodeTo Argument.decode items arguments) :
    DecodesTo Snippet.decode (.record (("text", .string text) :: Json.unlessEmpty "args" items))
      (.mk text arguments) := by
  have hArray := hItems.array Argument.decodeAll fun _ => rfl
  have hArguments : ∀ member ∈ Json.unlessEmpty "args" items, member.2.Plain :=
    Json.forall_mem_unlessEmpty hArray.plain
  refine .built (some text, arguments) (fun _ _ => rfl) (by decide) ?_ (fun budget hBudget => ?_)
    rfl
  · intro member hMember
    rcases List.mem_cons.mp hMember with rfl | hMember
    · trivial
    · exact hArguments member hMember
  · have hText : Json.TakesUp (Snippet.readField (Argument.decodeAll budget)) ["text"]
        [("text", .string text)] (none, []) (some text, []) := .member rfl
    have hList : Json.TakesUp (Snippet.readField (Argument.decodeAll budget)) ["args"]
        (Json.unlessEmpty "args" items) (some text, []) (some text, arguments) := by
      refine .unlessEmpty ?_ ?_
      · rintro rfl
        have hNone : [] = arguments := Except.ok.inj (hItems.decoded 0 (Nat.le_refl 0))
        rw [hNone]
      · intro hSome
        have hAmong := @Json.mem_unlessEmpty "args" items hSome
        have hRead := hArray.decoded budget (hBudget _ (List.mem_cons_of_mem _ hAmong))
        simp only [Snippet.readField, hRead]
        rfl
    exact hText.append hList

/-! ## All trees -/

mutual

theorem Comparison.decodesTo_encode : ∀ comparison : Comparison, comparison.Readable →
    DecodesTo Comparison.decode comparison.encode comparison
  | .bare field mark, _ =>
      Comparison.decodesTo_encodeWith (Operand.decodesTo_marked mark)
        (Comparison.ofParts_parts (.bare field mark))
  | .isNull field operator name, _ =>
      Comparison.decodesTo_encodeWith Operand.decodesTo_null
        (Comparison.ofParts_parts (.isNull field operator name))
  | .scalar field operator value name, h =>
      Comparison.decodesTo_encodeWith (Operand.decodesTo_scalar h)
        (Comparison.ofParts_parts (.scalar field operator value name))
  | .nested field operator clause name, h =>
      Comparison.decodesTo_encodeWith (Operand.decodesTo_nested (Clause.decodesTo_encode clause h))
        (Comparison.ofParts_parts (.nested field operator clause name))

theorem Group.decodesTo_encode : ∀ group : Group, group.Readable →
    DecodesTo Group.decode group.encode group
  | .empty _, _ => Group.decodesTo_record .nil rfl
  | .joined negated first rest, h =>
      Group.decodesTo_record
        (.cons (Group.decodesTo_encodeItem (Condition.decodesTo_encode first h.1))
          (Group.allDecodeTo_encodeRest rest h.2))
        (Group.appendItems_items negated first rest)

theorem Group.allDecodeTo_encodeRest : ∀ rest : List (Phrase × Condition),
    Group.RestReadable rest →
      AllDecodeTo Group.decodeItem (Group.encodeRest rest) (Group.restItems rest)
  | [], _ => .nil
  | (_, child) :: rest, h =>
      .cons (Group.decodesTo_encodeItem (Condition.decodesTo_encode child h.1))
        (Group.allDecodeTo_encodeRest rest h.2)

theorem Condition.decodesTo_encode : ∀ condition : Condition, condition.Readable →
    DecodesTo Condition.decode condition.encode condition
  | .comparison comparison, h =>
      (Comparison.decodesTo_encode comparison h).carried (fun _ => rfl) fun _ _ => rfl
  | .group group, h =>
      (Group.decodesTo_encode group h).carried (fun _ => rfl) fun _ _ => rfl
  | .sub snippet, h =>
      (Snippet.decodesTo_encode snippet h).carried (fun _ => rfl) fun _ _ => rfl
  | .native snippet, h =>
      (Snippet.decodesTo_encode snippet h).carried (fun _ => rfl) fun _ _ => rfl

theorem Snippet.decodesTo_encode : ∀ snippet : Snippet, snippet.Readable →
    DecodesTo Snippet.decode snippet.encode snippet
  | .mk _ arguments, h => Snippet.decodesTo_record (Argument.allDecodeTo_encodeAll arguments h)

theorem Argument.decodesTo_encode : ∀ argument : Argument, argument.Readable →
    DecodesTo Argument.decode argument.encode argument
  | .value value, h =>
      (Value.decodesTo_encode value h).carried (fun _ => rfl) fun _ _ => rfl
  | .mapping _, h =>
      (Dict.decodesTo_encode_values h).carried (fun _ => rfl) fun _ _ => rfl
  | .clause clause, h =>
      (Clause.decodesTo_encode clause h).carried (fun _ => rfl) fun _ _ => rfl
  | .paging paging, _ =>
      paging.decodesTo_encode.carried (fun _ => rfl) fun _ _ => rfl

theorem Argument.allDecodeTo_encodeAll : ∀ arguments : List Argument,
    Argument.AllReadable arguments →
      AllDecodeTo Argument.decode (Argument.encodeAll arguments) arguments
  | [], _ => .nil
  | argument :: rest, h =>
      .cons (Argument.decodesTo_encode argument h.1) (Argument.allDecodeTo_encodeAll rest h.2)

theorem Having.decodesTo_encode : ∀ having : Having, having.Readable →
    DecodesTo Having.decode having.encode having
  | .condition condition, h =>
      (Condition.decodesTo_encode condition h).carried (fun _ => rfl) fun _ _ => rfl
  | .text snippet, h =>
      (Snippet.decodesTo_encode snippet h).carried (fun _ => rfl) fun _ _ => rfl

theorem Clause.decodesTo_encode : ∀ clause : Clause, clause.Readable →
    DecodesTo Clause.decode clause.encode clause
  | .condition condition, h =>
      (Condition.decodesTo_encode condition h).carried (fun _ => rfl) fun _ _ => rfl
  | .groupBy fields, _ =>
      fields.decodesTo_encode.carried (fun _ => rfl) fun _ _ => rfl
  | .orderBy fields, _ =>
      fields.decodesTo_encode.carried (fun _ => rfl) fun _ _ => rfl
  | .having having, h =>
      (Having.decodesTo_encode having h).carried (fun _ => rfl) fun _ _ => rfl
  | .sub snippet, h =>
      (Snippet.decodesTo_encode snippet h).carried (fun _ => rfl) fun _ _ => rfl
  | .native snippet, h =>
      (Snippet.decodesTo_encode snippet h).carried (fun _ => rfl) fun _ _ => rfl
  | .aggregate aggregate, _ =>
      aggregate.decodesTo_encode.carried (fun _ => rfl) fun _ _ => rfl

end

theorem Operand.decodesTo_encode (operand : Operand) (h : operand.Readable) :
    DecodesTo Operand.decode operand.encode operand := by
  cases operand with
  | scalar value => exact Operand.decodesTo_scalar h
  | null => exact Operand.decodesTo_null
  | nested clause => exact Operand.decodesTo_nested (Clause.decodesTo_encode clause h)
  | marked mark => exact Operand.decodesTo_marked mark

end BoundQuery
