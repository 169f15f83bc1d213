import BoundQuery.Proofs.Document.Tree
import BoundQuery.Request

/-!
# Documents are read back from their texts

Settings and requests decode to themselves from their documents, as values and trees do, and every
document is plain, so its texts are read as the document: `documents_round_trip` lists all types
that are written. What is read is the very value: its dictionaries are in the same order, its
decimals have the same scale, it binds by name if and only if the written one does, and it is
written in the same way again.
-/

namespace BoundQuery

open Json (DecodesTo AllDecodeTo TakesUp)

/-! ## Assignments -/

/-- Whether every decimal in an assignment reads back from its text. -/
def Assignment.Readable (assignment : Assignment) : Prop := assignment.value.Readable

theorem Assignment.decodesTo_encode (assignment : Assignment) (h : assignment.Readable) :
    DecodesTo Assignment.decode assignment.encode assignment := by
  have hValue := Value.decodesTo_encode assignment.value h
  refine .built (some assignment.field, assignment.value) (fun _ _ => rfl) (by decide) ?_
    (fun budget hBudget => ?_) rfl
  · have hPlain := hValue.plain
    simp [Field.encode, Json.Plain, hPlain]
  · have hRead := hValue.decoded budget (hBudget ("value", assignment.value.encode) (by simp))
    have hField : TakesUp (readField budget) ["field"] [("field", assignment.field.encode)]
        (none, .null) (some assignment.field, .null) := by
      refine .member ?_
      simp only [readField, Field.decode_encode]
      rfl
    have hSecond : TakesUp (readField budget) ["value"] [("value", assignment.value.encode)]
        (some assignment.field, .null) (some assignment.field, assignment.value) := by
      refine .member ?_
      simp only [readField, hRead]
      rfl
    exact hField.append hSecond

namespace Assignment

/-- The document of a list of assignments. -/
def encodeAll (assignments : List Assignment) : Json := .array (assignments.map encode)

/-- Whether every decimal in some assignments reads back from its text. -/
def AllReadable (assignments : List Assignment) : Prop :=
  ∀ assignment ∈ assignments, assignment.Readable

theorem decodesTo_encodeAll (assignments : List Assignment) (h : AllReadable assignments) :
    DecodesTo decodeAll (encodeAll assignments) assignments := by
  have hAll : AllDecodeTo decode (assignments.map encode) assignments :=
    .map fun assignment hMember => assignment.decodesTo_encode (h assignment hMember)
  exact hAll.array decodeAll fun _ => rfl

end Assignment

/-! ## Settings -/

theorem Settings.decodesTo_encode (settings : Settings) :
    DecodesTo Settings.decode settings.encode settings := by
  obtain ⟨aliasText, pattern, entity⟩ := settings
  refine .taken (fun _ _ => rfl) (by decide) ?_ (fun budget hBudget => ?_)
  · intro member hMember
    simp only [List.mem_append, List.mem_cons] at hMember
    rcases hMember with (rfl | hPattern) | hEntity
    · trivial
    · exact Json.forall_mem_optional (fun _ _ => trivial) member hPattern
    · exact Json.forall_mem_optional (fun _ _ => trivial) member hEntity
  · have hAlias : TakesUp readField ["alias"] [("alias", .string aliasText)] Settings.standard
        ⟨aliasText, none, none⟩ := .member rfl
    have hPattern : TakesUp readField ["alias_pattern"]
        (Json.optional "alias_pattern" (pattern.map .string)) ⟨aliasText, none, none⟩
        ⟨aliasText, pattern, none⟩ := .optional (by rintro rfl; rfl) (by rintro text rfl; rfl)
    have hEntity : TakesUp readField ["entity"] (Json.optional "entity" (entity.map .string))
        ⟨aliasText, pattern, none⟩ ⟨aliasText, pattern, entity⟩ :=
      .optional (by rintro rfl; rfl) (by rintro text rfl; rfl)
    exact (hAlias.append hPattern).append hEntity

/-! ## Requests -/

namespace Request

theorem Kind.decodesTo_encode (kind : Kind) : DecodesTo Kind.decode kind.encode kind := by
  have hNamed : Kind.named kind.text = some kind := by cases kind <;> rfl
  exact .bare Kind.named hNamed fun budget => by cases budget <;> rfl

/-- Whether every decimal in a request reads back from its text. -/
structure Readable (request : Request) : Prop where
  condition : ∀ condition ∈ request.condition, condition.Readable
  assignments : Assignment.AllReadable request.assignments
  arguments : Argument.AllReadable request.arguments

section Fields

variable {budget : Nat} (request : Request)

theorem takesUp_settings {settings : Settings}
    (hRead : Settings.decode budget settings.encode = .ok settings) :
    TakesUp (readField budget) ["config"] [("config", settings.encode)] request
      { request with settings := settings } := by
  refine .member ?_
  simp only [readField, hRead]
  rfl

theorem takesUp_kind {kind : Kind} (hRead : Kind.decode budget kind.encode = .ok kind) :
    TakesUp (readField budget) ["kind"] [("kind", kind.encode)] request
      { request with kind := kind } := by
  refine .member ?_
  simp only [readField, hRead]
  rfl

theorem takesUp_condition {condition : Option Condition} (hNone : request.condition = none)
    (hRead : ∀ inside, condition = some inside →
      Condition.decode budget inside.encode = .ok inside) :
    TakesUp (readField budget) ["criteria"]
      (Json.optional "criteria" (condition.map Condition.encode)) request
      { request with condition := condition } := by
  refine .optional (fun hLeft => ?_) fun inside hInside => ?_
  · rw [hLeft, ← hNone]
  · simp only [readField, Condition.asOptional_encode (hRead inside hInside), hInside]
    rfl

theorem takesUp_assignments {assignments : List Assignment} (hNone : request.assignments = [])
    (hRead : assignments.map Assignment.encode ≠ [] →
      Assignment.decodeAll budget (Assignment.encodeAll assignments) = .ok assignments) :
    TakesUp (readField budget) ["assignments"]
      (Json.unlessEmpty "assignments" (assignments.map Assignment.encode)) request
      { request with assignments := assignments } := by
  refine .unlessEmpty (fun hLeft => ?_) fun hSome => ?_
  · rw [List.map_eq_nil_iff.mp hLeft, ← hNone]
  · have hAll := hRead hSome
    rw [Assignment.encodeAll] at hAll
    simp only [readField, hAll]
    rfl

theorem takesUp_fields (fields : Option String) (hNone : request.fields = none) :
    TakesUp (readField budget) ["fields"] (Json.optional "fields" (fields.map .string)) request
      { request with fields := fields } := by
  refine .optional (fun hLeft => ?_) fun text hText => ?_
  · rw [hLeft, ← hNone]
  · rw [hText]
    rfl

theorem takesUp_projection {projection : Projection}
    (hRead : Projection.decode budget projection.encode = .ok projection) :
    TakesUp (readField budget) ["selector"] [("selector", projection.encode)] request
      { request with projection := projection } := by
  refine .member ?_
  simp only [readField, hRead]
  rfl

theorem takesUp_arguments {arguments : List Argument} (hNone : request.arguments = [])
    (hRead : Argument.encodeAll arguments ≠ [] →
      Argument.decodeAll budget (.array (Argument.encodeAll arguments)) = .ok arguments) :
    TakesUp (readField budget) ["arguments"]
      (Json.unlessEmpty "arguments" (Argument.encodeAll arguments)) request
      { request with arguments := arguments } := by
  refine .unlessEmpty (fun hLeft => ?_) fun hSome => ?_
  · cases arguments with
    | nil => rw [← hNone]
    | cons argument rest => exact absurd hLeft (List.cons_ne_nil _ _)
  · simp only [readField, hRead hSome]
    rfl

end Fields

/-- A request is decoded from its document by taking up one field after the other; the fields that
are left out are those of the empty request. -/
theorem decodesTo_encode (request : Request) (h : request.Readable) :
    DecodesTo decode request.encode request := by
  have hSettings := request.settings.decodesTo_encode
  have hKind := request.kind.decodesTo_encode
  have hCondition := fun inside (hInside : inside ∈ request.condition) =>
    Condition.decodesTo_encode inside (h.condition inside hInside)
  have hAssignments := Assignment.decodesTo_encodeAll request.assignments h.assignments
  have hProjection := request.projection.decodesTo_encode
  have hArguments := (Argument.allDecodeTo_encodeAll request.arguments h.arguments).array
    Argument.decodeAll fun _ => rfl
  refine .taken (fun _ _ => rfl) (by decide) ?_ (fun budget hBudget => ?_)
  · intro member hMember
    simp only [List.mem_append, List.mem_cons] at hMember
    rcases hMember with ((((rfl | rfl | hMember) | hMember) | hMember) | rfl | hMember)
    · exact hSettings.plain
    · exact hKind.plain
    · exact Json.forall_mem_optional (fun inside hInside => (hCondition inside hInside).plain)
        member hMember
    · exact Json.forall_mem_unlessEmpty hAssignments.plain member hMember
    · exact Json.forall_mem_optional (fun _ _ => trivial) member hMember
    · exact hProjection.plain
    · exact Json.forall_mem_unlessEmpty hArguments.plain member hMember
  · simp only [List.forall_mem_append, List.forall_mem_cons] at hBudget
    obtain ⟨⟨⟨⟨hInSettings, hInKind, hInCondition⟩, hInAssignments⟩, -⟩, hInProjection,
      hInArguments⟩ := hBudget
    have hHead := (takesUp_settings empty (hSettings.decoded budget hInSettings)).append
      (takesUp_kind _ (hKind.decoded budget hInKind))
    have hCriteria := hHead.append (takesUp_condition _ rfl fun inside hInside =>
      (hCondition inside hInside).decoded budget
        (hInCondition ("criteria", inside.encode) (by simp [Json.optional, hInside])))
    have hAssigned := hCriteria.append (takesUp_assignments _ rfl fun hSome =>
      hAssignments.decoded budget (hInAssignments _ (Json.mem_unlessEmpty hSome)))
    have hListed := hAssigned.append (takesUp_fields _ request.fields rfl)
    exact hListed.append ((takesUp_projection _ (hProjection.decoded budget hInProjection)).append
      (takesUp_arguments _ rfl fun hSome =>
        hArguments.decoded budget (hInArguments _ (Json.mem_unlessEmpty hSome))))

end Request

/-! ## Texts -/

/-- Whether all values of a type that are good, and that are written with no more arrays and objects
inside each other than decoders enter, are read back from what is written of them, with or without
line breaks. -/
def ReadBack {α : Type} (encode : α → Json) (decode : Decoder α) (good : α → Prop) : Prop :=
  ∀ value, good value → (encode value).depth ≤ Json.maxDepth →
    ∀ write ∈ [Json.compact, Json.pretty],
      Json.decodeText decode (write (encode value)) = .ok value

theorem ReadBack.of_decodesTo {α : Type} {encode : α → Json} {decode : Decoder α}
    {good : α → Prop} (h : ∀ value, good value → DecodesTo decode (encode value) value) :
    ReadBack encode decode good := by
  intro value hGood hDepth write hWrite
  obtain ⟨hCompact, hPretty⟩ := (h value hGood).decodeText hDepth
  simp only [List.mem_cons, List.not_mem_nil, or_false] at hWrite
  rcases hWrite with rfl | rfl
  · exact hCompact
  · exact hPretty

/-- Everything that is written as a document is read back, provided that its decimals are; of these,
only a zero with a sign is not. -/
theorem documents_round_trip :
    (∀ d : Decimal, d.ReadsBack ↔ ¬ (d.negative = true ∧ d.mantissa = 0)) ∧
    ReadBack Value.encode Value.decode Value.Readable ∧
    ReadBack (Dict.encode Value.encode) (Dict.decode Value.decode) Dict.Readable ∧
    ReadBack Field.encode (fun _ => Field.decode) (fun _ => True) ∧
    ReadBack Fields.encode Fields.decode (fun _ => True) ∧
    ReadBack Operand.encode Operand.decode Operand.Readable ∧
    ReadBack Comparison.encode Comparison.decode Comparison.Readable ∧
    ReadBack Group.encode Group.decode Group.Readable ∧
    ReadBack Condition.encode Condition.decode Condition.Readable ∧
    ReadBack Snippet.encode Snippet.decode Snippet.Readable ∧
    ReadBack Having.encode Having.decode Having.Readable ∧
    ReadBack Clause.encode Clause.decode Clause.Readable ∧
    ReadBack Paging.encode Paging.decode (fun _ => True) ∧
    ReadBack Argument.encode Argument.decode Argument.Readable ∧
    ReadBack Assignment.encode Assignment.decode Assignment.Readable ∧
    ReadBack Assignment.encodeAll Assignment.decodeAll Assignment.AllReadable ∧
    ReadBack Aggregate.encode Aggregate.decode (fun _ => True) ∧
    ReadBack Projection.encode Projection.decode (fun _ => True) ∧
    ReadBack Settings.encode Settings.decode (fun _ => True) ∧
    ReadBack Request.encode Request.decode Request.Readable :=
  ⟨Decimal.readsBack_iff,
    .of_decodesTo Value.decodesTo_encode,
    .of_decodesTo fun _ h => Dict.decodesTo_encode_values h,
    .of_decodesTo fun field _ => field.decodesTo_encode,
    .of_decodesTo fun fields _ => fields.decodesTo_encode,
    .of_decodesTo Operand.decodesTo_encode,
    .of_decodesTo Comparison.decodesTo_encode,
    .of_decodesTo Group.decodesTo_encode,
    .of_decodesTo Condition.decodesTo_encode,
    .of_decodesTo Snippet.decodesTo_encode,
    .of_decodesTo Having.decodesTo_encode,
    .of_decodesTo Clause.decodesTo_encode,
    .of_decodesTo fun paging _ => paging.decodesTo_encode,
    .of_decodesTo Argument.decodesTo_encode,
    .of_decodesTo Assignment.decodesTo_encode,
    .of_decodesTo Assignment.decodesTo_encodeAll,
    .of_decodesTo fun aggregate _ => aggregate.decodesTo_encode,
    .of_decodesTo fun projection _ => projection.decodesTo_encode,
    .of_decodesTo fun settings _ => settings.decodesTo_encode,
    .of_decodesTo Request.decodesTo_encode⟩

/-- The decimal `-1.50`. -/
def lossOfOneAndAHalf : Decimal := ⟨true, 150, 2, by decide, by decide⟩

/-- A request to count what is worth more than `-1.50`, in pages of ten. -/
def countRequest : Request :=
  { Request.empty with
    kind := .count
    condition := some (.comparison (.scalar ⟨"worth", by decide +kernel, by decide⟩
      (some ⟨">", by decide +kernel, by decide⟩) ⟨.decimal lossOfOneAndAHalf, rfl⟩ none))
    arguments := [.paging (.limit 10)] }

/-- The request is read back from its indented text, its decimal with both digits. -/
theorem countRequest_round_trip :
    Json.decodeText Request.decode countRequest.encode.pretty = .ok countRequest := by
  have hDecimal : lossOfOneAndAHalf.ReadsBack :=
    (Decimal.readsBack_iff lossOfOneAndAHalf).mpr (by decide)
  have hReadable : countRequest.Readable := by
    refine ⟨?_, ?_, trivial, trivial⟩
    · intro condition hCondition
      obtain rfl := Option.mem_some_iff.mp hCondition
      exact hDecimal
    · intro assignment hAssignment
      exact absurd hAssignment List.not_mem_nil
  have hDepth : countRequest.encode.depth ≤ Json.maxDepth := by decide +kernel
  obtain ⟨-, -, -, -, -, -, -, -, -, -, -, -, -, -, -, -, -, -, -, hRequests⟩ :=
    documents_round_trip
  exact hRequests countRequest hReadable hDepth Json.pretty (by simp)

end BoundQuery
