import BoundQuery.Proofs.Calendar
import BoundQuery.Proofs.Decimal
import BoundQuery.Proofs.Dict
import BoundQuery.Proofs.Json.Decoding
import BoundQuery.Tree.Document

/-!
# Documents of values, fields and aggregates

Each of them decodes to what it was written of. Dates, moments, strings and integers always read
back; a value with decimals does if its decimals do (`Value.Readable`).
-/

namespace BoundQuery

open Json (DecodesTo AllDecodeTo)

/-! ## Values -/

mutual

/-- Whether every decimal of a value reads back from its text. -/
def Value.Readable : Value → Prop
  | .decimal d => d.ReadsBack
  | .list items => Value.ItemsReadable items
  | _ => True

def Value.ItemsReadable : List Value → Prop
  | [] => True
  | item :: rest => item.Readable ∧ Value.ItemsReadable rest

end

namespace Json

theorem asIntIn_ofInt {low high n : Int} (hLow : low ≤ n) (hHigh : n < high) :
    (ofInt n).asIntIn low high = .ok n := by
  rw [ofInt, asIntIn, integer?_toString]
  simp [hLow, hHigh]

theorem asInt64_ofInt (n : Int64) : (ofInt n.toInt).asInt64 = .ok n := by
  have hLow : -(twoTo 63 : Int) ≤ n.toInt := by
    have hLeast := n.le_toInt
    have hPower : (twoTo 63 : Int) = 2 ^ 63 := by decide
    omega
  have hHigh : n.toInt < (twoTo 63 : Int) := by
    have hMost := n.toInt_lt
    have hPower : (twoTo 63 : Int) = 2 ^ 63 := by decide
    omega
  rw [asInt64, asIntIn_ofInt hLow hHigh]
  simp [bind, Except.bind, pure, Except.pure]

theorem asNatOf_ofNat {bits n : Nat} (h : n < twoTo bits) : (ofNat n).asNatOf bits = .ok n := by
  have hInt : ofNat n = ofInt n := rfl
  rw [asNatOf, hInt, asIntIn_ofInt (by omega) (by omega)]
  simp [bind, Except.bind, pure, Except.pure]

theorem plain_ofInt (n : Int) : (ofInt n).Plain := ⟨n, rfl⟩

theorem plain_ofNat (n : Nat) : (ofNat n).Plain := ⟨n, rfl⟩

end Json

theorem Decimal.decode_encode {d : Decimal} (h : d.ReadsBack) :
    Decimal.decode d.encode = .ok d := by
  have hText : ofText? d.text = some d := h
  rw [encode, decode, hText]
  rfl

theorem Date.decode_encode (date : Date) : Date.decode date.encode = .ok date := by
  simp only [encode, decode, Json.asString, bind, Except.bind, ofText?_text]
  rfl

theorem DateTime.decode_encode (moment : DateTime) :
    DateTime.decode moment.encode = .ok moment := by
  simp only [encode, decode, Json.asString, bind, Except.bind, ofText?_text]
  rfl

/-- What a value that holds no other values carries is decoded as such. -/
theorem Value.decodesTo_simple {kind : String} {payload : Json} {value : Value}
    {decode : Json → Decoded Value} (hPlain : payload.Plain) (hNamed : named kind = none)
    (hList : kind ≠ "list") (hSimple : simple kind = some decode)
    (hPayload : decode payload = .ok value) :
    DecodesTo Value.decode (.record [(kind, payload)]) value := by
  refine .structure (by simpa using hPlain) fun budget _ => ?_
  rw [Value.decode]
  refine Json.variant_record hNamed ?_ hPayload
  split
  · exact absurd rfl hList
  · exact hSimple

mutual

theorem Value.decodesTo_encode : ∀ value : Value, value.Readable →
    DecodesTo Value.decode value.encode value
  | .null, _ => .bare Value.named rfl fun budget => by cases budget <;> rfl
  | .boolean b, _ => Value.decodesTo_simple trivial rfl (by decide) rfl rfl
  | .integer n, _ => by
      refine Value.decodesTo_simple (Json.plain_ofInt _) rfl (by decide) rfl ?_
      rw [Json.asInt64_ofInt]
      rfl
  | .decimal d, h => by
      refine Value.decodesTo_simple trivial rfl (by decide) rfl ?_
      rw [Decimal.decode_encode h]
      rfl
  | .string s, _ => Value.decodesTo_simple trivial rfl (by decide) rfl rfl
  | .date d, _ => by
      refine Value.decodesTo_simple trivial rfl (by decide) rfl ?_
      rw [Date.decode_encode]
      rfl
  | .dateTime moment, _ => by
      refine Value.decodesTo_simple trivial rfl (by decide) rfl ?_
      rw [DateTime.decode_encode]
      rfl
  | .list items, h => by
      have hItems := (Value.allDecodeTo_encodeItems items h).array Value.decodeItems fun _ => rfl
      exact hItems.alternative Value.named rfl (fun _ => rfl) fun _ _ => rfl

theorem Value.allDecodeTo_encodeItems : ∀ items : List Value, Value.ItemsReadable items →
    AllDecodeTo Value.decode (Value.encodeItems items) items
  | [], _ => .nil
  | item :: rest, h =>
      .cons (Value.decodesTo_encode item h.1) (Value.allDecodeTo_encodeItems rest h.2)

end

/-! ## Dictionaries -/

/-- Whether every decimal of the values in a dictionary reads back from its text. -/
def Dict.Readable (dict : Dict Value) : Prop := ∀ entry ∈ dict.entries, entry.2.Readable

namespace Dict

variable {α : Type}

/-- The members of a dictionary's document are decoded in order. -/
theorem eachMember_encode {encode : α → Json} {decode : Decoder α} {budget : Nat}
    {entries : List (String × α)}
    (h : ∀ entry ∈ entries, decode budget (encode entry.2) = .ok entry.2) :
    (Json.record (entries.map fun (key, value) => (key, encode value))).eachMember
      (decode budget) = .ok entries := by
  simp only [Json.record, Json.eachMember]
  induction entries with
  | nil => rfl
  | cons entry rest ih =>
      obtain ⟨key, value⟩ := entry
      have hHead : decode budget (encode value) = .ok value := h (key, value) List.mem_cons_self
      have hTail := ih fun other hOther => h other (List.mem_cons_of_mem _ hOther)
      simp only [List.map_cons, List.mapM_cons, hTail, hHead]
      rfl

/-- A dictionary decodes to itself, in its order, if its values do. -/
theorem decodesTo_encode {encode : α → Json} {decode : Decoder α} {dict : Dict α}
    (h : ∀ entry ∈ dict.entries, DecodesTo decode (encode entry.2) entry.2) :
    DecodesTo (Dict.decode decode) (dict.encode encode) dict := by
  refine .structure ?_ fun budget hBudget => ?_
  · intro member hMember
    obtain ⟨entry, hEntry, rfl⟩ := List.mem_map.mp hMember
    exact (h entry hEntry).plain
  · have hValues : ∀ entry ∈ dict.entries, decode budget (encode entry.2) = .ok entry.2 := by
      intro entry hEntry
      exact (h entry hEntry).decoded budget (hBudget _ (List.mem_map_of_mem hEntry))
    rw [Dict.decode, Json.enter, eachMember_encode hValues]
    exact congrArg Except.ok (Dict.ofList_entries dict)

theorem decodesTo_encode_values {dict : Dict Value} (h : dict.Readable) :
    DecodesTo (Dict.decode Value.decode) (dict.encode Value.encode) dict :=
  decodesTo_encode fun entry hEntry => Value.decodesTo_encode entry.2 (h entry hEntry)

end Dict

/-! ## Fields -/

theorem Field.ofText_text (field : Field) : Field.ofText field.text = .ok field := by
  rw [ofText, Phrase.of?_text]

theorem Field.decode_encode (field : Field) : Field.decode field.encode = .ok field := by
  simp only [encode, decode, Json.asString, bind, Except.bind, ofText_text]
  rfl

theorem Field.decodesTo_encode (field : Field) :
    DecodesTo (fun _ => Field.decode) field.encode field :=
  ⟨trivial, fun _ _ => field.decode_encode⟩

theorem Fields.decodesTo_encode (fields : Fields) :
    DecodesTo Fields.decode fields.encode fields := by
  have hAll : AllDecodeTo (fun _ => Field.decode) (fields.toList.map Field.encode) fields.toList :=
    .map fun field _ => field.decodesTo_encode
  refine ⟨hAll.plain, fun budget hBudget => ?_⟩
  have hDepth : fields.encode.depth = Json.itemsDepth (fields.toList.map Field.encode) + 1 := rfl
  obtain ⟨rest, rfl⟩ : ∃ rest, budget = rest + 1 := ⟨budget - 1, by omega⟩
  have hItems := hAll.decoded rest (by omega)
  rw [decode, encode, Json.enter, Json.each, hItems]
  rfl

/-! ## Aggregates, marks, settings for runners and projections -/

theorem Aggregate.decodesTo_encode (aggregate : Aggregate) :
    DecodesTo Aggregate.decode aggregate.encode aggregate := by
  have hFields := aggregate.fields.decodesTo_encode
  have hOutputs : DecodesTo (Dict.decode fun _ json => json.asString)
      (aggregate.outputs.encode .string) aggregate.outputs :=
    Dict.decodesTo_encode fun entry _ => ⟨trivial, fun _ _ => rfl⟩
  refine .built (some aggregate.fields, aggregate.outputs) (fun _ _ => rfl) (by decide) ?_
    (fun budget hBudget => ?_) rfl
  · simp [hFields.plain, hOutputs.plain]
  · have hFieldsRead := hFields.decoded budget (hBudget _ List.mem_cons_self)
    have hOutputsRead := hOutputs.decoded budget
      (hBudget _ (List.mem_cons_of_mem _ List.mem_cons_self))
    have hFirst : Json.TakesUp (readField budget) ["fields"]
        [("fields", aggregate.fields.encode)] (none, .empty) (some aggregate.fields, .empty) := by
      refine .member ?_
      simp only [readField, hFieldsRead]
      rfl
    have hSecond : Json.TakesUp (readField budget) ["with"]
        [("with", aggregate.outputs.encode .string)] (some aggregate.fields, .empty)
        (some aggregate.fields, aggregate.outputs) := by
      refine .member ?_
      simp only [readField, hOutputsRead]
      rfl
    exact hFirst.append hSecond

theorem Mark.decodesTo_encode (mark : Mark) : DecodesTo Mark.decode mark.encode mark := by
  cases mark with
  | skip => exact .bare Mark.named rfl fun budget => by cases budget <;> rfl
  | noValue => exact .bare Mark.named rfl fun budget => by cases budget <;> rfl

theorem Paging.decodesTo_encode (paging : Paging) :
    DecodesTo Paging.decode paging.encode paging := by
  cases paging with
  | offset n =>
      refine .structure (by simpa using Json.plain_ofNat _) fun budget _ => ?_
      rw [decode, Json.enter]
      refine Json.variant_record rfl rfl ?_
      rw [Json.asNatOf_ofNat n.toNat_lt]
      simp [bind, Except.bind, pure, Except.pure]
  | limit n =>
      refine .structure (by simpa using Json.plain_ofNat _) fun budget _ => ?_
      rw [decode, Json.enter]
      refine Json.variant_record rfl rfl ?_
      rw [Json.asNatOf_ofNat n.toNat_lt]
      simp [bind, Except.bind, pure, Except.pure]

theorem Projection.decodesTo_encode (projection : Projection) :
    DecodesTo Projection.decode projection.encode projection := by
  cases projection with
  | entity => exact .bare Projection.named rfl fun budget => by cases budget <;> rfl
  | expression text =>
      have hText : DecodesTo (fun _ json => json.asString) (.string text) text :=
        ⟨trivial, fun _ _ => rfl⟩
      exact hText.alternative Projection.named rfl (fun _ => rfl) fun _ _ => rfl
  | aggregate summary =>
      exact summary.decodesTo_encode.alternative Projection.named rfl (fun _ => rfl) fun _ _ => rfl

end BoundQuery
