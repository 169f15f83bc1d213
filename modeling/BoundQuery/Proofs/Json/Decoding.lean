import BoundQuery.Json.Decode
import BoundQuery.Proofs.Json.Reading

/-!
# Laws of decoders

`DecodesTo decode json value` says that a document is plain and that the decoder makes the value of
it, given a budget of at least its depth. There is one law for each way in which documents are put
together: bare names, alternatives, structures and lists. `DecodesTo.decodeText` carries the law
over to the texts of a document.
-/

namespace BoundQuery.Json

/-! ## Records -/

theorem plain_record {members : List (String × Json)} :
    (record members).Plain ↔ ∀ member ∈ members, member.2.Plain := by
  rw [record, Plain]
  induction members with
  | nil => simp [PlainMembers]
  | cons member rest ih => simp [PlainMembers, ih]

theorem depth_record_le {members : List (String × Json)} {budget : Nat} :
    (record members).depth ≤ budget + 1 ↔ ∀ member ∈ members, member.2.depth ≤ budget := by
  simp only [record, depth, Nat.add_le_add_iff_right]
  induction members with
  | nil => simp [membersDepth]
  | cons member rest ih =>
      obtain ⟨key, value⟩ := member
      simp only [List.map_cons, membersDepth, Nat.max_le, ih, List.forall_mem_cons]

/-- The budget of a record leaves enough for its members. -/
theorem exists_budget_of_record {members : List (String × Json)} {budget : Nat}
    (h : (record members).depth ≤ budget) :
    ∃ rest, budget = rest + 1 ∧ ∀ member ∈ members, member.2.depth ≤ rest := by
  have hPositive : 0 < (record members).depth := Nat.succ_pos _
  obtain ⟨rest, rfl⟩ : ∃ rest, budget = rest + 1 := ⟨budget - 1, by omega⟩
  exact ⟨rest, rfl, depth_record_le.mp h⟩

theorem foldMembers_record {σ : Type} {names : List String} {read : σ → String → Json → Decoded σ}
    {members : List (String × Json)} (hKeys : ∀ member ∈ members, member.1 ∈ names)
    (hDistinct : (members.map Prod.fst).Nodup) {seen : List String}
    (hNew : ∀ member ∈ members, member.1 ∉ seen) (state : σ) :
    foldMembers names read seen state (members.map fun (key, value) => (some key, value)) =
      members.foldlM (fun state member => read state member.1 member.2) state := by
  induction members generalizing seen state with
  | nil => rfl
  | cons member rest ih =>
      obtain ⟨key, value⟩ := member
      rw [List.map_cons, List.nodup_cons] at hDistinct
      have hKey : key ∈ names := hKeys _ List.mem_cons_self
      have hFresh : key ∉ seen := hNew _ List.mem_cons_self
      have hRestKeys : ∀ member ∈ rest, member.1 ∈ names :=
        fun member hMember => hKeys member (List.mem_cons_of_mem _ hMember)
      have hRestNew : ∀ member ∈ rest, member.1 ∉ key :: seen := by
        intro member hMember hSeen
        rcases List.mem_cons.mp hSeen with hSame | hBefore
        · have hAmong : member.1 ∈ rest.map Prod.fst := List.mem_map_of_mem hMember
          rw [hSame] at hAmong
          exact hDistinct.1 hAmong
        · exact hNew member (List.mem_cons_of_mem _ hMember) hBefore
      rw [List.map_cons, foldMembers, if_pos hKey, if_neg hFresh, List.foldlM_cons]
      cases read state key value with
      | error refusal => rfl
      | ok next => exact ih hRestKeys hDistinct.2 hRestNew next

/-- Members that a structure takes up in order, from one state to another: their keys are among some
names, in the order of these. -/
structure TakesUp {σ : Type} (read : σ → String → Json → Decoded σ) (names : List String)
    (members : List (String × Json)) (start last : σ) : Prop where
  keys : (members.map Prod.fst).Sublist names
  reads : members.foldlM (fun state member => read state member.1 member.2) start = .ok last

section TakesUp

variable {σ β : Type} {read : σ → String → Json → Decoded σ} {start middle last : σ}

theorem TakesUp.member {key : String} {json : Json} (h : read start key json = .ok last) :
    TakesUp read [key] [(key, json)] start last where
  keys := List.Sublist.refl [key]
  reads := by
    rw [List.foldlM_cons, h]
    rfl

theorem TakesUp.append {front back : List String} {first second : List (String × Json)}
    (hFirst : TakesUp read front first start middle)
    (hSecond : TakesUp read back second middle last) :
    TakesUp read (front ++ back) (first ++ second) start last where
  keys := by
    rw [List.map_append]
    exact hFirst.keys.append hSecond.keys
  reads := by
    rw [List.foldlM_append, hFirst.reads]
    exact hSecond.reads

/-- A member that may be left out is taken up if it is there. -/
theorem TakesUp.optional {key : String} {encode : β → Json} {value : Option β}
    (hNone : value = none → last = start)
    (hSome : ∀ inside, value = some inside → read start key (encode inside) = .ok last) :
    TakesUp read [key] (Json.optional key (value.map encode)) start last := by
  cases value with
  | none =>
      obtain rfl := hNone rfl
      exact ⟨List.nil_sublist _, rfl⟩
  | some inside => exact .member (hSome inside rfl)

/-- A list that is left out where it is empty is taken up if it is there. -/
theorem TakesUp.unlessEmpty {key : String} {items : List Json}
    (hNone : items = [] → last = start)
    (hSome : items ≠ [] → read start key (.array items) = .ok last) :
    TakesUp read [key] (Json.unlessEmpty key items) start last := by
  cases items with
  | nil =>
      obtain rfl := hNone rfl
      exact ⟨List.nil_sublist _, rfl⟩
  | cons item rest => exact .member (hSome (List.cons_ne_nil item rest))

/-- A record is decoded by taking up its members. -/
theorem TakesUp.fields {names : List String} {members : List (String × Json)}
    (h : TakesUp read names members start last) (hNames : names.Nodup) (least : Nat) :
    (record members).fields names least start read = .ok last := by
  have hKeys : ∀ member ∈ members, member.1 ∈ names :=
    fun member hMember => h.keys.subset (List.mem_map_of_mem hMember)
  have hFold := @foldMembers_record σ names read members hKeys (hNames.sublist h.keys) []
    (fun _ _ => List.not_mem_nil) start
  exact hFold.trans h.reads

end TakesUp

theorem forall_mem_optional {β : Type} {key : String} {encode : β → Json} {value : Option β}
    {good : Json → Prop} (h : ∀ inside ∈ value, good (encode inside)) :
    ∀ member ∈ Json.optional key (value.map encode), good member.2 := by
  cases value with
  | none => simp [optional]
  | some inside => simpa [optional] using h inside rfl

theorem mem_unlessEmpty {key : String} {items : List Json} (h : items ≠ []) :
    (key, .array items) ∈ Json.unlessEmpty key items := by
  simp [unlessEmpty, h]

theorem forall_mem_unlessEmpty {key : String} {items : List Json} {good : Json → Prop}
    (h : good (.array items)) : ∀ member ∈ Json.unlessEmpty key items, good member.2 := by
  cases items with
  | nil => simp [unlessEmpty]
  | cons item rest => simpa [unlessEmpty] using h

/-- A record of one member is the alternative that its key names. -/
theorem variant_record {α : Type} {named : String → Option α}
    {carrying : String → Option (Json → Decoded α)} {kind : String} {payload : Json}
    {decode : Json → Decoded α} {value : α} (hNamed : named kind = none)
    (hCarrying : carrying kind = some decode) (hPayload : decode payload = .ok value) :
    (record [(kind, payload)]).variant named carrying = .ok value := by
  simp only [record, List.map_cons, List.map_nil, variant, hNamed, hCarrying, hPayload]
  rfl

/-! ## What decodes to what -/

/-- A plain document that a decoder turns into a value. -/
structure DecodesTo {α : Type} (decode : Decoder α) (json : Json) (value : α) : Prop where
  plain : json.Plain
  decoded : ∀ budget, json.depth ≤ budget → decode budget json = .ok value

/-- Plain documents that a decoder turns into values, one by one. -/
structure AllDecodeTo {α : Type} (decode : Decoder α) (items : List Json) (values : List α) :
    Prop where
  plain : PlainItems items
  decoded : ∀ budget, itemsDepth items ≤ budget → items.mapM (decode budget) = .ok values

section Laws

variable {α β : Type} {decode : Decoder α} {inner : Decoder β}

theorem AllDecodeTo.nil : AllDecodeTo decode [] [] := ⟨trivial, fun _ _ => rfl⟩

theorem AllDecodeTo.cons {item : Json} {items : List Json} {value : α} {values : List α}
    (hItem : DecodesTo decode item value) (hItems : AllDecodeTo decode items values) :
    AllDecodeTo decode (item :: items) (value :: values) where
  plain := ⟨hItem.plain, hItems.plain⟩
  decoded budget hBudget := by
    rw [itemsDepth] at hBudget
    have hHead := hItem.decoded budget (by omega)
    have hTail := hItems.decoded budget (by omega)
    rw [List.mapM_cons, hHead, hTail]
    rfl

theorem AllDecodeTo.map {encode : α → Json} {values : List α}
    (h : ∀ value ∈ values, DecodesTo decode (encode value) value) :
    AllDecodeTo decode (values.map encode) values := by
  induction values with
  | nil => exact .nil
  | cons value rest ih =>
      have hRest := ih fun other hOther => h other (List.mem_cons_of_mem value hOther)
      exact .cons (h value List.mem_cons_self) hRest

/-- A list is an array of its items. -/
theorem AllDecodeTo.array {items : List Json} {values : List α}
    (h : AllDecodeTo decode items values) (whole : Decoder (List α))
    (hWhole : ∀ budget,
      whole (budget + 1) (.array items) = Json.each (decode budget) (.array items)) :
    DecodesTo whole (.array items) values where
  plain := h.plain
  decoded budget hBudget := by
    rw [depth] at hBudget
    obtain ⟨rest, rfl⟩ : ∃ rest, budget = rest + 1 := ⟨budget - 1, by omega⟩
    rw [hWhole]
    exact h.decoded rest (by omega)

/-- A bare name is looked up with any budget. -/
theorem DecodesTo.bare (named : String → Option α) {name : String} {value : α}
    (hNamed : named name = some value)
    (hDecode : ∀ budget, decode budget (.string name) = (Json.string name).bare named) :
    DecodesTo decode (.string name) value where
  plain := trivial
  decoded budget _ := by
    rw [hDecode, Json.bare, hNamed]

/-- An alternative is a record of what it carries, under its name. -/
theorem DecodesTo.alternative {carrying : Nat → String → Option (Json → Decoded α)} {wrap : β → α}
    {kind : String} {payload : Json} {value : β} (h : DecodesTo inner payload value)
    (named : String → Option α) (hNamed : named kind = none)
    (hCarrying : ∀ budget, carrying budget kind = some fun json => wrap <$> inner budget json)
    (hDecode : ∀ budget json, decode (budget + 1) json = json.variant named (carrying budget)) :
    DecodesTo decode (record [(kind, payload)]) (wrap value) where
  plain := plain_record.mpr (by simpa using h.plain)
  decoded budget hBudget := by
    obtain ⟨rest, rfl, hMembers⟩ := exists_budget_of_record hBudget
    have hPayload := h.decoded rest (hMembers _ List.mem_cons_self)
    rw [hDecode]
    refine variant_record hNamed (hCarrying rest) ?_
    rw [hPayload]
    rfl

/-- An alternative among some that all carry something. -/
theorem DecodesTo.carried {carrying : Nat → String → Option (Json → Decoded α)} {wrap : β → α}
    {kind : String} {payload : Json} {value : β} (h : DecodesTo inner payload value)
    (hCarrying : ∀ budget, carrying budget kind = some fun json => wrap <$> inner budget json)
    (hDecode : ∀ budget json,
      decode (budget + 1) json = json.variant (fun _ => none) (carrying budget)) :
    DecodesTo decode (record [(kind, payload)]) (wrap value) :=
  h.alternative (fun _ => none) rfl hCarrying hDecode

/-- A structure is a record of its fields. -/
theorem DecodesTo.structure {members : List (String × Json)} {value : α}
    (hPlain : ∀ member ∈ members, member.2.Plain)
    (hDecoded : ∀ budget, (∀ member ∈ members, member.2.depth ≤ budget) →
      decode (budget + 1) (record members) = .ok value) :
    DecodesTo decode (record members) value where
  plain := plain_record.mpr hPlain
  decoded budget hBudget := by
    obtain ⟨rest, rfl, hMembers⟩ := exists_budget_of_record hBudget
    exact hDecoded rest hMembers

/-- A structure that is its last state is decoded by taking up its members. -/
theorem DecodesTo.taken {names : List String} {least : Nat} {start last : α}
    {read : Nat → α → String → Json → Decoded α} {members : List (String × Json)}
    (hDecode : ∀ budget json,
      decode (budget + 1) json = json.fields names least start (read budget))
    (hNames : names.Nodup) (hPlain : ∀ member ∈ members, member.2.Plain)
    (hTaken : ∀ budget, (∀ member ∈ members, member.2.depth ≤ budget) →
      TakesUp (read budget) names members start last) :
    DecodesTo decode (record members) last := by
  refine .structure hPlain fun budget hBudget => ?_
  rw [hDecode]
  exact (hTaken budget hBudget).fields hNames least

/-- A structure that is made of its last state is decoded by taking up its members. -/
theorem DecodesTo.built {σ : Type} (last : σ) {names : List String} {least : Nat} {start : σ}
    {read : Nat → σ → String → Json → Decoded σ} {build : σ → Decoded α} {value : α}
    {members : List (String × Json)}
    (hDecode : ∀ budget json,
      decode (budget + 1) json = json.fields names least start (read budget) >>= build)
    (hNames : names.Nodup) (hPlain : ∀ member ∈ members, member.2.Plain)
    (hTaken : ∀ budget, (∀ member ∈ members, member.2.depth ≤ budget) →
      TakesUp (read budget) names members start last)
    (hBuild : build last = .ok value) :
    DecodesTo decode (record members) value := by
  refine .structure hPlain fun budget hBudget => ?_
  rw [hDecode, (hTaken budget hBudget).fields hNames least]
  exact hBuild

/-! ## Texts -/

/-- A document that is nested no deeper than decoders go is read from both of its texts. -/
theorem DecodesTo.decodeText {json : Json} {value : α} (h : DecodesTo decode json value)
    (hDepth : json.depth ≤ maxDepth) :
    Json.decodeText decode json.compact = .ok value ∧
      Json.decodeText decode json.pretty = .ok value := by
  have hDecoded := h.decoded maxDepth hDepth
  constructor
  · simp only [Json.decodeText, read_compact h.plain, hDecoded]
    rfl
  · simp only [Json.decodeText, read_pretty h.plain, hDecoded]
    rfl

end Laws

end BoundQuery.Json
