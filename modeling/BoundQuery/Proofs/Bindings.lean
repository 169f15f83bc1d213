import BoundQuery.Bindings
import BoundQuery.Proofs.Dict
import BoundQuery.Proofs.Value

/-!
# Binding names one after the other

What a dictionary holds after a series of bindings can be read off the values that came under each
name, those held before included. The first value that is not null stays (`find?_bindEach`), and the
series goes through exactly when no two values under one name disagree (`bindEach_isOk_iff`).
-/

namespace BoundQuery

namespace Value

/-- Whether a name can take both values: one of them is null, or they are equal. -/
def Agree (a b : Value) : Prop := a.isNull = true ∨ b.isNull = true ∨ (a == b) = true

/-- What a name holds after values came under it: the first one that is not null, or else null. -/
def settled (values : List Value) : Option Value :=
  (values.find? fun value => !value.isNull).or values.head?

/-- Whether all values can come under one name. -/
def Compatible (values : List Value) : Prop := ∀ a ∈ values, ∀ b ∈ values, Agree a b

/-- What a name that holds a value holds after another one. -/
def held (existing incoming : Value) : Value := if existing.isNull then incoming else existing

/-- A name keeps its value when null comes under it or an equal value. -/
theorem held_of_keep {existing incoming : Value}
    (h : (incoming.isNull || existing == incoming) = true) : held existing incoming = existing := by
  unfold held
  cases hNull : existing.isNull with
  | false => rfl
  | true =>
      rw [if_pos rfl]
      have hIncoming : incoming.isNull = true := by
        rcases Bool.or_eq_true_iff.mp h with hIncoming | hEqual
        · exact hIncoming
        · exact (isNull_of_equals hEqual).symm.trans hNull
      rw [eq_null_of_isNull hNull, eq_null_of_isNull hIncoming]

theorem settled_held (existing incoming : Value) (later : List Value) :
    settled (held existing incoming :: later) = settled (existing :: incoming :: later) := by
  cases hExisting : existing.isNull with
  | false => simp [settled, held, hExisting]
  | true =>
      have hNull := eq_null_of_isNull hExisting
      subst hNull
      cases hIncoming : incoming.isNull with
      | false => simp [settled, held, hExisting, hIncoming]
      | true =>
          have hNull := eq_null_of_isNull hIncoming
          subst hNull
          simp [settled, held, hExisting]

theorem agree_of_equals {a b c : Value} (hEqual : (a == b) = true) (hAgree : Agree a c) :
    Agree b c := by
  rcases hAgree with hNull | hNull | hBoth
  · exact .inl ((isNull_of_equals hEqual).symm.trans hNull)
  · exact .inr (.inl hNull)
  · exact .inr (.inr (equals_trans (equals_symm hEqual) hBoth))

theorem agree_refl (a : Value) : Agree a a := .inr (.inr (equals_refl a))

theorem agree_symm {a b : Value} (h : Agree a b) : Agree b a := by
  rcases h with hNull | hNull | hEqual
  · exact .inr (.inl hNull)
  · exact .inl hNull
  · exact .inr (.inr (equals_symm hEqual))

theorem equals_of_agree {a b : Value} (h : Agree a b) (hFirst : a.isNull = false)
    (hSecond : b.isNull = false) : (a == b) = true := by
  rcases h with hNull | hNull | hEqual
  · exact absurd (hNull.symm.trans hFirst) (by decide)
  · exact absurd (hNull.symm.trans hSecond) (by decide)
  · exact hEqual

theorem compatible_cons (first : Value) (later : List Value) :
    Compatible (first :: later) ↔ (∀ value ∈ later, Agree first value) ∧ Compatible later := by
  constructor
  · intro hAll
    exact ⟨fun value hValue => hAll first (by simp) value (by simp [hValue]),
      fun a ha b hb => hAll a (by simp [ha]) b (by simp [hb])⟩
  · rintro ⟨hFirst, hLater⟩ a ha b hb
    rcases List.mem_cons.mp ha with rfl | hLaterA
    · rcases List.mem_cons.mp hb with rfl | hLaterB
      · exact agree_refl _
      · exact hFirst b hLaterB
    · rcases List.mem_cons.mp hb with rfl | hLaterB
      · exact agree_symm (hFirst a hLaterA)
      · exact hLater a hLaterA b hLaterB

theorem compatible_held (existing incoming : Value) (later : List Value) :
    Compatible (existing :: incoming :: later) ↔
      Agree existing incoming ∧ Compatible (held existing incoming :: later) := by
  simp only [compatible_cons, List.mem_cons, forall_eq_or_imp]
  constructor
  · rintro ⟨⟨hAgree, hExisting⟩, hIncoming, hLater⟩
    refine ⟨hAgree, ?_, hLater⟩
    unfold held
    split
    · exact hIncoming
    · exact hExisting
  · rintro ⟨hAgree, hHeld, hLater⟩
    unfold held at hHeld
    cases hNull : existing.isNull with
    | true =>
        rw [if_pos hNull] at hHeld
        exact ⟨⟨hAgree, fun value _ => .inl hNull⟩, hHeld, hLater⟩
    | false =>
        rw [if_neg (by simp [hNull])] at hHeld
        refine ⟨⟨hAgree, hHeld⟩, fun value hValue => ?_, hLater⟩
        -- The value held is not null, so the incoming one is null or equal to it.
        rcases hAgree with hExisting | hIncoming | hEqual
        · exact absurd hExisting (by simp [hNull])
        · exact .inl hIncoming
        · exact agree_of_equals hEqual (hHeld value hValue)

theorem compatible_singleton (value : Value) : Compatible [value] := by
  simp [Compatible, agree_refl]

/-- Compatible values settle to one that equals each of them that is not null. -/
theorem settled_of_mem {values : List Value} (hCompatible : Compatible values) {value : Value}
    (hValue : value ∈ values) (hPresent : value.isNull = false) :
    ∃ kept, settled values = some kept ∧ (kept == value) = true := by
  have hFound : (values.find? fun value => !value.isNull).isSome := by
    rw [List.find?_isSome]
    exact ⟨value, hValue, by simp [hPresent]⟩
  obtain ⟨kept, hKept⟩ := Option.isSome_iff_exists.mp hFound
  have hNotNull : kept.isNull = false := by simpa using List.find?_some hKept
  have hMem := List.mem_of_find?_eq_some hKept
  refine ⟨kept, by rw [settled, hKept, Option.some_or], ?_⟩
  exact equals_of_agree (hCompatible kept hMem value hValue) hNotNull hPresent

/-- Values of which none is left over settle to null when they are all null. -/
theorem settled_of_all_null {values : List Value} (hNonempty : values ≠ [])
    (hNull : ∀ value ∈ values, value.isNull = true) : settled values = some .null := by
  cases values with
  | nil => exact absurd rfl hNonempty
  | cons first later =>
      have hNone : (first :: later).find? (fun value => !value.isNull) = none := by
        rw [List.find?_eq_none]
        intro value hValue
        simp [hNull value hValue]
      rw [settled, hNone, Option.none_or, List.head?_cons,
        eq_null_of_isNull (hNull first (by simp))]

/-- Compatible values settle to one that equals a given one of them, unless that one is null and
others are not. -/
theorem settled_equals_iff {values : List Value} (hCompatible : Compatible values) {value : Value}
    (hValue : value ∈ values) :
    ∃ kept, settled values = some kept ∧ ((kept == value) = true ↔
      (value.isNull = true → ∀ other ∈ values, other.isNull = true)) := by
  cases hNull : value.isNull with
  | false =>
      obtain ⟨kept, hKept, hEqual⟩ := settled_of_mem hCompatible hValue hNull
      exact ⟨kept, hKept, by simp [hEqual]⟩
  | true =>
      have hIs := eq_null_of_isNull hNull
      subst hIs
      by_cases hAll : ∀ other ∈ values, other.isNull = true
      · have hKept := settled_of_all_null (List.ne_nil_of_mem hValue) hAll
        exact ⟨.null, hKept, iff_of_true (equals_refl _) fun _ => hAll⟩
      · -- Another value that is not null is kept, and it differs from null.
        have hOther : ∃ other ∈ values, other.isNull = false := by simpa using hAll
        obtain ⟨other, hMem, hPresent⟩ := hOther
        obtain ⟨kept, hKept, hEqual⟩ := settled_of_mem hCompatible hMem hPresent
        refine ⟨kept, hKept, iff_of_false (fun hNone => ?_) fun h => hAll (h rfl)⟩
        have hKeptNull : kept.isNull = true := isNull_of_equals hNone
        rw [isNull_of_equals hEqual, hPresent] at hKeptNull
        exact absurd hKeptNull (by decide)

end Value

namespace Dict

open Value (Agree settled Compatible held held_of_keep)

/-! ## One binding -/

theorem bind_isOk_iff (dict : Dict Value) (name : String) (value : Value) :
    (∃ after, dict.bind name value = .ok after) ↔
      ∀ existing, dict.find? name = some existing → Agree existing value := by
  unfold bind
  cases hFind : dict.find? name with
  | none => simp
  | some existing =>
      simp only [Option.some.injEq, forall_eq', Agree]
      by_cases hKeep : (value.isNull || existing == value) = true
      · rw [if_pos hKeep]
        rw [Bool.or_eq_true] at hKeep
        exact ⟨fun _ => .inr hKeep, fun _ => ⟨dict, rfl⟩⟩
      · rw [if_neg hKeep]
        rw [Bool.or_eq_true] at hKeep
        cases hNull : existing.isNull with
        | true => simp
        | false => simp [hKeep]

theorem find?_bind {dict after : Dict Value} {name : String} {value : Value}
    (h : dict.bind name value = .ok after) (key : String) :
    after.find? key = if name = key then some (((dict.find? name).map (held · value)).getD value)
      else dict.find? key := by
  unfold bind at h
  cases hFind : dict.find? name with
  | none =>
      rw [hFind] at h
      rw [← Except.ok.inj h, find?_insert]
      rfl
  | some existing =>
      rw [hFind] at h
      have hHeld : after.find? key = if name = key then some (held existing value)
          else dict.find? key := by
        by_cases hKeep : (value.isNull || existing == value) = true
        · simp only [if_pos hKeep] at h
          rw [← Except.ok.inj h]
          split
          · next hName =>
              subst hName
              rw [hFind, held_of_keep hKeep]
          · rfl
        · simp only [if_neg hKeep] at h
          split at h
          · next hNull =>
              rw [← Except.ok.inj h, find?_insert, held, if_pos hNull]
          · exact absurd h (by simp)
      exact hHeld

/-- A binding fails only by a conflict of two values of a name. -/
theorem conflict_of_bind {dict : Dict Value} {name : String} {value : Value} {fault : Fault}
    (h : dict.bind name value = .error fault) :
    ∃ name existing incoming, fault = .conflict name existing incoming := by
  unfold bind at h
  split at h
  · exact absurd h (by simp)
  · next existing _ =>
      split at h
      · exact absurd h (by simp)
      · split at h
        · exact absurd h (by simp)
        · exact ⟨name, existing, value, (Except.error.inj h).symm⟩

/-! ## A series of bindings -/

/-- Binds names to values one after the other; a conflict stops it. -/
def bindEach (dict : Dict Value) (pairs : List (String × Value)) : Except Fault (Dict Value) :=
  match dict.bindAll pairs with
  | (after, none) => .ok after
  | (_, some fault) => .error fault

@[simp] theorem bindEach_nil (dict : Dict Value) : dict.bindEach [] = .ok dict := rfl

theorem bindEach_cons (dict : Dict Value) (name : String) (value : Value)
    (rest : List (String × Value)) :
    dict.bindEach ((name, value) :: rest) =
      (dict.bind name value >>= fun middle => middle.bindEach rest) := by
  unfold bindEach
  rw [bindAll]
  cases dict.bind name value <;> rfl

theorem bindEach_append (dict : Dict Value) (front back : List (String × Value)) :
    dict.bindEach (front ++ back) =
      (dict.bindEach front >>= fun middle => middle.bindEach back) := by
  induction front generalizing dict with
  | nil => rfl
  | cons pair rest ih =>
      obtain ⟨name, value⟩ := pair
      rw [List.cons_append, bindEach_cons, bindEach_cons]
      cases dict.bind name value with
      | error fault => rfl
      | ok middle => exact ih middle

/-- The values of the pairs with a name. -/
def valuesUnder (key : String) (pairs : List (String × Value)) : List Value :=
  pairs.filterMap fun pair => if pair.1 = key then some pair.2 else none

/-- The values that come under a name in a series, the one held before included. -/
def under (dict : Dict Value) (pairs : List (String × Value)) (key : String) : List Value :=
  (dict.find? key).toList ++ valuesUnder key pairs

/-- After one binding, the values under a name are settled and compatible as before. -/
theorem under_bind {dict middle : Dict Value} {name : String} {value : Value}
    (h : dict.bind name value = .ok middle) (rest : List (String × Value)) (key : String) :
    settled (middle.under rest key) = settled (dict.under ((name, value) :: rest) key) ∧
      (Compatible (middle.under rest key) ↔
        Compatible (dict.under ((name, value) :: rest) key)) := by
  have hFind := find?_bind h key
  unfold under valuesUnder
  rw [hFind]
  by_cases hName : name = key
  · subst hName
    simp only [if_pos]
    cases hHeld : dict.find? name with
    | none => simp
    | some existing =>
        have hAgree := (bind_isOk_iff dict name value).mp ⟨middle, h⟩ existing hHeld
        simp only [Option.map_some, Option.getD_some, Option.toList_some, List.singleton_append,
          List.filterMap_cons, if_pos]
        refine ⟨Value.settled_held existing value _, ?_⟩
        rw [Value.compatible_held existing value]
        exact (and_iff_right hAgree).symm
  · simp [hName]

/-- After a series of bindings, a name holds what its values settle to. -/
theorem find?_bindEach {dict after : Dict Value} {pairs : List (String × Value)}
    (h : dict.bindEach pairs = .ok after) (key : String) :
    after.find? key = settled (dict.under pairs key) := by
  induction pairs generalizing dict with
  | nil =>
      rw [← Except.ok.inj h]
      cases hFind : dict.find? key with
      | none => simp [under, valuesUnder, settled, hFind]
      | some existing =>
          cases hNull : existing.isNull <;> simp [under, valuesUnder, settled, hFind, hNull]
  | cons pair rest ih =>
      obtain ⟨name, value⟩ := pair
      rw [bindEach_cons] at h
      cases hBind : dict.bind name value with
      | error fault => simp [hBind, Except.bind, Bind.bind] at h
      | ok middle =>
          rw [hBind] at h
          rw [ih h, (under_bind hBind rest key).1]

/-- A series of bindings goes through when the values under each name are compatible. -/
theorem bindEach_isOk_iff (dict : Dict Value) (pairs : List (String × Value)) :
    (∃ after, dict.bindEach pairs = .ok after) ↔
      ∀ key, Compatible (dict.under pairs key) := by
  induction pairs generalizing dict with
  | nil =>
      refine ⟨fun _ key => ?_, fun _ => ⟨dict, rfl⟩⟩
      cases hFind : dict.find? key with
      | none => simp [under, valuesUnder, hFind, Compatible]
      | some existing =>
          simpa [under, valuesUnder, hFind] using Value.compatible_singleton existing
  | cons pair rest ih =>
      obtain ⟨name, value⟩ := pair
      rw [bindEach_cons]
      cases hBind : dict.bind name value with
      | error fault =>
          simp only [Bind.bind, Except.bind, reduceCtorEq, exists_false, false_iff]
          intro hAll
          have hOk : ∃ after, dict.bind name value = .ok after := by
            refine (bind_isOk_iff dict name value).mpr fun existing hFind => ?_
            have hName := hAll name
            simp only [under, valuesUnder, hFind, Option.toList_some, List.singleton_append,
              List.filterMap_cons, if_pos] at hName
            exact ((Value.compatible_held existing value _).mp hName).1
          obtain ⟨after, hAfter⟩ := hOk
          rw [hBind] at hAfter
          exact absurd hAfter (by simp)
      | ok middle =>
          refine (ih middle).trans ?_
          exact forall_congr' fun key => (under_bind hBind rest key).2

/-- Only a conflict stops a series of bindings. -/
theorem conflict_of_bindEach {dict : Dict Value} {pairs : List (String × Value)} {fault : Fault}
    (h : dict.bindEach pairs = .error fault) :
    ∃ name existing incoming, fault = .conflict name existing incoming := by
  induction pairs generalizing dict with
  | nil => exact absurd h (by simp)
  | cons pair rest ih =>
      obtain ⟨name, value⟩ := pair
      rw [bindEach_cons] at h
      cases hBind : dict.bind name value with
      | error other =>
          simp only [hBind, Bind.bind, Except.bind, Except.error.injEq] at h
          exact h ▸ conflict_of_bind hBind
      | ok middle =>
          rw [hBind] at h
          exact ih h

theorem code_of_bindEach {dict : Dict Value} {pairs : List (String × Value)} {fault : Fault}
    (h : dict.bindEach pairs = .error fault) : fault.code = .conflict := by
  obtain ⟨name, existing, incoming, rfl⟩ := conflict_of_bindEach h
  rfl

/-- Binding names that are all new writes them one after the other. -/
theorem bindEach_new {dict : Dict Value} {pairs : List (String × Value)}
    (hNew : ∀ pair ∈ pairs, pair.1 ∉ dict.keys) (hNodup : (pairs.map Prod.fst).Nodup) :
    dict.bindEach pairs =
      .ok (pairs.foldl (fun dict pair => dict.insert pair.1 pair.2) dict) := by
  induction pairs generalizing dict with
  | nil => rfl
  | cons pair rest ih =>
      obtain ⟨name, value⟩ := pair
      have hHead := hNew (name, value) (by simp)
      simp only [List.map_cons, List.nodup_cons] at hNodup
      obtain ⟨hNotMem, hRest⟩ := hNodup
      have hBind : dict.bind name value = .ok (dict.insert name value) := by
        rw [bind, find?_eq_none_iff.mpr hHead]
      rw [bindEach_cons, hBind]
      exact ih (new_insert hNew hNotMem) hRest

/-- Binding the entries of a dictionary from scratch gives the dictionary. -/
theorem bindEach_entries (dict : Dict Value) : empty.bindEach dict.entries = .ok dict := by
  have hNew : ∀ pair ∈ dict.entries, pair.1 ∉ (empty : Dict Value).keys :=
    fun pair hPair => List.not_mem_nil
  have hBound := bindEach_new hNew dict.keys_nodup
  rw [hBound]
  exact congrArg Except.ok dict.ofList_entries

theorem bindAll_entries (dict : Dict Value) : empty.bindAll dict.entries = (dict, none) := by
  have hBound := bindEach_entries dict
  unfold bindEach at hBound
  split at hBound
  · next after hAll =>
      obtain rfl := Except.ok.inj hBound
      exact hAll
  · exact absurd hBound (by simp)

end Dict

end BoundQuery
