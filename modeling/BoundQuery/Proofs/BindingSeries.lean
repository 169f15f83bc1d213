import BoundQuery.Proofs.Bindings
import BoundQuery.Proofs.Draft.Step

/-!
# A series of calls on a dictionary of bindings

A name is bound on its own or as one of the entries of a mapping; a mapping is its entries in order,
so a series of calls is a series of bindings (`run_eq_bindAll`). On an empty dictionary it goes
through exactly when no name gets two values that disagree. It then leaves the names in the order in
which they were first bound, each with its first value that is not null (`entries_bindEach`).
Otherwise the first binding that disagrees with an earlier one stops it (`bindAll_eq_some_iff`).
None of this looks at the order in which different names come, hence `outcome_of_calls`: a series in
another order goes through when the first one does, and binds the same names to equal values.
-/

namespace BoundQuery

namespace Value

/-- The first value that is not null, or null where there is none. -/
def firstPresent (values : List Value) : Value :=
  (values.find? fun value => !value.isNull).getD .null

/-- What a name settles to is its first value that is not null. -/
theorem settled_eq_firstPresent {values : List Value} (h : values ≠ []) :
    settled values = some (firstPresent values) := by
  unfold firstPresent
  cases hFind : values.find? fun value => !value.isNull with
  | some kept => simp [settled, hFind]
  | none =>
      refine settled_of_all_null h fun value hValue => ?_
      have hNull := List.find?_eq_none.mp hFind value hValue
      simpa using hNull

/-- A first value that is not null is one of the values. -/
theorem mem_firstPresent {values : List Value} (h : (firstPresent values).isNull = false) :
    firstPresent values ∈ values := by
  unfold firstPresent at h ⊢
  cases hFind : values.find? fun value => !value.isNull with
  | some kept => exact List.mem_of_find?_eq_some hFind
  | none =>
      rw [hFind] at h
      exact absurd h (by decide)

/-- Of compatible values, the first that is not null equals each other one that is not. -/
theorem firstPresent_equals_of_mem {values : List Value} (hCompatible : Compatible values)
    {value : Value} (hValue : value ∈ values) (hPresent : value.isNull = false) :
    (firstPresent values == value) = true := by
  obtain ⟨kept, hKept, hEqual⟩ := settled_of_mem hCompatible hValue hPresent
  rw [settled_eq_firstPresent (List.ne_nil_of_mem hValue)] at hKept
  obtain rfl := Option.some.inj hKept
  exact hEqual

/-- Compatible values have equal first values in whatever order they come. -/
theorem firstPresent_equals_of_perm {values others : List Value} (hCompatible : Compatible values)
    (hPerm : values.Perm others) : (firstPresent values == firstPresent others) = true := by
  have hOthers : Compatible others := fun a ha b hb =>
    hCompatible a (hPerm.symm.subset ha) b (hPerm.symm.subset hb)
  cases hNull : (firstPresent values).isNull with
  | false =>
      have hIn : firstPresent values ∈ others := hPerm.subset (mem_firstPresent hNull)
      exact equals_symm (firstPresent_equals_of_mem hOthers hIn hNull)
  | true =>
      cases hOther : (firstPresent others).isNull with
      | false =>
          have hIn : firstPresent others ∈ values := hPerm.symm.subset (mem_firstPresent hOther)
          exact firstPresent_equals_of_mem hCompatible hIn hOther
      | true =>
          rw [eq_null_of_isNull hNull, eq_null_of_isNull hOther]
          exact equals_refl _

end Value

namespace Dict

open Value (Agree Compatible settled firstPresent)

/-! ## Calls -/

/-- A call on a dictionary of bindings: one name is bound, or all entries of a mapping are. -/
inductive Call where
  | bind (name : String) (value : Value)
  | merge (more : Dict Value)

namespace Call

/-- The bindings that a call makes, in order. -/
def pairs : Call → List (String × Value)
  | .bind name value => [(name, value)]
  | .merge more => more.entries

/-- The dictionary after a call, and the fault that stopped the call, if one did. -/
def apply (dict : Dict Value) : Call → Dict Value × Option Fault
  | .bind name value =>
      match dict.bind name value with
      | .ok after => (after, none)
      | .error fault => (dict, some fault)
  | .merge more => dict.bindAll more.entries

/-- The dictionary after a series of calls, up to the first fault. -/
def run (dict : Dict Value) : List Call → Dict Value × Option Fault
  | [] => (dict, none)
  | call :: rest =>
      match call.apply dict with
      | (after, none) => run after rest
      | (after, some fault) => (after, some fault)

end Call

theorem bindAll_append (dict : Dict Value) (front back : List (String × Value)) :
    dict.bindAll (front ++ back) =
      match dict.bindAll front with
      | (after, none) => after.bindAll back
      | (after, some fault) => (after, some fault) := by
  induction front generalizing dict with
  | nil => rfl
  | cons pair rest ih =>
      obtain ⟨name, value⟩ := pair
      simp only [List.cons_append, bindAll]
      cases dict.bind name value with
      | error fault => rfl
      | ok middle => exact ih middle

theorem Call.apply_eq_bindAll (dict : Dict Value) (call : Call) :
    call.apply dict = dict.bindAll call.pairs := by
  cases call with
  | bind name value =>
      cases hBind : dict.bind name value with
      | error fault => simp only [apply, pairs, bindAll, hBind]
      | ok after => simp only [apply, pairs, bindAll, hBind]
  | merge more => rfl

/-- A series of calls is the series of their bindings. -/
theorem Call.run_eq_bindAll (dict : Dict Value) (calls : List Call) :
    run dict calls = dict.bindAll (calls.flatMap pairs) := by
  induction calls generalizing dict with
  | nil => rfl
  | cons call rest ih =>
      rw [run, List.flatMap_cons, bindAll_append, call.apply_eq_bindAll]
      rcases dict.bindAll call.pairs with ⟨after, _ | fault⟩
      · exact ih after
      · rfl

/-! ## What a series leaves -/

theorem bindAll_eq_none_iff {dict after : Dict Value} {pairs : List (String × Value)} :
    dict.bindAll pairs = (after, none) ↔ dict.bindEach pairs = .ok after := by
  unfold bindEach
  rcases dict.bindAll pairs with ⟨other, _ | fault⟩ <;> simp

theorem bindAll_snd_eq_none_iff {dict : Dict Value} {pairs : List (String × Value)} :
    (dict.bindAll pairs).2 = none ↔ ∃ after, dict.bindEach pairs = .ok after := by
  unfold bindEach
  rcases dict.bindAll pairs with ⟨other, _ | fault⟩ <;> simp

theorem keys_bind {dict after : Dict Value} {name : String} {value : Value}
    (h : dict.bind name value = .ok after) :
    after.keys = if name ∈ dict.keys then dict.keys else dict.keys ++ [name] := by
  unfold bind at h
  split at h
  · rw [← Except.ok.inj h, keys_insert]
  · next existing hFind =>
      have hIn : name ∈ dict.keys := mem_keys_of_find? hFind
      rw [if_pos hIn]
      split at h
      · rw [← Except.ok.inj h]
      · split at h
        · rw [← Except.ok.inj h, keys_insert, if_pos hIn]
        · exact absurd h (by simp)

/-- A series of bindings puts its new names behind the old ones, in the order in which they first
come. -/
theorem keys_bindEach {dict after : Dict Value} {pairs : List (String × Value)}
    (h : dict.bindEach pairs = .ok after) :
    after.keys =
      dict.keys ++ ((pairs.map Prod.fst).filter fun name => name ∉ dict.keys).eraseDups := by
  induction pairs generalizing dict with
  | nil =>
      rw [← Except.ok.inj h]
      simp
  | cons pair rest ih =>
      obtain ⟨name, value⟩ := pair
      rw [bindEach_cons] at h
      obtain ⟨middle, hBind, hRest⟩ := bind_eq_ok.mp h
      have hKeys := keys_bind hBind
      rw [ih hRest]
      by_cases hIn : name ∈ dict.keys
      · rw [if_pos hIn] at hKeys
        simp [hKeys, hIn]
      · rw [if_neg hIn] at hKeys
        simp only [List.map_cons, hKeys, List.filter_cons, hIn, not_false_eq_true,
          decide_true, if_true, List.eraseDups_cons, List.append_assoc,
          List.singleton_append, List.filter_filter]
        congr 3
        refine List.filter_congr fun other _ => ?_
        by_cases hOther : other = name <;> simp [hOther]

/-- The names of some pairs in the order in which they first come, each with its first value that is
not null, or with null where it has none. -/
def settledEntries (pairs : List (String × Value)) : List (String × Value) :=
  (pairs.map Prod.fst).eraseDups.map fun name => (name, firstPresent (valuesUnder name pairs))

theorem under_empty (pairs : List (String × Value)) (key : String) :
    empty.under pairs key = valuesUnder key pairs := rfl

theorem mem_valuesUnder {key : String} {pairs : List (String × Value)} {value : Value} :
    value ∈ valuesUnder key pairs ↔ (key, value) ∈ pairs := by
  simp [valuesUnder]

theorem valuesUnder_ne_nil {key : String} {pairs : List (String × Value)} :
    valuesUnder key pairs ≠ [] ↔ key ∈ pairs.map Prod.fst := by
  rw [← List.isEmpty_eq_false_iff, List.isEmpty_eq_false_iff_exists_mem]
  simp [mem_valuesUnder]

theorem keys_bindEach_empty {after : Dict Value} {pairs : List (String × Value)}
    (h : empty.bindEach pairs = .ok after) : after.keys = (pairs.map Prod.fst).eraseDups := by
  have hKeys := keys_bindEach h
  have hNew : ∀ name ∈ pairs.map Prod.fst, decide (name ∉ (empty : Dict Value).keys) = true :=
    fun name _ => decide_eq_true List.not_mem_nil
  rw [List.filter_eq_self.mpr hNew] at hKeys
  exact hKeys

theorem find?_bindEach_empty {after : Dict Value} {pairs : List (String × Value)} {name : String}
    (h : empty.bindEach pairs = .ok after) (hName : name ∈ pairs.map Prod.fst) :
    after.find? name = some (firstPresent (valuesUnder name pairs)) := by
  rw [find?_bindEach h, under_empty]
  exact Value.settled_eq_firstPresent (valuesUnder_ne_nil.mpr hName)

/-- Bindings from scratch leave the names in the order in which they first came, each with its first
value that is not null. -/
theorem entries_bindEach {after : Dict Value} {pairs : List (String × Value)}
    (h : empty.bindEach pairs = .ok after) : after.entries = settledEntries pairs := by
  have hKeys := keys_bindEach_empty h
  have hFind : ∀ key ∈ after.keys,
      after.find? key = some (firstPresent (valuesUnder key pairs)) := by
    intro key hKey
    rw [hKeys, List.mem_eraseDups] at hKey
    exact find?_bindEach_empty h hKey
  rw [entries_eq_map_keys hFind, hKeys, settledEntries]

/-! ## Where a series is stopped -/

/-- A value, not null, that differs from one, not null, that came under the same name before. -/
def Clashes (before : List (String × Value)) (pair : String × Value) : Prop :=
  pair.2.isNull = false ∧
    ∃ earlier ∈ valuesUnder pair.1 before, earlier.isNull = false ∧ (earlier == pair.2) = false

/-- The first of some pairs that clashes with those before it. -/
structure FirstClash (pairs front : List (String × Value)) (pair : String × Value) : Prop where
  comes : front ++ [pair] <+: pairs
  clashes : Clashes front pair
  first : ∀ before other, before ++ [other] <+: front → ¬ Clashes before other

theorem bind_eq_error_iff {dict : Dict Value} {name : String} {value : Value} {fault : Fault} :
    dict.bind name value = .error fault ↔
      ∃ existing, dict.find? name = some existing ∧ existing.isNull = false ∧
        value.isNull = false ∧ (existing == value) = false ∧
        fault = .conflict name existing value := by
  constructor
  · intro h
    unfold bind at h
    split at h
    · exact absurd h (by simp)
    · next existing hFind =>
        split at h
        · exact absurd h (by simp)
        · next hKeep =>
            split at h
            · exact absurd h (by simp)
            · next hPresent =>
                simp only [Bool.or_eq_true, not_or, Bool.not_eq_true] at hKeep
                exact ⟨existing, hFind, by simpa using hPresent, hKeep.1, hKeep.2,
                  (Except.error.inj h).symm⟩
  · rintro ⟨existing, hFind, hExisting, hValue, hDiffer, rfl⟩
    simp [bind, hFind, hExisting, hValue, hDiffer]

/-- Pairs that are compatible under each name do not clash. -/
theorem not_clashes_of_compatible {pairs before : List (String × Value)} {pair : String × Value}
    (hCompatible : ∀ name, Compatible (valuesUnder name pairs))
    (hComes : before ++ [pair] <+: pairs) : ¬ Clashes before pair := by
  rintro ⟨hPresent, earlier, hEarlier, hEarlierPresent, hDiffer⟩
  have hIn : ∀ value, (pair.1, value) ∈ before ++ [pair] →
      value ∈ valuesUnder pair.1 pairs :=
    fun value hValue => mem_valuesUnder.mpr (hComes.subset hValue)
  have hAgree := hCompatible pair.1 earlier
    (hIn earlier (List.mem_append_left _ (mem_valuesUnder.mp hEarlier))) pair.2
    (hIn pair.2 (List.mem_append_right _ (List.mem_singleton_self _)))
  have hEqual := Value.equals_of_agree hAgree hEarlierPresent hPresent
  rw [hDiffer] at hEqual
  exact absurd hEqual (by decide)

theorem compatible_of_bindEach {after : Dict Value} {pairs : List (String × Value)}
    (h : empty.bindEach pairs = .ok after) (name : String) :
    Compatible (valuesUnder name pairs) := by
  rw [← under_empty]
  exact (bindEach_isOk_iff empty pairs).mp ⟨after, h⟩ name

/-- A series that is stopped goes through up to one binding, which fails. -/
theorem exists_stop_of_bindAll {dict after : Dict Value} {pairs : List (String × Value)}
    {fault : Fault} (h : dict.bindAll pairs = (after, some fault)) :
    ∃ front name value, front ++ [(name, value)] <+: pairs ∧ dict.bindAll front = (after, none) ∧
      after.bind name value = .error fault := by
  induction pairs generalizing dict with
  | nil => exact absurd h (by simp [bindAll])
  | cons pair rest ih =>
      obtain ⟨name, value⟩ := pair
      rw [bindAll] at h
      split at h
      · next middle hBind =>
          obtain ⟨front, later, other, hComes, hFront, hStop⟩ := ih h
          refine ⟨(name, value) :: front, later, other, ?_, ?_, hStop⟩
          · exact (List.prefix_cons_inj _).mpr hComes
          · rw [bindAll, hBind]
            exact hFront
      · next other hBind =>
          simp only [Prod.mk.injEq, Option.some.injEq] at h
          obtain ⟨rfl, rfl⟩ := h
          exact ⟨[], name, value, (List.prefix_cons_inj _).mpr (List.nil_prefix), rfl, hBind⟩

/-- What a clash meets: the first value that is not null under its name, which differs from it. -/
theorem find?_of_clashes {after : Dict Value} {front : List (String × Value)}
    {pair : String × Value} (hFront : empty.bindEach front = .ok after)
    (hClashes : Clashes front pair) :
    after.find? pair.1 = some (firstPresent (valuesUnder pair.1 front)) ∧
      (firstPresent (valuesUnder pair.1 front)).isNull = false ∧
      (firstPresent (valuesUnder pair.1 front) == pair.2) = false := by
  obtain ⟨hPresent, earlier, hEarlier, hEarlierPresent, hDiffer⟩ := hClashes
  have hName : pair.1 ∈ front.map Prod.fst := valuesUnder_ne_nil.mp (List.ne_nil_of_mem hEarlier)
  have hFind := find?_bindEach_empty hFront hName
  have hEqual := Value.firstPresent_equals_of_mem (compatible_of_bindEach hFront pair.1) hEarlier
    hEarlierPresent
  refine ⟨hFind, (Value.isNull_of_equals hEqual).trans hEarlierPresent, ?_⟩
  -- Were the kept value equal to the new one, the earlier one would be too.
  rw [Bool.eq_false_iff]
  intro hSame
  have hBoth := Value.equals_trans (Value.equals_symm hEqual) hSame
  exact absurd (hBoth.symm.trans hDiffer) (by decide)

/-- Bindings from scratch are stopped by the first one that clashes with those before it; what these
have bound stays. -/
theorem bindAll_eq_some_iff {after : Dict Value} {pairs : List (String × Value)} {fault : Fault} :
    empty.bindAll pairs = (after, some fault) ↔
      ∃ front name value, FirstClash pairs front (name, value) ∧
        empty.bindAll front = (after, none) ∧
        fault = .conflict name (firstPresent (valuesUnder name front)) value := by
  constructor
  · intro h
    obtain ⟨front, name, value, hComes, hFront, hStop⟩ := exists_stop_of_bindAll h
    obtain ⟨existing, hFind, hExisting, hValue, hDiffer, rfl⟩ := bind_eq_error_iff.mp hStop
    have hBound := bindAll_eq_none_iff.mp hFront
    have hSettled := find?_bindEach hBound name
    rw [hFind, under_empty] at hSettled
    have hNonempty : valuesUnder name front ≠ [] := by
      intro hNil
      rw [hNil] at hSettled
      exact absurd hSettled (by simp [settled])
    rw [Value.settled_eq_firstPresent hNonempty] at hSettled
    obtain rfl := Option.some.inj hSettled
    have hFirst : firstPresent (valuesUnder name front) ∈ valuesUnder name front :=
      Value.mem_firstPresent hExisting
    refine ⟨front, name, value, ⟨hComes, ⟨hValue, _, hFirst, hExisting, hDiffer⟩, ?_⟩, hFront, rfl⟩
    intro before other hEarlier
    exact not_clashes_of_compatible (compatible_of_bindEach hBound) hEarlier
  · rintro ⟨front, name, value, ⟨⟨back, hPairs⟩, hClashes, -⟩, hFront, rfl⟩
    obtain ⟨hFind, hExisting, hDiffer⟩ := find?_of_clashes (bindAll_eq_none_iff.mp hFront) hClashes
    have hStop := bind_eq_error_iff.mpr ⟨_, hFind, hExisting, hClashes.1, hDiffer, rfl⟩
    rw [← hPairs, List.append_assoc, bindAll_append, hFront]
    show after.bindAll ((name, value) :: back) = _
    rw [bindAll, hStop]

/-! ## Other orders -/

theorem valuesUnder_perm {pairs others : List (String × Value)} (h : pairs.Perm others)
    (name : String) : (valuesUnder name pairs).Perm (valuesUnder name others) :=
  h.filterMap _

/-- Pairs in another order go through when the first ones do. -/
theorem bindEach_isOk_of_perm {pairs others : List (String × Value)} (hPerm : pairs.Perm others)
    (h : ∃ after, empty.bindEach pairs = .ok after) :
    ∃ after, empty.bindEach others = .ok after := by
  obtain ⟨after, hAfter⟩ := h
  rw [bindEach_isOk_iff]
  intro name
  rw [under_empty]
  have hValues := (valuesUnder_perm hPerm name).symm
  intro a ha b hb
  exact compatible_of_bindEach hAfter name a (hValues.subset ha) b (hValues.subset hb)

/-- Pairs in another order bind the same names to equal values. -/
theorem equal_of_perm {pairs others : List (String × Value)} {after other : Dict Value}
    (hPerm : pairs.Perm others) (hAfter : empty.bindEach pairs = .ok after)
    (hOther : empty.bindEach others = .ok other) :
    after.keys.Perm other.keys ∧ ∀ name value, after.find? name = some value →
      ∃ same, other.find? name = some same ∧ (value == same) = true := by
  have hNames : ∀ name, name ∈ after.keys ↔ name ∈ other.keys := by
    intro name
    rw [keys_bindEach_empty hAfter, keys_bindEach_empty hOther, List.mem_eraseDups,
      List.mem_eraseDups]
    exact (hPerm.map Prod.fst).mem_iff
  refine ⟨(List.perm_ext_iff_of_nodup after.keys_nodup other.keys_nodup).mpr hNames, ?_⟩
  intro name value hFind
  have hIn : name ∈ pairs.map Prod.fst := by
    have hKey := mem_keys_of_find? hFind
    rwa [keys_bindEach_empty hAfter, List.mem_eraseDups] at hKey
  have hInOther : name ∈ others.map Prod.fst := (hPerm.map Prod.fst).mem_iff.mp hIn
  have hHeld := find?_bindEach_empty hAfter hIn
  obtain rfl := Option.some.inj (hFind.symm.trans hHeld)
  refine ⟨_, find?_bindEach_empty hOther hInOther, ?_⟩
  exact Value.firstPresent_equals_of_perm (compatible_of_bindEach hAfter name)
    (valuesUnder_perm hPerm name)

/-! ## Series of calls -/

/-- A series of calls on an empty dictionary goes through exactly when the values of each name that
are not null are equal to each other, and then leaves the settled entries. Otherwise the first
binding that clashes stops it, with the name and the two values, and leaves what the bindings before
it have bound. Calls that make the same bindings in another order go through when these do, and then
bind the same names to equal values. -/
theorem outcome_of_calls (calls : List Call) :
    ((Call.run empty calls).2 = none ↔
      ∀ name, Compatible (valuesUnder name (calls.flatMap Call.pairs))) ∧
    (∀ after, Call.run empty calls = (after, none) →
      after.entries = settledEntries (calls.flatMap Call.pairs)) ∧
    (∀ after fault, Call.run empty calls = (after, some fault) ↔
      ∃ front name value, FirstClash (calls.flatMap Call.pairs) front (name, value) ∧
        empty.bindAll front = (after, none) ∧
        fault = .conflict name (firstPresent (valuesUnder name front)) value) ∧
    ∀ others : List Call, (calls.flatMap Call.pairs).Perm (others.flatMap Call.pairs) →
      ((Call.run empty calls).2 = none ↔ (Call.run empty others).2 = none) ∧
      ∀ after other, Call.run empty calls = (after, none) →
        Call.run empty others = (other, none) →
        after.keys.Perm other.keys ∧ ∀ name value, after.find? name = some value →
          ∃ same, other.find? name = some same ∧ (value == same) = true := by
  simp only [Call.run_eq_bindAll]
  refine ⟨?_, ?_, fun after fault => bindAll_eq_some_iff, ?_⟩
  · rw [bindAll_snd_eq_none_iff]
    exact bindEach_isOk_iff empty _
  · intro after h
    exact entries_bindEach (bindAll_eq_none_iff.mp h)
  · intro others hPerm
    refine ⟨?_, ?_⟩
    · rw [bindAll_snd_eq_none_iff, bindAll_snd_eq_none_iff]
      exact ⟨bindEach_isOk_of_perm hPerm, bindEach_isOk_of_perm hPerm.symm⟩
    · intro after other hAfter hOther
      exact equal_of_perm hPerm (bindAll_eq_none_iff.mp hAfter) (bindAll_eq_none_iff.mp hOther)

end Dict

end BoundQuery
