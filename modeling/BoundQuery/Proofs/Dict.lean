import BoundQuery.Dict

/-!
# Names and entries of a dictionary

A dictionary is its names in order, each with the value that is found under it
(`entries_eq_map_keys`). A name that is not there goes to the end, whatever is there. So the entries
of a dictionary, written one after the other to an empty one, give the dictionary back.
-/

namespace BoundQuery.Dict

variable {α : Type}

theorem get?_eq_none_iff {key : String} {pairs : List (String × α)} :
    get? key pairs = none ↔ key ∉ pairs.map Prod.fst := by
  induction pairs with
  | nil => simp [get?]
  | cons pair rest ih =>
      obtain ⟨name, value⟩ := pair
      by_cases hName : name = key
      · simp [get?, hName]
      · have hKey : key ≠ name := fun h => hName h.symm
        simp [get?, hName, hKey, ih]

theorem find?_eq_none_iff {dict : Dict α} {key : String} :
    dict.find? key = none ↔ key ∉ dict.keys :=
  get?_eq_none_iff

theorem mem_keys_of_find? {dict : Dict α} {key : String} {value : α}
    (hFind : dict.find? key = some value) : key ∈ dict.keys := by
  by_cases hKey : key ∈ dict.keys
  · exact hKey
  · exact absurd (hFind.symm.trans (find?_eq_none_iff.mpr hKey)) (by simp)

theorem get?_of_mem {pairs : List (String × α)} (hNodup : (pairs.map Prod.fst).Nodup)
    {pair : String × α} (hPair : pair ∈ pairs) : get? pair.1 pairs = some pair.2 := by
  induction pairs with
  | nil => exact absurd hPair List.not_mem_nil
  | cons first rest ih =>
      rw [List.map_cons, List.nodup_cons] at hNodup
      obtain ⟨hNew, hRest⟩ := hNodup
      rcases List.mem_cons.mp hPair with rfl | hLater
      · simp [get?]
      · have hName : first.1 ≠ pair.1 := fun hSame => hNew (hSame ▸ List.mem_map_of_mem hLater)
        rw [get?, if_neg hName]
        exact ih hRest hLater

/-- A dictionary is its names in order, each with the value that is found under it. -/
theorem entries_eq_map_keys {dict : Dict α} {held : String → α}
    (h : ∀ key ∈ dict.keys, dict.find? key = some (held key)) :
    dict.entries = dict.keys.map fun key => (key, held key) := by
  have hEach : ∀ pair ∈ dict.entries, pair = (pair.1, held pair.1) := by
    intro pair hPair
    have hFound := get?_of_mem dict.keys_nodup hPair
    have hHeld := h pair.1 (List.mem_map_of_mem hPair)
    rw [find?, hFound] at hHeld
    rw [← Option.some.inj hHeld]
  rw [keys, List.map_map]
  calc dict.entries
      = dict.entries.map id := (List.map_id _).symm
    _ = dict.entries.map ((fun key => (key, held key)) ∘ Prod.fst) := List.map_congr_left hEach

theorem put_of_not_mem {key : String} {value : α} {pairs : List (String × α)}
    (h : key ∉ pairs.map Prod.fst) : put key value pairs = pairs ++ [(key, value)] := by
  induction pairs with
  | nil => rfl
  | cons pair rest ih =>
      obtain ⟨name, held⟩ := pair
      simp only [List.map_cons, List.mem_cons, not_or] at h
      have hName : name ≠ key := fun hEq => h.1 hEq.symm
      rw [put, if_neg hName, ih h.2, List.cons_append]

theorem entries_insert_of_not_mem {dict : Dict α} {key : String} {value : α}
    (h : key ∉ dict.keys) : (dict.insert key value).entries = dict.entries ++ [(key, value)] :=
  put_of_not_mem h

theorem ext_entries {first second : Dict α} (h : first.entries = second.entries) :
    first = second := by
  obtain ⟨entries, hNodup⟩ := first
  obtain rfl : entries = second.entries := h
  rfl

/-- Of distinct names that are all new, the others are still new once the first is written. -/
theorem new_insert {dict : Dict α} {pair : String × α} {rest : List (String × α)}
    (hNew : ∀ other ∈ pair :: rest, other.1 ∉ dict.keys) (hNotMem : pair.1 ∉ rest.map Prod.fst) :
    ∀ other ∈ rest, other.1 ∉ (dict.insert pair.1 pair.2).keys := by
  intro other hOther hIn
  rw [keys_insert, if_neg (hNew pair (by simp)), List.mem_append, List.mem_singleton] at hIn
  rcases hIn with hOld | hSame
  · exact hNew other (by simp [hOther]) hOld
  · exact hNotMem (hSame ▸ List.mem_map_of_mem hOther)

/-- Names that are all new go to the end in their order. -/
theorem entries_foldl_insert {dict : Dict α} {pairs : List (String × α)}
    (hNew : ∀ pair ∈ pairs, pair.1 ∉ dict.keys) (hNodup : (pairs.map Prod.fst).Nodup) :
    (pairs.foldl (fun dict pair => dict.insert pair.1 pair.2) dict).entries =
      dict.entries ++ pairs := by
  induction pairs generalizing dict with
  | nil => simp
  | cons pair rest ih =>
      have hHead := hNew pair (by simp)
      simp only [List.map_cons, List.nodup_cons] at hNodup
      obtain ⟨hNotMem, hRest⟩ := hNodup
      rw [List.foldl_cons, ih (new_insert hNew hNotMem) hRest, entries_insert_of_not_mem hHead,
        List.append_assoc,
        List.singleton_append]

/-- A dictionary is what its entries give when they are written in order. -/
theorem ofList_entries (dict : Dict α) : ofList dict.entries = dict := by
  have hNew : ∀ pair ∈ dict.entries, pair.1 ∉ (empty : Dict α).keys :=
    fun pair hPair => List.not_mem_nil
  have hEntries := entries_foldl_insert hNew dict.keys_nodup
  exact ext_entries hEntries

end BoundQuery.Dict
