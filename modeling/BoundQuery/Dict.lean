/-!
# Dictionaries in insertion order

A `Dict` pairs distinct names with values and remembers the order in which the names came. Writing
to a name that is there keeps its place and exchanges its value; a new name goes to the end.
`keys_insert` and `find?_insert` say so.
-/

namespace BoundQuery

/-- Writes `value` under `key` in a list of pairs: in place if the key is there, else at the end. -/
def Dict.put {α : Type} (key : String) (value : α) : List (String × α) → List (String × α)
  | [] => [(key, value)]
  | (k, v) :: rest => if k = key then (k, value) :: rest else (k, v) :: put key value rest

/-- The value under a key in a list of pairs. -/
def Dict.get? {α : Type} (key : String) : List (String × α) → Option α
  | [] => none
  | (k, v) :: rest => if k = key then some v else get? key rest

theorem Dict.keys_put {α : Type} (key : String) (value : α) (pairs : List (String × α)) :
    (put key value pairs).map Prod.fst =
      if key ∈ pairs.map Prod.fst then pairs.map Prod.fst else pairs.map Prod.fst ++ [key] := by
  induction pairs with
  | nil => simp [put]
  | cons pair rest ih =>
      obtain ⟨k, v⟩ := pair
      by_cases h : k = key
      · simp [put, h]
      · have h' : ¬ key = k := fun e => h e.symm
        by_cases hin : key ∈ rest.map Prod.fst
        · simp only [put, if_neg h, List.map_cons, ih, List.mem_cons, h', hin,
            or_true, if_true]
        · simp only [put, if_neg h, List.map_cons, ih, List.mem_cons, h', hin,
            or_false, if_false, List.cons_append]

theorem Dict.nodup_put {α : Type} (key : String) (value : α) {pairs : List (String × α)}
    (h : (pairs.map Prod.fst).Nodup) : ((put key value pairs).map Prod.fst).Nodup := by
  rw [keys_put]
  split
  · exact h
  · next hnot =>
      rw [List.nodup_append]
      exact ⟨h, by simp, fun a ha b hb => by simp at hb; exact fun e => hnot (hb ▸ e ▸ ha)⟩

theorem Dict.get?_put {α : Type} (key other : String) (value : α) (pairs : List (String × α)) :
    get? other (put key value pairs) = if key = other then some value else get? other pairs := by
  induction pairs with
  | nil => simp [put, get?]
  | cons pair rest ih =>
      obtain ⟨k, v⟩ := pair
      by_cases h : k = key
      · subst h
        by_cases ho : k = other <;> simp [put, get?, ho]
      · by_cases ho : k = other
        · subst ho
          have hk : ¬ key = k := fun e => h e.symm
          simp [put, get?, h, hk]
        · simp [put, get?, h, ho, ih]

/-- Distinct names, each with a value, in the order in which the names were first written. -/
structure Dict (α : Type) where
  entries : List (String × α)
  keys_nodup : (entries.map Prod.fst).Nodup

namespace Dict

variable {α : Type}

def empty : Dict α := ⟨[], by simp⟩

def keys (dict : Dict α) : List String := dict.entries.map Prod.fst

def values (dict : Dict α) : List α := dict.entries.map Prod.snd

def size (dict : Dict α) : Nat := dict.entries.length

def find? (dict : Dict α) (key : String) : Option α := get? key dict.entries

def contains (dict : Dict α) (key : String) : Bool := (dict.find? key).isSome

/-- Writes a value under a key. -/
def insert (dict : Dict α) (key : String) (value : α) : Dict α :=
  ⟨put key value dict.entries, nodup_put key value dict.keys_nodup⟩

/-- The dictionary that results from writing pairs one after the other. -/
def ofList (pairs : List (String × α)) : Dict α :=
  pairs.foldl (fun dict pair => dict.insert pair.1 pair.2) empty

@[simp] theorem keys_empty : (empty : Dict α).keys = [] := rfl

@[simp] theorem keys_insert (dict : Dict α) (key : String) (value : α) :
    (dict.insert key value).keys = if key ∈ dict.keys then dict.keys else dict.keys ++ [key] :=
  keys_put key value dict.entries

@[simp] theorem find?_empty (key : String) : (empty : Dict α).find? key = none := rfl

@[simp] theorem find?_insert (dict : Dict α) (key other : String) (value : α) :
    (dict.insert key value).find? other = if key = other then some value else dict.find? other :=
  get?_put key other value dict.entries

end Dict

end BoundQuery
