import Mathlib.Data.List.Induction
import BoundQuery.Entity
import BoundQuery.Proofs.Dict
import BoundQuery.Proofs.Draft.Step

/-!
# Rows of an aggregate's result

An aggregate asks for its fields and then for one expression per output name, and a row of the
result is read back in that order: `Aggregate.projected` lists the columns, each with its name and
what is asked for. Names may repeat, among the fields and between fields and outputs; an output name
that is given twice is one column. `result_of_row` says which rows are read and what is found under
each name.
-/

namespace BoundQuery

/-! ## Pairs with repeated names -/

namespace Dict

variable {α : Type}

/-- Pairs leave their names in the order in which they first come. -/
theorem keys_ofList (pairs : List (String × α)) :
    (ofList pairs).keys = (pairs.map Prod.fst).eraseDups := by
  induction pairs using List.reverseRecOn with
  | nil => rfl
  | append_singleton pairs pair ih =>
      have hLast : ofList (pairs ++ [pair]) = (ofList pairs).insert pair.1 pair.2 := by
        rw [ofList, List.foldl_append]
        rfl
      rw [hLast, keys_insert, ih, List.map_append, List.eraseDups_append]
      by_cases hIn : pair.1 ∈ pairs.map Prod.fst
      · rw [if_pos (List.mem_eraseDups.mpr hIn)]
        simp [List.removeAll, hIn]
      · rw [if_neg (mt List.mem_eraseDups.mp hIn)]
        simp [List.removeAll, hIn, List.eraseDups_cons]

theorem find?_foldl_insert_of_not_mem {dict : Dict α} {pairs : List (String × α)} {key : String}
    (h : key ∉ pairs.map Prod.fst) :
    (pairs.foldl (fun dict pair => dict.insert pair.1 pair.2) dict).find? key = dict.find? key := by
  induction pairs generalizing dict with
  | nil => rfl
  | cons pair rest ih =>
      rw [List.map_cons, List.mem_cons, not_or] at h
      rw [List.foldl_cons, ih h.2, find?_insert, if_neg fun hSame => h.1 hSame.symm]

/-- A name that comes among pairs comes for a last time. -/
theorem exists_last {pairs : List (String × α)} {key : String} (h : key ∈ pairs.map Prod.fst) :
    ∃ front value back, pairs = front ++ (key, value) :: back ∧ key ∉ back.map Prod.fst := by
  induction pairs with
  | nil => exact absurd h List.not_mem_nil
  | cons pair rest ih =>
      by_cases hLater : key ∈ rest.map Prod.fst
      · obtain ⟨front, value, back, rfl, hLast⟩ := ih hLater
        exact ⟨pair :: front, value, back, rfl, hLast⟩
      · rw [List.map_cons, List.mem_cons, or_iff_left hLater] at h
        subst h
        exact ⟨[], pair.2, rest, rfl, hLater⟩

/-- Under a name the value is found that came with it last. -/
theorem find?_ofList_eq_some_iff {pairs : List (String × α)} {key : String} {value : α} :
    (ofList pairs).find? key = some value ↔
      ∃ front back, pairs = front ++ (key, value) :: back ∧ key ∉ back.map Prod.fst := by
  have hSplit : ∀ front value back, pairs = front ++ (key, value) :: back →
      key ∉ back.map Prod.fst → (ofList pairs).find? key = some value := by
    rintro front value back rfl hLast
    rw [ofList, List.foldl_append, List.foldl_cons, find?_foldl_insert_of_not_mem hLast,
      find?_insert, if_pos rfl]
  constructor
  · intro hFind
    have hKey := mem_keys_of_find? hFind
    rw [keys_ofList, List.mem_eraseDups] at hKey
    obtain ⟨front, last, back, hPairs, hLast⟩ := exists_last hKey
    rw [hSplit front last back hPairs hLast, Option.some.injEq] at hFind
    exact ⟨front, back, hFind ▸ hPairs, hLast⟩
  · rintro ⟨front, back, hPairs, hLast⟩
    exact hSplit front value back hPairs hLast

/-- Pairs are all kept, each as an entry of its own, when their names are distinct. -/
theorem entries_ofList_iff {pairs : List (String × α)} :
    (ofList pairs).entries = pairs ↔ (pairs.map Prod.fst).Nodup := by
  constructor
  · intro hEntries
    rw [← hEntries]
    exact (ofList pairs).keys_nodup
  · intro hNodup
    have hNew : ∀ pair ∈ pairs, pair.1 ∉ (empty : Dict α).keys := fun _ _ => List.not_mem_nil
    exact entries_foldl_insert hNew hNodup

end Dict

/-! ## Columns -/

namespace Aggregate

/-- An aggregate with more expressions, given one after the other. -/
def withOutputs (aggregate : Aggregate) (outputs : List (String × String)) : Aggregate :=
  outputs.foldl (fun aggregate output => aggregate.withOutput output.1 output.2) aggregate

/-- The columns that an aggregate asks for: each has a name, and a field or an expression. -/
def projected (aggregate : Aggregate) : List (String × String) :=
  aggregate.fields.toList.map (fun field => (field.text, field.text)) ++ aggregate.outputs.entries

theorem names_projected (aggregate : Aggregate) :
    aggregate.projected.map Prod.fst = aggregate.columns := by
  rw [projected, columns, List.map_append, List.map_map]
  rfl

theorem length_projected (aggregate : Aggregate) :
    aggregate.projected.length = aggregate.width := by
  rw [projected, width, List.length_append, List.length_map]
  rfl

theorem columnsText_eq (scope : Scope) (aggregate : Aggregate) :
    aggregate.columnsText scope = scope.qualifyAll (aggregate.projected.map Prod.snd) := by
  rw [columnsText, projected, List.map_append, List.map_map]
  rfl

theorem fields_withOutputs (aggregate : Aggregate) (outputs : List (String × String)) :
    (aggregate.withOutputs outputs).fields = aggregate.fields := by
  induction outputs generalizing aggregate with
  | nil => rfl
  | cons output rest ih => exact ih (aggregate.withOutput output.1 output.2)

theorem outputs_withOutputs (aggregate : Aggregate) (outputs : List (String × String)) :
    (aggregate.withOutputs outputs).outputs =
      outputs.foldl (fun dict pair => dict.insert pair.1 pair.2) aggregate.outputs := by
  induction outputs generalizing aggregate with
  | nil => rfl
  | cons output rest ih => exact ih (aggregate.withOutput output.1 output.2)

/-- The output names in the order in which they were first given. -/
theorem keys_withOutputs (aggregate : Aggregate) (outputs : List (String × String)) :
    (aggregate.withOutputs outputs).outputs.keys =
      (aggregate.outputs.keys ++ outputs.map Prod.fst).eraseDups := by
  have hOutputs : (aggregate.withOutputs outputs).outputs =
      Dict.ofList (aggregate.outputs.entries ++ outputs) := by
    rw [outputs_withOutputs, Dict.ofList, List.foldl_append]
    exact congrArg (outputs.foldl _) (Dict.ofList_entries aggregate.outputs).symm
  rw [hOutputs, Dict.keys_ofList, List.map_append]
  rfl

/-! ## Reading a row -/

/-- A column is the last one of its name. -/
def LastColumn (names : List String) (key : String) (index : Nat) : Prop :=
  names[index]? = some key ∧ ∀ later, index < later → names[later]? ≠ some key

/-- The last column of a name is where the name is split off from the names behind it. -/
theorem exists_lastColumn_iff {α : Type} {names : List String} {row : List α} {key : String}
    {value : α} (hLength : row.length = names.length) :
    (∃ index : Nat, LastColumn names key index ∧ row[index]? = some value) ↔
      ∃ front back, names.zip row = front ++ (key, value) :: back ∧ key ∉ back.map Prod.fst := by
  have hNames : (names.zip row).map Prod.fst = names := List.map_fst_zip (by omega)
  have hAt : ∀ index : Nat, (names.zip row)[index]? = some (key, value) ↔
      names[index]? = some key ∧ row[index]? = some value := by
    intro index
    rw [List.getElem?_zip_eq_some]
  constructor
  · rintro ⟨index, ⟨hName, hLater⟩, hValue⟩
    obtain ⟨hIndex, hPair⟩ := List.getElem?_eq_some_iff.mp ((hAt index).mpr ⟨hName, hValue⟩)
    refine ⟨(names.zip row).take index, (names.zip row).drop (index + 1), ?_, fun hMem => ?_⟩
    · rw [← hPair, List.getElem_cons_drop, List.take_append_drop]
    · rw [List.map_drop, hNames] at hMem
      obtain ⟨offset, hOffset⟩ := List.mem_iff_getElem?.mp hMem
      rw [List.getElem?_drop] at hOffset
      exact hLater _ (by omega) hOffset
  · rintro ⟨front, back, hZip, hLast⟩
    have hHere : (names.zip row)[front.length]? = some (key, value) := by
      rw [hZip]
      simp
    obtain ⟨hName, hValue⟩ := (hAt front.length).mp hHere
    refine ⟨front.length, ⟨hName, fun later hLater hSame => hLast ?_⟩, hValue⟩
    obtain ⟨offset, rfl⟩ := Nat.exists_eq_add_of_lt hLater
    have hIndex : front.length + offset + 1 - (front.map Prod.fst).length = offset + 1 := by
      rw [List.length_map]
      omega
    rw [← hNames, hZip, List.map_append, List.map_cons, List.getElem?_append_right (by simp; omega),
      hIndex, List.getElem?_cons_succ] at hSame
    exact List.mem_of_getElem? hSame

/-- A row is read when it has as many values as the aggregate asks for columns: its fields, and then
its output names without repetitions. Each name then stands where it first comes, with the value of
its last column; so all values are kept, each under a name of its own, just when the names of the
columns are distinct. -/
theorem result_of_row (aggregate : Aggregate) (outputs : List (String × String)) (scope : Scope)
    (row : List Value) :
    let summary := aggregate.withOutputs outputs
    let names := summary.projected.map Prod.fst
    names = aggregate.fields.toList.map (·.text) ++
      (aggregate.outputs.keys ++ outputs.map Prod.fst).eraseDups ∧
    summary.columnsText scope = scope.qualifyAll (summary.projected.map Prod.snd) ∧
    ((∃ result, summary.result row = .ok result) ↔ row.length = names.length) ∧
    (∀ fault, summary.result row = .error fault ↔
      row.length ≠ names.length ∧ fault = .rowShape names.length row.length) ∧
    ∀ result, summary.result row = .ok result →
      result.keys = names.eraseDups ∧
      (∀ key value, result.find? key = some value ↔
        ∃ index : Nat, LastColumn names key index ∧ row[index]? = some value) ∧
      (result.entries = names.zip row ↔ names.Nodup) := by
  intro summary names
  have hNames : names = summary.columns := summary.names_projected
  have hWidth : summary.width = names.length := by
    rw [← summary.length_projected, List.length_map]
  have hResult : summary.result row = if row.length = names.length then
      .ok (Dict.ofList (names.zip row)) else .error (.rowShape names.length row.length) := by
    rw [result, hWidth, hNames]
  refine ⟨?_, summary.columnsText_eq scope, ?_, ?_, ?_⟩
  · rw [hNames, columns, aggregate.fields_withOutputs, aggregate.keys_withOutputs]
  · rw [hResult]
    split
    · next hLength => exact iff_of_true ⟨_, rfl⟩ hLength
    · next hLength => exact iff_of_false (by simp) hLength
  · intro fault
    rw [hResult]
    split
    · next hLength => exact iff_of_false (by simp) fun hOther => hOther.1 hLength
    · next hLength =>
        rw [Except.error.injEq, eq_comm]
        exact ⟨fun hFault => ⟨hLength, hFault⟩, fun hOther => hOther.2⟩
  · intro result hOk
    rw [hResult] at hOk
    split at hOk
    · next hLength =>
        obtain rfl := Except.ok.inj hOk
        have hZip : (names.zip row).map Prod.fst = names := List.map_fst_zip (by omega)
        refine ⟨?_, fun key value => ?_, ?_⟩
        · rw [Dict.keys_ofList, hZip]
        · rw [exists_lastColumn_iff hLength, Dict.find?_ofList_eq_some_iff]
        · rw [Dict.entries_ofList_iff, hZip]
    · exact absurd hOk (by simp)

/-- The column of the department. -/
def departmentColumn : Field := ⟨"dept", by decide +kernel, by decide⟩

/-- A field that comes twice and is an output name too: four columns with two names, of which each
has the value of its last column. -/
theorem result_of_row_repeated :
    ∃ result,
      ((ofFields ⟨departmentColumn, [departmentColumn]⟩).withOutputs
        [("count", "COUNT(e)"), ("dept", "MAX(e.dept)"), ("count", "COUNT(e.id)")]).result
          [.string "A", .string "B", .integer 4, .string "C"] = .ok result ∧
      result.keys = ["dept", "dept", "count", "dept"].eraseDups ∧
      result.find? "dept" = some (.string "C") := by
  obtain ⟨hNames, -, hOk, -, hRead⟩ := result_of_row
    (ofFields ⟨departmentColumn, [departmentColumn]⟩)
    [("count", "COUNT(e)"), ("dept", "MAX(e.dept)"), ("count", "COUNT(e.id)")] .standard
    [.string "A", .string "B", .integer 4, .string "C"]
  have hColumns : ["dept", "dept"] ++ ["count", "dept", "count"].eraseDups =
      ["dept", "dept", "count", "dept"] := by decide
  replace hNames := hNames.trans hColumns
  rw [hNames] at hOk hRead
  obtain ⟨result, hResult⟩ := hOk.mpr rfl
  obtain ⟨hKeys, hFind, -⟩ := hRead result hResult
  refine ⟨result, hResult, hKeys, (hFind "dept" (.string "C")).mpr ⟨3, ⟨rfl, ?_⟩, rfl⟩⟩
  intro later hLater
  rw [List.getElem?_eq_none (show 4 ≤ later from hLater)]
  exact fun hNone => absurd hNone (by simp)

end Aggregate

end BoundQuery
