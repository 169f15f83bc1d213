import BoundQuery.Proofs.HavingNumbers
import BoundQuery.Proofs.StyleFaults

/-!
# The names of a HAVING text

By name, plain values of a HAVING text go to the names in it that are not bound yet, each name once.
`unboundNames_eq` says which names these are, for any repetitions and any bindings: the new ones in
the order in which they first come. They are counted against the values before any is bound, and
then they cannot clash, so that `names_of_having` knows the outcome and the bindings after it.
-/

namespace BoundQuery.Snippet

/-- Repetitions can be erased after some elements are left out, or before. -/
theorem eraseDups_filter (p : String → Bool) (list : List String) :
    (list.filter p).eraseDups = list.eraseDups.filter p := by
  match list with
  | [] => rfl
  | name :: rest =>
      have hRest := eraseDups_filter p (rest.filter fun other => !other == name)
      rw [List.eraseDups_cons]
      cases hName : p name with
      | true =>
          rw [List.filter_cons_of_pos hName, List.filter_cons_of_pos hName, List.eraseDups_cons,
            ← hRest, List.filter_filter, List.filter_filter]
          simp only [Bool.and_comm]
      | false =>
          have hNone : ¬ p name = true := by simp [hName]
          -- What is left of the rest does not hold the name anyway.
          have hKept : (rest.filter fun other => !other == name).filter p = rest.filter p := by
            rw [List.filter_filter]
            refine List.filter_congr fun other _ => ?_
            by_cases hSame : other = name
            · rw [hSame, hName, Bool.false_and]
            · simp [hSame]
          rw [List.filter_cons_of_neg hNone, List.filter_cons_of_neg hNone, ← hRest, hKept]
termination_by list.length
decreasing_by exact Nat.lt_succ_of_le (List.length_filter_le _ rest)

/-- The names that take values are those not bound, in the order in which they first come. -/
theorem unboundNames_eq (dict : Dict Value) (list : List String) :
    unboundNames dict list = (list.filter (· ∉ dict.keys)).eraseDups := by
  induction list with
  | nil => rfl
  | cons name rest ih =>
      rw [unboundNames]
      by_cases hBound : name ∈ dict.keys
      · have hFound : dict.contains name = true := by
          rw [Dict.contains, Option.isSome_iff_ne_none, ne_eq, Dict.find?_eq_none_iff]
          exact not_not.mpr hBound
        rw [if_pos hFound, ih, List.filter_cons_of_neg (by simpa using hBound)]
      · have hFree : ¬ dict.contains name = true := by
          rw [Dict.contains, Dict.find?_eq_none_iff.mpr hBound]
          decide
        have hOther : (fun other => !other == name) = fun other => decide (other ≠ name) := by
          funext other
          by_cases hSame : other = name <;> simp [hSame]
        have hErased := eraseDups_filter (fun other => decide (other ≠ name))
          (rest.filter (· ∉ dict.keys))
        rw [if_neg hFree, ih, List.filter_cons_of_pos (by simpa using hBound),
          List.eraseDups_cons, hOther, hErased]

/-- Plain values are not a mapping. -/
theorem only?_values (values : List Value) : Argument.only? (values.map .value) = none := by
  rcases values with _ | ⟨value, _ | ⟨second, rest⟩⟩ <;> rfl

section Outcomes

variable {text : String} {values : List Value} (hValues : values ≠ []) (dict : Dict Value)
include hValues

/-- What becomes of a HAVING text with plain values: its new names are counted, then bound. -/
theorem finish_having_names :
    (writeHaving text (values.map .value)).finish (.named dict) =
      if (unboundNames dict (Placeholder.names text)).length = values.length then
        Bindings.binding dict (text, (unboundNames dict (Placeholder.names text)).zip values)
      else .error (.miscount text (unboundNames dict (Placeholder.names text)).length
        values.length) := by
  rw [Piece.finish_having_named, isEmpty_values hValues, if_neg (by decide)]
  simp only [askedHaving, only?_values, plainValues_map]
  split
  · rfl
  · rfl

/-- As many values as new names are bound, behind the bindings before. -/
theorem finish_having_of_count
    (hCount : (unboundNames dict (Placeholder.names text)).length = values.length) :
    ∃ last, (writeHaving text (values.map .value)).finish (.named dict) =
        .ok (text, .named last) ∧
      last.entries = dict.entries ++ (unboundNames dict (Placeholder.names text)).zip values := by
  obtain ⟨last, hBound, hEntries⟩ := bindEach_unboundNames dict (Placeholder.names text) hCount
  refine ⟨last, ?_, hEntries⟩
  rw [finish_having_names hValues, if_pos hCount, Bindings.binding, hBound]
  rfl

end Outcomes

/-- Names that are bound, or among the new ones, are all bound once the new ones have values. -/
theorem mem_keys_of_names {dict last : Dict Value} {list : List String} {values : List Value}
    (hCount : ((list.filter (· ∉ dict.keys)).eraseDups).length = values.length)
    (hEntries : last.entries =
      dict.entries ++ ((list.filter (· ∉ dict.keys)).eraseDups).zip values)
    {name : String} (hName : name ∈ list) : name ∈ last.keys := by
  have hKeys : last.keys = dict.keys ++ (list.filter (· ∉ dict.keys)).eraseDups := by
    rw [Dict.keys, hEntries, List.map_append, List.map_fst_zip (Nat.le_of_eq hCount)]
    rfl
  rw [hKeys, List.mem_append, List.mem_eraseDups, List.mem_filter]
  by_cases hBound : name ∈ dict.keys
  · exact .inl hBound
  · exact .inr ⟨hName, decide_eq_true hBound⟩

/-- A HAVING text with plain values, written over named bindings. It is refused, for its count and
for nothing else, when the names in it that are not bound are not as many as the values. Otherwise
the text is kept, the bindings before are kept in their place, and behind them come the new names in
the order in which they first stand in the text, with the values in their order; every name in the
text is then bound. -/
theorem names_of_having (text : String) (dict : Dict Value) (values : List Value)
    (hValues : values ≠ []) :
    let outcome := (writeHaving text (values.map .value)).finish (.named dict)
    let fresh := ((Placeholder.names text).filter (· ∉ dict.keys)).eraseDups
    ((∃ result, outcome = .ok result) ↔ fresh.length = values.length) ∧
    (∀ fault, outcome = .error fault ↔
      fresh.length ≠ values.length ∧ fault = .miscount text fresh.length values.length) ∧
    ∀ written after, outcome = .ok (written, after) →
      written = text ∧
      ∃ last, after = .named last ∧ last.entries = dict.entries ++ fresh.zip values ∧
        ∀ name ∈ Placeholder.names text, name ∈ last.keys := by
  intro outcome fresh
  have hFresh : unboundNames dict (Placeholder.names text) = fresh := unboundNames_eq dict _
  by_cases hCount : fresh.length = values.length
  · obtain ⟨last, hOutcome, hEntries⟩ := finish_having_of_count hValues dict (hFresh ▸ hCount)
    rw [hFresh] at hEntries
    refine ⟨iff_of_true ⟨_, hOutcome⟩ hCount, ?_, ?_⟩
    · intro fault
      refine iff_of_false (fun hError => ?_) fun hRefused => hRefused.1 hCount
      exact absurd (hOutcome.symm.trans hError) (by simp)
    · intro written after hOk
      obtain ⟨rfl, rfl⟩ := Prod.mk.inj (Except.ok.inj (hOutcome.symm.trans hOk))
      exact ⟨rfl, last, rfl, hEntries, fun name hName => mem_keys_of_names hCount hEntries hName⟩
  · have hOutcome : outcome = .error (.miscount text fresh.length values.length) := by
      have hFinish : outcome = _ := finish_having_names hValues dict
      rw [hFinish, hFresh, if_neg hCount]
    refine ⟨iff_of_false ?_ hCount, ?_, ?_⟩
    · rintro ⟨result, hOk⟩
      exact absurd (hOutcome.symm.trans hOk) (by simp)
    · intro fault
      rw [hOutcome, Except.error.injEq, eq_comm]
      exact ⟨fun hFault => ⟨hCount, hFault⟩, fun hRefused => hRefused.2⟩
    · intro written after hOk
      exact absurd (hOutcome.symm.trans hOk) (by simp)

/-- A bound name, a cast, a name in a literal, and two new names of which one comes again. -/
theorem names_of_having_with_cast :
    [Value.integer 3, .null] ≠ [] ∧
    ∃ last,
      (writeHaving "e.d = :dept AND MAX(e.c)::text <> ':no' AND :min < COUNT(e) AND :max > :min"
        ([.integer 3, .null].map .value)).finish
          (.named (Dict.empty.insert "dept" (.string "Eng"))) =
        .ok ("e.d = :dept AND MAX(e.c)::text <> ':no' AND :min < COUNT(e) AND :max > :min",
          .named last) ∧
      last.entries = [("dept", .string "Eng"), ("min", .integer 3), ("max", .null)] := by
  have hValues : [Value.integer 3, .null] ≠ [] := by decide
  have hFresh : ((Placeholder.names
      "e.d = :dept AND MAX(e.c)::text <> ':no' AND :min < COUNT(e) AND :max > :min").filter
        (· ∉ (Dict.empty.insert "dept" (Value.string "Eng")).keys)).eraseDups =
      ["min", "max"] := by decide +kernel
  obtain ⟨hGoes, -, hWritten⟩ := names_of_having
    "e.d = :dept AND MAX(e.c)::text <> ':no' AND :min < COUNT(e) AND :max > :min"
    (Dict.empty.insert "dept" (.string "Eng")) [.integer 3, .null] hValues
  rw [hFresh] at hGoes hWritten
  obtain ⟨⟨written, after⟩, hOk⟩ := hGoes.mpr rfl
  obtain ⟨rfl, last, rfl, hEntries, -⟩ := hWritten written after hOk
  exact ⟨hValues, last, hOk, hEntries⟩

end BoundQuery.Snippet
