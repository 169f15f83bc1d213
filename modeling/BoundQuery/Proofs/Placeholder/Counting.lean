import Mathlib.Data.List.Basic
import BoundQuery.Proofs.Placeholder.Exchange

/-!
# Numbers that follow the values

`Follows low numbers high` says that placeholders, read from left to right, use the values after the
first `low` one by one up to `high`, and refer back to earlier ones as they like. Such numberings
compose, and a numbering of this kind is a `Numbering`: all numbers are in range, no value after the
first `low` is missed, and the values are first used in their order. `Counted` is the same of a
text, together with what it takes to write it next to other texts.
-/

namespace BoundQuery.Placeholder

/-- Numbers that count values upwards from the one after `low` to `high`: each is the next one, as a
placeholder carries it, or one of those before. -/
inductive Follows : Nat → List (Option Nat) → Nat → Prop
  | nil (low : Nat) : Follows low [] low
  | next {low number high : Nat} {rest : List (Option Nat)}
      (hNumber : number = low + 1 ∨ number = carried (low + 1))
      (hRest : Follows (low + 1) rest high) : Follows low (some number :: rest) high
  | back {low number high : Nat} {rest : List (Option Nat)} (hPositive : 1 ≤ number)
      (hBound : number ≤ low) (hRest : Follows low rest high) :
      Follows low (some number :: rest) high

/-- What the numbers of a query promise when `low` of its `high` values were given beforehand. -/
structure Numbering (low high : Nat) (numbers : List (Option Nat)) : Prop where
  /-- Every placeholder carries a number, and it is that of a value. -/
  inRange : ∀ carries ∈ numbers, ∃ number, carries = some number ∧ 1 ≤ number ∧ number ≤ high
  /-- No value is missed, as far as numbers go. -/
  complete : ∀ index, low < index → index ≤ high → index ≤ largestNumber → some index ∈ numbers
  /-- Values are first used in their order. -/
  inOrder : ∀ first second, low < first → first < second → second ≤ high →
    second ≤ largestNumber → numbers.idxOf (some first) < numbers.idxOf (some second)

theorem carried_le (n : Nat) : carried n ≤ n := Nat.min_le_left _ _

theorem carried_pos {n : Nat} (h : 1 ≤ n) : 1 ≤ carried n := Nat.le_min.mpr ⟨h, largestNumber_pos⟩

theorem carried_eq {n : Nat} (h : n ≤ largestNumber) : carried n = n := Nat.min_eq_left h

namespace Follows

variable {low middle high : Nat} {front back numbers : List (Option Nat)}

theorem append (hFront : Follows low front middle) (hBack : Follows middle back high) :
    Follows low (front ++ back) high := by
  induction hFront with
  | nil low => exact hBack
  | next hNumber _ ih => exact .next hNumber (ih hBack)
  | back hPositive hBound _ ih => exact .back hPositive hBound (ih hBack)

theorem le (h : Follows low numbers high) : low ≤ high := by
  induction h with
  | nil low => exact Nat.le_refl low
  | next _ _ ih => exact Nat.le_of_succ_le ih
  | back _ _ _ ih => exact ih

/-- Numbers that all refer back. -/
theorem replicate_back {number : Nat} (count : Nat) (hPositive : 1 ≤ number)
    (hBound : number ≤ low) : Follows low (List.replicate count (some number)) low := by
  induction count with
  | zero => exact .nil low
  | succ count ih => exact .back hPositive hBound ih

/-- Numbers that count upwards without a gap. -/
theorem range' (low count : Nat) :
    Follows low ((List.range' (low + 1) count).map fun number => some (carried number))
      (low + count) := by
  induction count generalizing low with
  | zero => exact .nil low
  | succ count ih =>
      have hRest := ih (low + 1)
      rw [show low + 1 + count = low + (count + 1) by omega] at hRest
      exact .next (.inr rfl) hRest

theorem inRange (h : Follows low numbers high) :
    ∀ carries ∈ numbers, ∃ number, carries = some number ∧ 1 ≤ number ∧ number ≤ high := by
  induction h with
  | nil low => simp
  | @next low number high rest hNumber hRest ih =>
      intro carries hCarries
      rcases List.mem_cons.mp hCarries with rfl | hCarries
      · have hHigh : low + 1 ≤ high := hRest.le
        have hPositive := @carried_pos (low + 1) (by omega)
        have hBound := carried_le (low + 1)
        exact ⟨number, rfl, by omega, by omega⟩
      · exact ih carries hCarries
  | @back low number high rest hPositive hBound hRest ih =>
      intro carries hCarries
      rcases List.mem_cons.mp hCarries with rfl | hCarries
      · exact ⟨number, rfl, hPositive, Nat.le_trans hBound hRest.le⟩
      · exact ih carries hCarries

theorem complete (h : Follows low numbers high) :
    ∀ index, low < index → index ≤ high → index ≤ largestNumber → some index ∈ numbers := by
  induction h with
  | nil low =>
      intro index hLow hHigh
      omega
  | @next low number high rest hNumber hRest ih =>
      intro index hLow hHigh hLargest
      by_cases hHead : index = low + 1
      · have hCarried : carried (low + 1) = low + 1 := carried_eq (by omega)
        have hEq : index = number := by omega
        rw [hEq]
        exact List.mem_cons_self
      · exact List.mem_cons_of_mem _ (ih index (by omega) hHigh hLargest)
  | back hPositive hBound hRest ih =>
      intro index hLow hHigh hLargest
      exact List.mem_cons_of_mem _ (ih index hLow hHigh hLargest)

theorem inOrder (h : Follows low numbers high) :
    ∀ first second, low < first → first < second → second ≤ high → second ≤ largestNumber →
      numbers.idxOf (some first) < numbers.idxOf (some second) := by
  induction h with
  | nil low =>
      intro first second hLow hLess hHigh
      omega
  | @next low number high rest hNumber hRest ih =>
      intro first second hLow hLess hHigh hLargest
      have hCarried : carried (low + 1) = low + 1 := carried_eq (by omega)
      have hHead : number = low + 1 := by omega
      have hSecond : some number ≠ some second := by simp; omega
      by_cases hFirst : number = first
      · rw [List.idxOf_cons_ne rest hSecond, hFirst, List.idxOf_cons_self]
        exact Nat.succ_pos _
      · have hFirst : some number ≠ some first := by simpa using hFirst
        have hRest := ih first second (by omega) hLess hHigh hLargest
        rw [List.idxOf_cons_ne rest hFirst, List.idxOf_cons_ne rest hSecond]
        exact Nat.succ_lt_succ hRest
  | @back low number high rest hPositive hBound hRest ih =>
      intro first second hLow hLess hHigh hLargest
      have hFirst : number ≠ first := by omega
      have hSecond : number ≠ second := by omega
      rw [List.idxOf_cons_ne rest (by simpa using hFirst),
        List.idxOf_cons_ne rest (by simpa using hSecond)]
      exact Nat.succ_lt_succ (ih first second hLow hLess hHigh hLargest)

theorem numbering (h : Follows low numbers high) : Numbering low high numbers :=
  ⟨h.inRange, h.complete, h.inOrder⟩

end Follows

/-! ## Counted texts -/

/-- A text that closes its literals and whose numbers count values from `low` to `high`. -/
structure Counted (low : Nat) (text : String) (high : Nat) : Prop where
  closed : Closed text
  follows : Follows low (numbers text) high

namespace Counted

variable {low middle high : Nat} {front back text : String}

/-- A text without positional placeholders counts nothing. -/
theorem still (hClosed : Closed text) (hNumbers : numbers text = []) (low : Nat) :
    Counted low text low :=
  ⟨hClosed, hNumbers ▸ .nil low⟩

theorem quiet (h : Quiet text.toList) (low : Nat) : Counted low text low :=
  still (closed_of_quiet h) (numbers_quiet h) low

theorem append (hFront : Counted low front middle) (hBack : Counted middle back high)
    (hApart : Apart back.toList) : Counted low (front ++ back) high := by
  refine ⟨hFront.closed.append hBack.closed, ?_⟩
  rw [numbers_append hFront.closed hApart]
  exact hFront.follows.append hBack.follows

theorem quiet_append (hFront : Quiet front.toList) (hBack : Counted low back high) :
    Counted low (front ++ back) high := by
  refine ⟨(closed_of_quiet hFront).append hBack.closed, ?_⟩
  rw [numbers_quiet_append hFront]
  exact hBack.follows

/-- Texts with a space between them are read apart. -/
theorem append_space (hFront : Counted low front middle) (hBack : Counted middle back high) :
    Counted low (front ++ " " ++ back) high := by
  have hApart : Apart (" " ++ back).toList := by
    rw [String.toList_append]
    exact stops_cons (by decide)
  rw [String.append_assoc]
  exact hFront.append (hBack.quiet_append (by decide)) hApart

theorem numbers_positionalText (n : Nat) : numbers (positionalText n) = [some (carried n)] := by
  rw [numbers, kinds_eq, segments_positionalText]
  rfl

theorem closed_positionalText (n : Nat) : Closed (positionalText n) :=
  (spells_positionalText false n).leavesOpen false

/-- The placeholder of the next value. -/
theorem positionalText (low : Nat) :
    Counted low (Placeholder.positionalText (low + 1)) (low + 1) := by
  refine ⟨closed_positionalText _, ?_⟩
  rw [numbers_positionalText]
  exact .next (.inr rfl) (.nil _)

/-- A text whose placeholders all stand for the next value. -/
theorem renumber (hClosed : Closed text) (hNumbers : numbers text ≠ []) (low : Nat) :
    Counted low (Placeholder.renumber text (low + 1)) (low + 1) := by
  refine ⟨hClosed.renumber _, ?_⟩
  rw [numbers_renumber, List.map_const']
  obtain ⟨count, hCount⟩ : ∃ count, (numbers text).length = count + 1 :=
    Nat.exists_eq_succ_of_ne_zero (by simpa using hNumbers)
  rw [hCount]
  refine .next (.inr rfl) (.replicate_back count ?_ ?_)
  · exact carried_pos (Nat.succ_pos low)
  · exact carried_le _

/-- A text whose placeholders stand for one value each. -/
theorem numberFrom (hClosed : Closed text) (low : Nat) :
    Counted low (Placeholder.numberFrom text (low + 1)) (low + (numbers text).length) := by
  refine ⟨hClosed.numberFrom _, ?_⟩
  rw [numbers_numberFrom]
  exact .range' low _

end Counted

end BoundQuery.Placeholder
