import BoundQuery.Proofs.Placeholder.Counting

/-!
# Texts behind other values

The placeholders of a text are numbered behind the values that are bound before. Behind `high`
values instead of `low`, the place of a value moves by the difference, and `moved` is the text in
which every positional placeholder follows its value there. `Moves` says of two texts that the
second is the first one moved, and that nothing else tells them apart; it holds of texts without
positional placeholders, of texts that are numbered from the next value on, and of such texts
written one after the other.
-/

namespace BoundQuery.Placeholder

/-- A segment behind `high` values instead of `low`: a positional placeholder follows its value. -/
def Segment.moved (low high : Nat) : Segment → Segment
  | .marker (.positional _) spelling => .numbered (Text.digitsValue spelling.tail - low + high)
  | part => part

/-- A text behind `high` values instead of `low`. -/
def moved (low high : Nat) (text : String) : String :=
  String.ofList (spelled ((segments text).map (Segment.moved low high)))

/-- A segment that refers to no value among the first `low` ones: if it is a positional placeholder,
it is written for a later place. -/
def Segment.Behind (low : Nat) : Segment → Prop
  | .marker (.positional number) spelling =>
      ∃ place, low < place ∧ Segment.marker (.positional number) spelling = .numbered place
  | _ => True

/-- A text with closed literals, and the same text with its positional placeholders moved from
behind `low` values to behind `high` ones. -/
structure Moves (low high : Nat) (here there : String) : Prop where
  closedHere : Closed here
  closedThere : Closed there
  behind : ∀ part ∈ segments here, part.Behind low
  segments_eq : segments there = (segments here).map (Segment.moved low high)

/-! ## Single segments -/

theorem Segment.moved_numbered (low high place : Nat) :
    (Segment.numbered place).moved low high = .numbered (place - low + high) := by
  simp only [numbered, moved, toList_positionalText, List.tail_cons, Text.digitsValue_toDigits]

theorem Segment.behind_numbered {low place : Nat} (h : low < place) :
    (Segment.numbered place).Behind low := ⟨place, h, rfl⟩

/-- Some more values at both places make no difference to a segment behind them. -/
theorem Segment.Behind.moved_add {low count : Nat} {part : Segment} (h : part.Behind (low + count))
    (high : Nat) : part.moved (low + count) (high + count) = part.moved low high := by
  match part, h with
  | .plain c, _ => rfl
  | .marker (.named name) spelling, _ => rfl
  | .marker (.positional number) spelling, ⟨place, hPlace, hEq⟩ =>
      have hSame : place - (low + count) + (high + count) = place - low + high := by omega
      rw [hEq, moved_numbered, moved_numbered, hSame]

theorem Segment.Behind.of_add {low count : Nat} {part : Segment} (h : part.Behind (low + count)) :
    part.Behind low := by
  match part, h with
  | .plain c, _ => trivial
  | .marker (.named name) spelling, _ => trivial
  | .marker (.positional number) spelling, ⟨place, hPlace, hEq⟩ => exact ⟨place, by omega, hEq⟩

/-- A text without positional placeholders stays as it is. -/
theorem moved_of_numbers_eq_nil {text : String} (h : numbers text = []) (low high : Nat) :
    ∀ part ∈ segments text, part.Behind low ∧ part.moved low high = part := by
  intro part hPart
  match part with
  | .plain c => exact ⟨trivial, rfl⟩
  | .marker (.named name) spelling => exact ⟨trivial, rfl⟩
  | .marker (.positional number) spelling =>
      have hKind : Kind.positional number ∈ kinds text := by
        rw [kinds_eq]
        exact List.mem_filterMap.mpr ⟨_, hPart, rfl⟩
      have hNumber : number ∈ numbers text := List.mem_filterMap.mpr ⟨_, hKind, rfl⟩
      rw [h] at hNumber
      exact absurd hNumber List.not_mem_nil

/-! ## Answers behind other values -/

/-- Answers for the same placeholders behind `low` and behind `high` values: each positional one is
given one place behind both. -/
inductive AnswersMove (low high : Nat) :
    List Kind → List (Option Nat) → List (Option Nat) → Prop
  | nil : AnswersMove low high [] [] []
  | positional (number : Option Nat) (offset : Nat) {rest : List Kind}
      {here there : List (Option Nat)} (hRest : AnswersMove low high rest here there) :
      AnswersMove low high (.positional number :: rest) (some (low + 1 + offset) :: here)
        (some (high + 1 + offset) :: there)
  | named (name : String) {rest : List Kind} {here there : List (Option Nat)}
      (hRest : AnswersMove low high rest here there) :
      AnswersMove low high (.named name :: rest) (none :: here) (none :: there)

namespace AnswersMove

variable {low high : Nat}

theorem same (list : List Kind) :
    AnswersMove low high list (list.map (sameAnswer (low + 1)))
      (list.map (sameAnswer (high + 1))) := by
  induction list with
  | nil => exact .nil
  | cons kind rest ih =>
      cases kind with
      | positional number => exact .positional number 0 ih
      | named name => exact .named name ih

theorem count (offset : Nat) (list : List Kind) :
    AnswersMove low high list (answersFrom countAnswer countNext (low + 1 + offset) list)
      (answersFrom countAnswer countNext (high + 1 + offset) list) := by
  induction list generalizing offset with
  | nil => exact .nil
  | cons kind rest ih =>
      cases kind with
      | positional number => exact .positional number offset (ih (offset + 1))
      | named name => exact .named name (ih offset)

/-- Segments with the one or the other answers exchanged for their placeholders. -/
theorem exchange_moved {parts : List Segment} {here there : List (Option Nat)}
    (h : AnswersMove low high (parts.filterMap Segment.kind?) here there) :
    (∀ part ∈ exchange here parts, part.Behind low) ∧
      exchange there parts = (exchange here parts).map (Segment.moved low high) := by
  induction parts generalizing here there with
  | nil => exact ⟨fun part hPart => absurd hPart List.not_mem_nil, rfl⟩
  | cons part rest ih =>
      match part, h with
      | .plain c, h =>
          obtain ⟨hBehind, hMoved⟩ := ih h
          exact ⟨List.forall_mem_cons.mpr ⟨trivial, hBehind⟩,
            congrArg (Segment.plain c :: ·) hMoved⟩
      | .marker (.named name) spelling, .named _ hRest =>
          obtain ⟨hBehind, hMoved⟩ := ih hRest
          exact ⟨List.forall_mem_cons.mpr ⟨trivial, hBehind⟩,
            congrArg (Segment.marker (.named name) spelling :: ·) hMoved⟩
      | .marker (.positional number) spelling, .positional _ offset hRest =>
          obtain ⟨hBehind, hMoved⟩ := ih hRest
          have hPlace : low + 1 + offset - low + high = high + 1 + offset := by omega
          have hHead := Segment.moved_numbered low high (low + 1 + offset)
          rw [hPlace] at hHead
          refine ⟨List.forall_mem_cons.mpr ⟨Segment.behind_numbered (by omega), hBehind⟩, ?_⟩
          show Segment.numbered (high + 1 + offset) :: _ =
            (Segment.numbered (low + 1 + offset)).moved low high :: _
          rw [hHead]
          exact congrArg (Segment.numbered (high + 1 + offset) :: ·) hMoved

end AnswersMove

/-! ## Moved texts -/

namespace Moves

variable {low high : Nat} {here there text : String}

theorem eq_moved (h : Moves low high here there) : there = Placeholder.moved low high here := by
  rw [Placeholder.moved, ← h.segments_eq, spelling_segments]

/-- A text without positional placeholders is the same behind any values. -/
theorem still (hClosed : Closed text) (hNumbers : numbers text = []) :
    Moves low high text text where
  closedHere := hClosed
  closedThere := hClosed
  behind := fun part hPart => (moved_of_numbers_eq_nil hNumbers low high part hPart).1
  segments_eq := by
    have hSame := List.map_congr_left fun part hPart =>
      (moved_of_numbers_eq_nil hNumbers low high part hPart).2
    rw [hSame, List.map_id']

theorem quiet (h : Quiet text.toList) : Moves low high text text :=
  still (closed_of_quiet h) (numbers_quiet h)

/-- What is behind some more values on both sides is behind the values before them. -/
theorem of_add {count : Nat} (h : Moves (low + count) (high + count) here there) :
    Moves low high here there where
  closedHere := h.closedHere
  closedThere := h.closedThere
  behind := fun part hPart => (h.behind part hPart).of_add
  segments_eq := by
    rw [h.segments_eq]
    exact List.map_congr_left fun part hPart => (h.behind part hPart).moved_add high

theorem append {front front' back back' : String} (hFront : Moves low high front front')
    (hBack : Moves low high back back') (hApart : Apart back.toList)
    (hApart' : Apart back'.toList) : Moves low high (front ++ back) (front' ++ back') where
  closedHere := hFront.closedHere.append hBack.closedHere
  closedThere := hFront.closedThere.append hBack.closedThere
  behind := by
    intro part hPart
    rw [segments_append hFront.closedHere hApart] at hPart
    rcases List.mem_append.mp hPart with hPart | hPart
    · exact hFront.behind part hPart
    · exact hBack.behind part hPart
  segments_eq := by
    rw [segments_append hFront.closedHere hApart, segments_append hFront.closedThere hApart',
      List.map_append, hFront.segments_eq, hBack.segments_eq]

theorem quiet_append {front back back' : String} (hFront : Quiet front.toList)
    (hBack : Moves low high back back') : Moves low high (front ++ back) (front ++ back') where
  closedHere := (closed_of_quiet hFront).append hBack.closedHere
  closedThere := (closed_of_quiet hFront).append hBack.closedThere
  behind := by
    intro part hPart
    rw [segments_quiet_append hFront] at hPart
    rcases List.mem_append.mp hPart with hPart | hPart
    · obtain ⟨c, -, rfl⟩ := List.mem_map.mp hPart
      trivial
    · exact hBack.behind part hPart
  segments_eq := by
    rw [segments_quiet_append hFront, segments_quiet_append hFront, List.map_append,
      List.map_map, hBack.segments_eq]
    rfl

/-- Texts with a space between them. -/
theorem append_space {front front' back back' : String} (hFront : Moves low high front front')
    (hBack : Moves low high back back') :
    Moves low high (front ++ " " ++ back) (front' ++ " " ++ back') := by
  have hApart : ∀ behind : String, Apart (" " ++ behind).toList := by
    intro behind
    rw [String.toList_append]
    exact stops_cons (by decide)
  rw [String.append_assoc, String.append_assoc]
  exact hFront.append (hBack.quiet_append (by decide)) (hApart back) (hApart back')

/-- The placeholder of the next value. -/
theorem positionalText (low high : Nat) :
    Moves low high (Placeholder.positionalText (low + 1))
      (Placeholder.positionalText (high + 1)) where
  closedHere := Counted.closed_positionalText _
  closedThere := Counted.closed_positionalText _
  behind := by
    intro part hPart
    rw [segments_positionalText] at hPart
    obtain rfl := List.mem_singleton.mp hPart
    exact Segment.behind_numbered (Nat.lt_succ_self low)
  segments_eq := by
    have hPlace : low + 1 - low + high = high + 1 := by omega
    rw [segments_positionalText, segments_positionalText, List.map_singleton,
      Segment.moved_numbered, hPlace]

theorem exchanged {answers answers' : List (Option Nat)} (hClosed : Closed text)
    (h : AnswersMove low high (kinds text) answers answers') :
    Moves low high (Placeholder.exchanged answers text)
      (Placeholder.exchanged answers' text) := by
  rw [kinds_eq] at h
  obtain ⟨hBehind, hMoved⟩ := h.exchange_moved
  rw [← segments_exchanged, ← segments_exchanged] at hMoved
  rw [← segments_exchanged] at hBehind
  exact ⟨hClosed.exchanged answers, hClosed.exchanged answers', hBehind, hMoved⟩

/-- A text whose placeholders all stand for the next value. -/
theorem renumber (hClosed : Closed text) (low high : Nat) :
    Moves low high (Placeholder.renumber text (low + 1))
      (Placeholder.renumber text (high + 1)) := by
  rw [renumber_eq_exchanged, renumber_eq_exchanged]
  exact .exchanged hClosed (.same (kinds text))

/-- A text whose placeholders stand for one value each. -/
theorem numberFrom (hClosed : Closed text) (low high : Nat) :
    Moves low high (Placeholder.numberFrom text (low + 1))
      (Placeholder.numberFrom text (high + 1)) := by
  rw [numberFrom_eq_exchanged, numberFrom_eq_exchanged]
  exact .exchanged hClosed (.count 0 (kinds text))

end Moves

end BoundQuery.Placeholder
