import BoundQuery.Proofs.Placeholder.Exchange
import BoundQuery.Proofs.Placeholder.Offsets

/-!
# What a substitution does to a text

A substitution asks a callback once for each placeholder, from left to right, and then puts the
answers in the place of the spans (`substitute_eq_mapM`). For a callback that has a state and may
fail, `Answered` is the chain of its calls: the substitution goes through when the whole chain does,
and it is stopped by the first call that fails. `spliced_edits` is the induction that keeps every
byte between the answered spans. Answers that are numbered placeholders make the substitution an
exchange, so that the new text is scanned as the old one with these numbers (`kinds_of_numbers`);
numbering a text again forgets the numbers before (`renumber_renumber`).
-/

namespace BoundQuery.Placeholder

open Text (bytes encoded byteLength spliced)

/-! ## Asking and replacing -/

/-- The characters of segments with a text in the place of each placeholder that is answered; a list
that runs out keeps the rest. -/
def replaced (answers : List (Option String)) : List Segment → List Char
  | [] => []
  | .plain c :: rest => c :: replaced answers rest
  | .marker _ spelling :: rest =>
      ((answers.headD none).map String.toList).getD spelling ++ replaced answers.tail rest

section Lawful

variable {m : Type → Type} [Monad m] [LawfulMonad m]

theorem substituteFrom_eq_mapM (replace : Placeholder → m (Option String)) (start : Nat)
    (parts : List Segment) :
    substituteFrom replace start parts =
      (replaced · parts) <$> (located start parts).mapM replace := by
  induction parts generalizing start with
  | nil => simp [substituteFrom, located, replaced]
  | cons part rest ih =>
      cases part with
      | plain c => simp [substituteFrom, located, replaced, ih]
      | marker kind spelling => simp [substituteFrom, located, replaced, ih]

/-- A substitution asks for each placeholder in turn and then puts the answers in. -/
theorem substitute_eq_mapM (replace : Placeholder → m (Option String)) (text : String) :
    substitute replace text =
      (fun answers => String.ofList (replaced answers (segments text))) <$>
        (placeholders text).mapM replace := by
  rw [substitute, substituteFrom_eq_mapM, Functor.map_map]
  rfl

end Lawful

/-! ## A callback with a state that may fail -/

section Callback

variable {σ ε : Type}

/-- A callback is asked for each of some placeholders in turn, and answers each time; every call
starts from the state that the one before left. -/
inductive Answered (ask : Placeholder → ExceptT ε (StateM σ) (Option String)) :
    σ → List Placeholder → List (Option String) → σ → Prop
  | nil (state : σ) : Answered ask state [] [] state
  | cons {state middle last : σ} {token : Placeholder} {answer : Option String}
      {rest : List Placeholder} {answers : List (Option String)}
      (hAnswer : (ask token).run.run state = (.ok answer, middle))
      (hRest : Answered ask middle rest answers last) :
      Answered ask state (token :: rest) (answer :: answers) last

variable {ask : Placeholder → ExceptT ε (StateM σ) (Option String)}

theorem Answered.length_eq {state last : σ} {list : List Placeholder}
    {answers : List (Option String)} (h : Answered ask state list answers last) :
    answers.length = list.length := by
  induction h with
  | nil => rfl
  | cons hAnswer hRest ih => rw [List.length_cons, List.length_cons, ih]

theorem run_bind_of_ok {α β : Type} {first : ExceptT ε (StateM σ) α}
    {next : α → ExceptT ε (StateM σ) β} {state middle : σ} {value : α}
    (h : first.run.run state = (.ok value, middle)) :
    (first >>= next).run.run state = (next value).run.run middle := by
  have hRun : (first >>= next).run.run state =
      (ExceptT.bindCont next (first.run.run state).1).run (first.run.run state).2 := rfl
  rw [hRun, h]
  rfl

theorem run_bind_of_error {α β : Type} {first : ExceptT ε (StateM σ) α}
    {next : α → ExceptT ε (StateM σ) β} {state last : σ} {fault : ε}
    (h : first.run.run state = (.error fault, last)) :
    (first >>= next).run.run state = (.error fault, last) := by
  have hRun : (first >>= next).run.run state =
      (ExceptT.bindCont next (first.run.run state).1).run (first.run.run state).2 := rfl
  rw [hRun, h]
  rfl

/-- A chain of calls that all answer gives the list of answers. -/
theorem Answered.run_mapM {state last : σ} {list : List Placeholder}
    {answers : List (Option String)} (h : Answered ask state list answers last) :
    (list.mapM ask).run.run state = (.ok answers, last) := by
  induction h with
  | nil state => rfl
  | cons hAnswer hRest ih =>
      rw [List.mapM_cons, run_bind_of_ok hAnswer, run_bind_of_ok ih]
      rfl

/-- A chain of calls is stopped by one that fails. -/
theorem Answered.run_mapM_of_error {state middle last : σ} {front rest : List Placeholder}
    {answers : List (Option String)} {token : Placeholder} {fault : ε}
    (h : Answered ask state front answers middle)
    (hStop : (ask token).run.run middle = (.error fault, last)) :
    ((front ++ token :: rest).mapM ask).run.run state = (.error fault, last) := by
  induction h with
  | nil state => rw [List.nil_append, List.mapM_cons, run_bind_of_error hStop]
  | cons hAnswer hRest ih =>
      rw [List.cons_append, List.mapM_cons, run_bind_of_ok hAnswer, run_bind_of_error (ih hStop)]

/-- The calls all answer, or one is the first that fails. -/
theorem answered_or_stopped (ask : Placeholder → ExceptT ε (StateM σ) (Option String)) (state : σ)
    (list : List Placeholder) :
    (∃ answers last, Answered ask state list answers last) ∨
      ∃ front token rest answers middle fault last, list = front ++ token :: rest ∧
        Answered ask state front answers middle ∧
        (ask token).run.run middle = (.error fault, last) := by
  induction list generalizing state with
  | nil => exact .inl ⟨[], state, .nil state⟩
  | cons token rest ih =>
      rcases hCall : (ask token).run.run state with ⟨fault | answer, middle⟩
      · exact .inr ⟨[], token, rest, [], state, fault, middle, rfl, .nil state, hCall⟩
      · rcases ih middle with ⟨answers, last, hRest⟩ | hStopped
        · exact .inl ⟨answer :: answers, last, .cons hCall hRest⟩
        · obtain ⟨front, other, later, answers, before, fault, last, rfl, hFront, hStop⟩ := hStopped
          exact .inr ⟨token :: front, other, later, answer :: answers, before, fault, last, rfl,
            .cons hCall hFront, hStop⟩

theorem Answered.run_substitute {state last : σ} {text : String} {answers : List (Option String)}
    (h : Answered ask state (placeholders text) answers last) :
    (substitute ask text).run.run state =
      (.ok (String.ofList (replaced answers (segments text))), last) := by
  rw [substitute_eq_mapM, map_eq_pure_bind, run_bind_of_ok h.run_mapM]
  rfl

theorem Answered.run_substitute_of_error {state middle last : σ} {text : String}
    {front rest : List Placeholder} {answers : List (Option String)} {token : Placeholder}
    {fault : ε} (hComes : placeholders text = front ++ token :: rest)
    (h : Answered ask state front answers middle)
    (hStop : (ask token).run.run middle = (.error fault, last)) :
    (substitute ask text).run.run state = (.error fault, last) := by
  rw [substitute_eq_mapM, map_eq_pure_bind, hComes, run_bind_of_error (h.run_mapM_of_error hStop)]

/-- A substitution goes through when every placeholder is answered. -/
theorem run_substitute_eq_ok {state last : σ} {text result : String} :
    (substitute ask text).run.run state = (.ok result, last) ↔
      ∃ answers, Answered ask state (placeholders text) answers last ∧
        result = String.ofList (replaced answers (segments text)) := by
  constructor
  · intro hOk
    rcases answered_or_stopped ask state (placeholders text) with
      ⟨answers, other, hAll⟩ |
        ⟨front, token, rest, answers, middle, fault, other, hComes, hFront, hStop⟩
    · rw [hAll.run_substitute] at hOk
      obtain ⟨hResult, rfl⟩ := Prod.mk.inj hOk
      exact ⟨answers, hAll, (Except.ok.inj hResult).symm⟩
    · rw [hFront.run_substitute_of_error hComes hStop] at hOk
      exact absurd (Prod.mk.inj hOk).1 (by simp)
  · rintro ⟨answers, hAll, rfl⟩
    exact hAll.run_substitute

/-- A substitution is stopped by the first call that fails, with its fault. -/
theorem run_substitute_eq_error {state last : σ} {text : String} {fault : ε} :
    (substitute ask text).run.run state = (.error fault, last) ↔
      ∃ front token rest answers middle, placeholders text = front ++ token :: rest ∧
        Answered ask state front answers middle ∧
        (ask token).run.run middle = (.error fault, last) := by
  constructor
  · intro hError
    rcases answered_or_stopped ask state (placeholders text) with
      ⟨answers, other, hAll⟩ |
        ⟨front, token, rest, answers, middle, cause, other, hComes, hFront, hStop⟩
    · rw [hAll.run_substitute] at hError
      exact absurd (Prod.mk.inj hError).1 (by simp)
    · rw [hFront.run_substitute_of_error hComes hStop] at hError
      obtain ⟨hFault, rfl⟩ := Prod.mk.inj hError
      obtain rfl := Except.error.inj hFault
      exact ⟨front, token, rest, answers, middle, hComes, hFront, hStop⟩
  · rintro ⟨front, token, rest, answers, middle, hComes, hFront, hStop⟩
    exact hFront.run_substitute_of_error hComes hStop

end Callback

/-! ## The bytes between the spans -/

/-- The spans of the placeholders that are answered, with the answers. -/
def edits (list : List Placeholder) (answers : List (Option String)) : List (Span × String) :=
  (list.zip answers).filterMap fun (token, answer) => answer.map fun text => (token.span, text)

theorem edits_cons_of_none {token : Placeholder} {rest : List Placeholder}
    {answers : List (Option String)} (h : answers.headD none = none) :
    edits (token :: rest) answers = edits rest answers.tail := by
  cases answers with
  | nil => rw [edits, edits, List.zip_nil_right, List.tail_nil, List.zip_nil_right]
  | cons answer more =>
      obtain rfl : answer = none := h
      rfl

theorem edits_cons_of_some {token : Placeholder} {rest : List Placeholder}
    {answers : List (Option String)} {text : String} (h : answers.headD none = some text) :
    edits (token :: rest) answers = (token.span, text) :: edits rest answers.tail := by
  cases answers with
  | nil => exact absurd h (by simp)
  | cons answer more =>
      obtain rfl : answer = some text := h
      rfl

theorem edits_of_none {list : List Placeholder} {answers : List (Option String)}
    (h : ∀ answer ∈ answers, answer = none) : edits list answers = [] := by
  rw [edits, List.filterMap_eq_nil_iff]
  rintro ⟨token, answer⟩ hPair
  obtain rfl : answer = none := h answer (List.of_mem_zip hPair).2
  rfl

/-- Between the spans that are answered every byte is kept. The bytes of `copied` have been copied
already, those of `kept` are in front of the segments and still to be copied. -/
theorem spliced_edits (copied kept : List Char) (parts : List Segment)
    (answers : List (Option String)) :
    spliced (encoded (copied ++ (kept ++ spelled parts))) (byteLength copied)
        (edits (located (byteLength (copied ++ kept)) parts) answers) =
      encoded kept ++ encoded (replaced answers parts) := by
  induction parts generalizing copied kept answers with
  | nil =>
      rw [located, edits, List.zip_nil_left, List.filterMap_nil, spliced, drop_encoded,
        Text.encoded_append]
      rfl
  | cons part rest ih =>
      have hSpelled : kept ++ spelled (part :: rest) = kept ++ part.spelling ++ spelled rest := by
        rw [spelled_cons, List.append_assoc]
      -- What is kept of the segment is copied together with what was kept before it.
      have hKept : ∀ more : List (Option String),
          spliced (encoded (copied ++ (kept ++ spelled (part :: rest)))) (byteLength copied)
              (edits (located (byteLength (copied ++ kept) + byteLength part.spelling) rest) more) =
            encoded kept ++ encoded (part.spelling ++ replaced more rest) := by
        intro more
        have hStop : byteLength (copied ++ kept) + byteLength part.spelling =
            byteLength (copied ++ (kept ++ part.spelling)) := by
          rw [← List.append_assoc, ← Text.byteLength_append]
        rw [hSpelled, hStop, ih copied (kept ++ part.spelling) more, Text.encoded_append,
          Text.encoded_append, List.append_assoc]
      cases part with
      | plain c => exact hKept answers
      | marker kind spelling =>
          rw [located, replaced]
          cases hAnswer : answers.headD none with
          | none =>
              rw [edits_cons_of_none hAnswer]
              exact hKept answers.tail
          | some text =>
              have hStart : byteLength (copied ++ kept) - byteLength copied = byteLength kept := by
                rw [Text.byteLength_append, Nat.add_sub_cancel_left]
              have hNext := ih (copied ++ kept ++ spelling) [] answers.tail
              rw [List.append_nil, List.nil_append, Text.byteLength_append (copied ++ kept),
                List.append_assoc, List.append_assoc] at hNext
              rw [edits_cons_of_some hAnswer, spliced, drop_encoded, hStart, take_encoded,
                spelled_cons, Segment.spelling, hNext, Text.encoded_append]
              show encoded kept ++ bytes text ++ encoded (replaced answers.tail rest) =
                encoded kept ++ (encoded text.toList ++ encoded (replaced answers.tail rest))
              rw [Text.bytes_eq_encoded, List.append_assoc]

/-- A substituted text has the answers in the place of the spans that they were given for, and every
other byte as it was. -/
theorem bytes_replaced (text : String) (answers : List (Option String)) :
    bytes (String.ofList (replaced answers (segments text))) =
      spliced (bytes text) 0 (edits (placeholders text) answers) := by
  have hSpliced := spliced_edits [] [] (segments text) answers
  rw [List.nil_append, List.nil_append, spelled_segments] at hSpliced
  rw [Text.bytes_eq_encoded, Text.bytes_eq_encoded, String.toList_ofList]
  exact hSpliced.symm

/-- A substitution that exchanges nothing gives the text back. -/
theorem replaced_of_none {text : String} {answers : List (Option String)}
    (h : ∀ answer ∈ answers, answer = none) :
    String.ofList (replaced answers (segments text)) = text := by
  refine Text.bytes_inj.mp ?_
  rw [bytes_replaced, edits_of_none h, spliced, List.drop_zero]

/-! ## Numbers for answers -/

/-- What a placeholder refers to when a number is written in its place. -/
def Kind.withNumber (kind : Kind) : Option Nat → Kind
  | some number => .positional (some number)
  | none => kind

/-- Numbered placeholders as answers make an exchange. -/
theorem replaced_positionalText (numbers : List (Option Nat)) (parts : List Segment) :
    replaced (numbers.map (·.map positionalText)) parts = spelled (exchange numbers parts) := by
  induction parts generalizing numbers with
  | nil => rfl
  | cons part rest ih =>
      cases part with
      | plain c => exact congrArg (c :: ·) (ih numbers)
      | marker kind spelling =>
          have hTail : (numbers.map (·.map positionalText)).tail =
              numbers.tail.map (·.map positionalText) := List.map_tail.symm
          rw [replaced, exchange, spelled_cons, hTail, ih numbers.tail]
          rcases numbers with _ | ⟨_ | number, more⟩ <;> rfl

/-- A number that fits is carried as it is. -/
theorem answeredAll_eq_zipWith {numbers : List (Option Nat)}
    (hFits : ∀ number ∈ numbers, ∀ n ∈ number, n < twoTo 64) {list : List Kind}
    (hLength : numbers.length = list.length) :
    answeredAll numbers list = List.zipWith Kind.withNumber list numbers := by
  induction list generalizing numbers with
  | nil => rfl
  | cons kind rest ih =>
      cases numbers with
      | nil => exact absurd hLength (by simp)
      | cons number more =>
          have hRest := ih (fun other hOther => hFits other (List.mem_cons_of_mem _ hOther))
            (Nat.succ.inj hLength)
          have hHead : kind.answered number = kind.withNumber number := by
            cases number with
            | none => rfl
            | some n =>
                have hLess : n < twoTo 64 := hFits (some n) List.mem_cons_self n rfl
                have hCarried : carried n = n := Nat.min_eq_left (Nat.le_pred_of_lt hLess)
                rw [Kind.answered, hCarried, Kind.withNumber]
          rw [answeredAll, List.headD_cons, List.tail_cons, hRest, hHead, List.zipWith_cons_cons]

/-- A text with numbers substituted is scanned as the text before, with these numbers in place. -/
theorem kinds_of_numbers {text : String} {numbers : List (Option Nat)}
    (hFits : ∀ number ∈ numbers, ∀ n ∈ number, n < twoTo 64)
    (hLength : numbers.length = (placeholders text).length) :
    kinds (String.ofList (replaced (numbers.map (·.map positionalText)) (segments text))) =
      List.zipWith Kind.withNumber (kinds text) numbers := by
  have hKinds : numbers.length = (kinds text).length := by rw [kinds, List.length_map, hLength]
  rw [replaced_positionalText]
  show kinds (exchanged numbers text) = List.zipWith Kind.withNumber (kinds text) numbers
  rw [kinds_exchanged, answeredAll_eq_zipWith hFits hKinds]

/-- The segments of a text with one number for all positional placeholders. -/
def numberedAll (number : Nat) (parts : List Segment) : List Segment :=
  exchange ((parts.filterMap Segment.kind?).map (sameAnswer number)) parts

theorem numberedAll_numberedAll (first second : Nat) (parts : List Segment) :
    numberedAll second (numberedAll first parts) = numberedAll second parts := by
  induction parts with
  | nil => rfl
  | cons part rest ih =>
      cases part with
      | plain c => exact congrArg (.plain c :: ·) ih
      | marker kind spelling =>
          cases kind with
          | positional number => exact congrArg (.numbered second :: ·) ih
          | named name => exact congrArg (.marker (.named name) spelling :: ·) ih

theorem segments_renumber (text : String) (number : Nat) :
    segments (renumber text number) = numberedAll number (segments text) := by
  rw [renumber_eq_exchanged, segments_exchanged, kinds_eq, numberedAll]

/-- Numbering a text again forgets the numbers before. -/
theorem renumber_renumber (text : String) (first second : Nat) :
    renumber (renumber text first) second = renumber text second := by
  have hSegments : segments (renumber (renumber text first) second) =
      segments (renumber text second) := by
    rw [segments_renumber, segments_renumber, segments_renumber, numberedAll_numberedAll]
  rw [← spelling_segments (renumber (renumber text first) second), hSegments, spelling_segments]

/-- A substitution asks once for each placeholder, from left to right. It is stopped by the first
call that fails, and else replaces exactly the spans that are answered: the text is given back when
none is, and with numbered placeholders for answers it is scanned as before, with these numbers in
place. In particular, numbering a text again forgets the numbers before. -/
theorem substitution_of_answers {σ ε : Type}
    (ask : Placeholder → ExceptT ε (StateM σ) (Option String)) (state : σ) (text : String) :
    (∀ result last, (substitute ask text).run.run state = (.ok result, last) ↔
      ∃ answers, Answered ask state (placeholders text) answers last ∧
        bytes result = spliced (bytes text) 0 (edits (placeholders text) answers)) ∧
    (∀ fault last, (substitute ask text).run.run state = (.error fault, last) ↔
      ∃ front token rest answers middle, placeholders text = front ++ token :: rest ∧
        Answered ask state front answers middle ∧
        (ask token).run.run middle = (.error fault, last)) ∧
    (∀ answers last, Answered ask state (placeholders text) answers last →
      (∀ answer ∈ answers, answer = none) →
        (substitute ask text).run.run state = (.ok text, last)) ∧
    (∀ numbers last, (∀ number ∈ numbers, ∀ n ∈ number, n < twoTo 64) →
      Answered ask state (placeholders text) (numbers.map (·.map positionalText)) last →
        ∃ result, (substitute ask text).run.run state = (.ok result, last) ∧
          kinds result = List.zipWith Kind.withNumber (kinds text) numbers) ∧
    ∀ first second, renumber (renumber text first) second = renumber text second := by
  refine ⟨?_, fun fault last => run_substitute_eq_error, ?_, ?_, renumber_renumber text⟩
  · intro result last
    have hSame : ∀ answers, result = String.ofList (replaced answers (segments text)) ↔
        bytes result = spliced (bytes text) 0 (edits (placeholders text) answers) := by
      intro answers
      rw [← bytes_replaced, Text.bytes_inj]
    rw [run_substitute_eq_ok]
    simp only [hSame]
  · intro answers last hAll hNone
    rw [hAll.run_substitute, replaced_of_none hNone]
  · intro numbers last hFits hAll
    have hLength : numbers.length = (placeholders text).length := by
      rw [← hAll.length_eq, List.length_map]
    exact ⟨_, hAll.run_substitute, kinds_of_numbers hFits hLength⟩

/-- A callback that counts the positional placeholders upwards and gives up at a limit. -/
def countUpTo (limit : Nat) (token : Placeholder) : ExceptT Nat (StateM Nat) (Option String) := do
  if token.kind.isPositional then
    let count ← get
    if count = limit then throw count
    set (count + 1)
    return some (positionalText count)
  else return none

/-- The numbers five and six are given; with a limit of six, the call for the last one fails. -/
theorem substitution_of_answers_counting :
    (∃ result,
      (substitute (countUpTo 9) "a = ? AND b = :x AND c = ?7").run.run 5 = (.ok result, 7) ∧
        kinds result = [.positional (some 5), .named "x", .positional (some 6)]) ∧
    (substitute (countUpTo 6) "a = ? AND b = :x AND c = ?7").run.run 5 = (.error 6, 6) := by
  have hTokens : placeholders "a = ? AND b = :x AND c = ?7" =
      [⟨.positional none, 4, 5⟩, ⟨.named "x", 14, 16⟩, ⟨.positional (some 7), 25, 27⟩] := by
    decide +kernel
  have hKinds : kinds "a = ? AND b = :x AND c = ?7" =
      [.positional none, .named "x", .positional (some 7)] := by
    rw [kinds, hTokens]
    rfl
  constructor
  · obtain ⟨-, -, -, hNumbers, -⟩ :=
      substitution_of_answers (countUpTo 9) 5 "a = ? AND b = :x AND c = ?7"
    rw [hKinds] at hNumbers
    refine hNumbers [some 5, none, some 6] 7 (by decide) ?_
    rw [hTokens]
    exact .cons rfl (.cons rfl (.cons rfl (.nil 7)))
  · obtain ⟨-, hStopped, -, -, -⟩ :=
      substitution_of_answers (countUpTo 6) 5 "a = ? AND b = :x AND c = ?7"
    have hFront : Answered (countUpTo 6) 5
        [⟨.positional none, 4, 5⟩, ⟨.named "x", 14, 16⟩] [some "?5", none] 6 :=
      .cons rfl (.cons rfl (.nil 6))
    exact (hStopped 6 6).mpr ⟨_, ⟨.positional (some 7), 25, 27⟩, [], _, 6, hTokens, hFront, rfl⟩

end BoundQuery.Placeholder
