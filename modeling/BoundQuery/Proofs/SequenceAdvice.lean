import BoundQuery.Diagnostic
import BoundQuery.Proofs.HavingNumbers
import BoundQuery.Proofs.Placeholder.Joined
import BoundQuery.Proofs.Placeholder.Offsets

/-!
# Advice on numbers out of sequence

A HAVING text is refused for its first placeholder that skips the next new number, and the
diagnostic says what to write instead: a question mark without a number, the next number, or a
number of a value that is bound already. A question mark with other digits behind it is cut just as
the one that it replaces (`WellCut.remarked`), so the edited text has the same placeholders up to
that one, the advised one there, and the same ones behind it, further on or back by some bytes. What
is advised does not skip, so the text then goes through, or takes another number of values than
there are, or is refused for a placeholder behind that one (`advice_of_outOfSequence`).
-/

namespace BoundQuery

namespace Placeholder

/-! ## Another placeholder in the same place -/

/-- What follows the question mark makes no difference to what comes before it. -/
theorem stops_mark {p : Char → Bool} {front cs : List Char} (h : Stops p (front ++ '?' :: cs))
    (other : List Char) : Stops p (front ++ '?' :: other) := by
  cases front with
  | nil => exact stops_cons (h '?' rfl)
  | cons c rest => exact stops_cons (h c rfl)

/-- A positional placeholder may be written with other digits. -/
theorem WellCut.remarked {quoted afterColon : Bool} {front back : List Segment}
    {number : Option Nat} {spelling digits : List Char}
    (h : WellCut quoted afterColon (front ++ .marker (.positional number) spelling :: back))
    (hDigits : digits.all Text.isDigit = true) :
    WellCut quoted afterColon
      (front ++ .marker (.positional (number? digits)) ('?' :: digits) :: back) := by
  obtain ⟨written, rfl⟩ : ∃ written, spelling = '?' :: written := by
    obtain ⟨colon, hSpells⟩ := h.spells
    cases hSpells with
    | positional _ written => exact ⟨written, rfl⟩
  have hStops : ∀ (p : Char → Bool) (rest : List Segment),
      Stops p (spelled (rest ++ .marker (.positional number) ('?' :: written) :: back)) →
        Stops p
          (spelled (rest ++ .marker (.positional (number? digits)) ('?' :: digits) :: back)) := by
    intro p rest hBefore
    rw [spelled_append] at hBefore ⊢
    exact stops_mark hBefore _
  induction front generalizing quoted afterColon with
  | nil =>
      obtain ⟨hClosed, -, hBehind, hRest⟩ := h
      exact ⟨hClosed, .positional afterColon digits hDigits, hBehind, hRest⟩
  | cons part rest ih =>
      cases part with
      | plain c =>
          obtain ⟨hBare, hRest⟩ := wellCut_plain_cons.mp h
          exact wellCut_plain_cons.mpr ⟨hBare.imp (hStops isNameChar rest), ih hRest⟩
      | marker kind other =>
          obtain ⟨hClosed, hSpells, hBehind, hRest⟩ := h
          exact ⟨hClosed, hSpells, hStops kind.takes rest hBehind, ih hRest⟩

/-- A placeholder of segments, what is found in front of it and what is found behind it. -/
theorem located_eq_append_cons {start : Nat} {parts : List Segment} {front rest : List Placeholder}
    {token : Placeholder} (h : located start parts = front ++ token :: rest) :
    ∃ before spelling behind, parts = before ++ .marker token.kind spelling :: behind ∧
      located start before = front ∧
      token.span.start = start + Text.byteLength (spelled before) ∧
      token.span.stop = token.span.start + Text.byteLength spelling ∧
      located token.span.stop behind = rest := by
  induction parts generalizing start front with
  | nil => exact absurd h (by simp [located])
  | cons part more ih =>
      cases part with
      | plain c =>
          obtain ⟨before, spelling, behind, rfl, hFront, hStart, hStop, hRest⟩ := ih h
          refine ⟨.plain c :: before, spelling, behind, rfl, hFront, ?_, hStop, hRest⟩
          rw [hStart, spelled_cons, Text.byteLength_append, Nat.add_assoc]
          rfl
      | marker kind spelling =>
          cases front with
          | nil =>
              obtain ⟨rfl, rfl⟩ := List.cons.inj h
              exact ⟨[], spelling, more, rfl, rfl, rfl, rfl, rfl⟩
          | cons first front =>
              obtain ⟨hFirst, hLater⟩ := List.cons.inj h
              obtain ⟨before, later, behind, rfl, hFront, hStart, hStop, hRest⟩ := ih hLater
              refine ⟨.marker kind spelling :: before, later, behind, rfl, ?_, ?_, hStop, hRest⟩
              · rw [located, hFirst, hFront]
              · rw [hStart, spelled_cons, Text.byteLength_append, Nat.add_assoc]
                rfl

/-! ## Counting through an edited placeholder -/

theorem reached_append (next : Nat) (front back : List Kind) :
    reached next (front ++ back) = reached (reached next front) back := List.foldl_append

theorem le_reached (next : Nat) (list : List Kind) : next ≤ reached next list := by
  induction list generalizing next with
  | nil => exact Nat.le_refl next
  | cons kind rest ih => exact Nat.le_trans (le_advance next kind) (ih _)

theorem inSequence_append {next : Nat} {front back : List Kind} :
    InSequence next (front ++ back) ↔
      InSequence next front ∧ InSequence (reached next front) back := by
  induction front generalizing next with
  | nil => exact ⟨fun h => ⟨inSequence_nil next, h⟩, fun h => h.2⟩
  | cons kind rest ih =>
      rw [List.cons_append, inSequence_cons, inSequence_cons, ih, and_assoc]
      rfl

/-- Behind placeholders that are in sequence, the first that skips is one of those that follow. -/
theorem FirstSkip.behind {next expected number : Nat} {front rest : List Placeholder}
    {token : Placeholder} (hFront : InSequence next (front.map (·.kind)))
    (h : FirstSkip (reached next (front.map (·.kind))) rest token expected number) :
    FirstSkip next (front ++ rest) token expected number := by
  obtain ⟨middle, hComes, hMiddle, rfl, hSkips⟩ := h
  have hReached : reached (reached next (front.map (·.kind))) (middle.map (·.kind)) =
      reached next ((front ++ middle).map (·.kind)) := by
    rw [List.map_append, reached_append]
  refine ⟨front ++ middle, ?_, ?_, hReached, hSkips⟩
  · rw [List.append_assoc]
    exact (List.prefix_append_right_inj front).mpr hComes
  · rw [List.map_append]
    exact inSequence_append.mpr ⟨hFront, hMiddle⟩

/-- What may be written in the place of a placeholder when `expected` is the next new number. -/
inductive Advised (expected : Nat) : String → Prop
  | bare : Advised expected "?"
  | numbered (number : Nat) (hPositive : 1 ≤ number) (hBound : number ≤ expected) :
      Advised expected (positionalText number)

/-- What is advised is a question mark with digits, perhaps none, and does not skip. -/
theorem Advised.exists_digits {expected : Nat} {advised : String} (h : Advised expected advised) :
    ∃ digits, advised.toList = '?' :: digits ∧ digits.all Text.isDigit = true ∧
      ∀ number, ¬ (Kind.positional (number? digits)).Skips expected number := by
  cases h with
  | bare => exact ⟨[], rfl, rfl, fun number hSkips => absurd hSkips.1 (by simp [number?])⟩
  | numbered number hPositive hBound =>
      refine ⟨Nat.toDigits 10 number, toList_positionalText number,
        Text.all_isDigit_toDigits number, fun other hSkips => ?_⟩
      obtain ⟨hKind, hNumber⟩ := hSkips
      rw [number?_toDigits, Kind.positional.injEq, Option.some.injEq] at hKind
      have hLow := carried_pos hPositive
      have hHigh := carried_le number
      omega

/-! ## The edited text -/

/-- A text with other digits behind the question mark of one of its positional placeholders: the
bytes around it are kept, so are the placeholders in front of it, and those behind it are still
behind it. -/
theorem exists_edited {text : String} {front rest : List Placeholder} {token : Placeholder}
    {number : Option Nat} (hComes : placeholders text = front ++ token :: rest)
    (hKind : token.kind = .positional number) {digits : List Char}
    (hDigits : digits.all Text.isDigit = true) :
    ∃ edited there behind,
      Text.bytes edited =
        Text.spliced (Text.bytes text) 0 [(token.span, String.ofList ('?' :: digits))] ∧
      placeholders edited = front ++ there :: behind ∧
      there.kind = .positional (number? digits) ∧
      ∀ later ∈ behind, token.span.start < later.span.start := by
  obtain ⟨before, spelling, more, hParts, hFront, hStart, hStop, hRest⟩ :=
    located_eq_append_cons hComes
  have hCut := wellCut_scan false false 0 text.toList
  rw [show scan false false 0 text.toList = segments text from rfl, hParts, hKind] at hCut
  have hEdited := scan_spelled (hCut.remarked hDigits)
  have hText : text.toList = spelled before ++ (spelling ++ spelled more) := by
    rw [← spelled_segments, hParts, spelled_append, spelled_cons]
    rfl
  rw [Nat.zero_add] at hStart
  have hBytes : Text.bytes (String.ofList (spelled before ++ (('?' :: digits) ++ spelled more))) =
      Text.spliced (Text.bytes text) 0 [(token.span, String.ofList ('?' :: digits))] := by
    have hEnd : token.span.stop = Text.byteLength (spelled before ++ spelling) := by
      rw [hStop, hStart, Text.byteLength_append]
    rw [Text.spliced, Text.spliced, List.drop_zero, Nat.sub_zero, hEnd, hStart,
      Text.bytes_eq_encoded text, hText, take_encoded,
      ← List.append_assoc (spelled before) spelling,
      drop_encoded, Text.bytes_eq_encoded, Text.bytes_eq_encoded, String.toList_ofList,
      String.toList_ofList, Text.encoded_append, Text.encoded_append, List.append_assoc]
  have hSegments : segments (String.ofList (spelled before ++ (('?' :: digits) ++ spelled more))) =
      before ++ .marker (.positional (number? digits)) ('?' :: digits) :: more := by
    rw [segments, String.toList_ofList, ← hEdited, spelled_append, spelled_cons]
    rfl
  refine ⟨_, ⟨.positional (number? digits), token.span.start,
    token.span.start + Text.byteLength ('?' :: digits)⟩,
    located (token.span.start + Text.byteLength ('?' :: digits)) more, hBytes, ?_, rfl, ?_⟩
  · rw [placeholders, hSegments, located_append, hFront, Nat.zero_add, ← hStart, located]
  · intro later hLater
    obtain ⟨between, -, -, -, hLaterStart, -⟩ := mem_located hLater
    have hPositive : 0 < Text.byteLength ('?' :: digits) :=
      Nat.add_pos_left (Char.utf8Size_pos '?') _
    omega

/-- The text under the span of a numbered placeholder. -/
theorem slice_of_comes {text : String} {front rest : List Placeholder} {span : Span} {number : Nat}
    (hComes : placeholders text = front ++ ⟨.positional (some number), span⟩ :: rest) :
    ∃ digits, span.slice text = String.ofList ('?' :: digits) ∧ digits ≠ [] ∧
      digits.all Text.isDigit = true ∧ number = min (Text.digitsValue digits) largestNumber := by
  obtain ⟨before, spelling, more, hParts, -, hStart, hStop, -⟩ := located_eq_append_cons hComes
  have hCut := wellCut_scan false false 0 text.toList
  rw [show scan false false 0 text.toList = segments text from rfl, hParts] at hCut
  have hText : text = String.ofList (spelled before ++ (spelling ++ spelled more)) := by
    rw [← spelling_segments text, hParts, spelled_append, spelled_cons]
    rfl
  obtain ⟨start, stop⟩ := span
  rw [Nat.zero_add] at hStart
  obtain ⟨colon, hSpells⟩ := hCut.spells
  generalize hKind : Kind.positional (some number) = kind at hSpells
  cases hSpells with
  | named name => exact absurd hKind (by simp)
  | positional _ digits hDigits =>
      have hNumber : number? digits = some number := (Kind.positional.inj hKind).symm
      have hNonempty : digits ≠ [] := by
        rintro rfl
        exact absurd hNumber (by simp [number?])
      rw [number?, if_neg (by simpa using hNonempty), Option.some.injEq] at hNumber
      refine ⟨digits, ?_, hNonempty, hDigits, hNumber.symm⟩
      rw [show stop = start + Text.byteLength ('?' :: digits) from hStop,
        show start = Text.byteLength (spelled before) from hStart, hText, Span.slice_append]

end Placeholder

open Placeholder (Advised FirstSkip InSequence reached)

namespace Snippet

/-- The outcome of a HAVING text with plain values that is written behind some values. -/
def havingOutcome (text : String) (values bound : List Value) : Except Fault (String × Bindings) :=
  (writeHaving text (values.map .value)).finish (.positional bound)

/-- A HAVING text is not refused for a placeholder that is in sequence or comes before one. -/
theorem outcome_of_inSequence {text : String} {values bound : List Value} {front : List Placeholder}
    {token : Placeholder} {rest : List Placeholder} (hValues : values ≠ [])
    (hComes : placeholders text = front ++ token :: rest)
    (hFront : InSequence (bound.length + 1) (front.map (·.kind)))
    (hToken : ∀ number,
      ¬ token.kind.Skips (reached (bound.length + 1) (front.map (·.kind))) number) :
    (∃ result, havingOutcome text values bound = .ok result) ∨
      (∃ fault, havingOutcome text values bound = .error fault ∧ fault.code = .miscount) ∨
      ∃ later ∈ rest, ∃ expected number,
        havingOutcome text values bound =
          .error (.outOfSequence text expected number later.span) := by
  have hThrough : InSequence (bound.length + 1) ((front ++ [token]).map (·.kind)) := by
    rw [List.map_append]
    exact Placeholder.inSequence_append.mpr
      ⟨hFront, Placeholder.inSequence_cons.mpr ⟨hToken, Placeholder.inSequence_nil _⟩⟩
  have hSplit : placeholders text = (front ++ [token]) ++ rest := by
    rw [hComes, List.append_assoc, List.singleton_append]
  rcases inSequence_or_firstSkip
    (reached (bound.length + 1) ((front ++ [token]).map (·.kind))) rest with
    hRest | ⟨later, expected, number, hSkip⟩
  · have hAll : InSequence (bound.length + 1) (Placeholder.kinds text) := by
      rw [Placeholder.kinds, hSplit, List.map_append]
      exact Placeholder.inSequence_append.mpr ⟨hThrough, hRest⟩
    have hOutcome := finish_having_of_inSequence hValues bound hAll
    split at hOutcome
    · exact .inl ⟨_, hOutcome⟩
    · exact .inr (.inl ⟨_, hOutcome, rfl⟩)
  · have hFirst := hSkip.behind hThrough
    rw [← hSplit] at hFirst
    have hLater : later ∈ rest := by
      obtain ⟨middle, hComes, -⟩ := hSkip
      exact hComes.subset (List.mem_append_right middle (.head _))
    exact .inr (.inr ⟨later, hLater, expected, number,
      finish_having_of_firstSkip hValues bound hFirst⟩)

/-- A HAVING text that is refused for a number out of sequence names the first placeholder that
skips, which is spelled as a question mark with that number; the advice on it holds good. With what
is advised in its place, the text goes through with the same values behind the same values, or takes
another number of values, or is refused for a placeholder further on. -/
theorem advice_of_outOfSequence {text : String} {values bound : List Value} {fault : Fault}
    (hError : havingOutcome text values bound = .error fault)
    (hCode : fault.code = .outOfSequence) :
    ∃ expected number span, fault = .outOfSequence text expected number span ∧
      fault.diagnostic.span = some span ∧
      fault.diagnostic.help = some (Fault.sequenceAdvice expected) ∧
      (∃ digits, span.slice text = String.ofList ('?' :: digits) ∧ digits ≠ [] ∧
        digits.all Text.isDigit = true ∧
        number = min (Text.digitsValue digits) Placeholder.largestNumber) ∧
      (number = 0 ∨ expected < number) ∧ bound.length + 1 ≤ expected ∧
      FirstSkip (bound.length + 1) (placeholders text) ⟨.positional (some number), span⟩
        expected number ∧
      ∀ advised, Advised expected advised → ∃ edited,
        Text.bytes edited = Text.spliced (Text.bytes text) 0 [(span, advised)] ∧
        ((∃ result, havingOutcome edited values bound = .ok result) ∨
          (∃ other, havingOutcome edited values bound = .error other ∧ other.code = .miscount) ∨
          ∃ expected number later,
            havingOutcome edited values bound =
              .error (.outOfSequence edited expected number later) ∧
            span.start < later.start) := by
  have hValues : values ≠ [] := by
    rintro rfl
    exact absurd hError (by simp [havingOutcome, writeHaving])
  obtain ⟨⟨kind, span⟩, expected, number, hSkip, rfl⟩ :=
    (having_outOfSequence_iff hValues bound).mp ⟨hError, hCode⟩
  obtain ⟨front, ⟨rest, hComes⟩, hFront, hExpected, hKind, hNumber⟩ := hSkip
  obtain rfl : kind = .positional (some number) := hKind
  have hSkip : FirstSkip (bound.length + 1) (placeholders text) ⟨.positional (some number), span⟩
      expected number := ⟨front, ⟨rest, hComes⟩, hFront, hExpected, rfl, hNumber⟩
  have hLow : bound.length + 1 ≤ expected := hExpected ▸ Placeholder.le_reached _ _
  rw [List.append_assoc, List.singleton_append] at hComes
  refine ⟨expected, number, span, rfl, rfl, rfl, Placeholder.slice_of_comes hComes.symm, hNumber,
    hLow, hSkip, fun advised hAdvised => ?_⟩
  obtain ⟨digits, hSpelled, hDigits, hStays⟩ := hAdvised.exists_digits
  obtain rfl : String.ofList ('?' :: digits) = advised := by rw [← hSpelled, String.ofList_toList]
  obtain ⟨edited, there, behind, hBytes, hEdited, hThere, hBehind⟩ :=
    Placeholder.exists_edited hComes.symm rfl hDigits
  have hToken : ∀ number,
      ¬ there.kind.Skips (reached (bound.length + 1) (front.map (·.kind))) number := by
    rw [hThere, ← hExpected]
    exact hStays
  refine ⟨edited, hBytes, ?_⟩
  rcases outcome_of_inSequence hValues hEdited hFront hToken with
    hOk | hMiscount | ⟨later, hLater, expected, number, hRefused⟩
  · exact .inl hOk
  · exact .inr (.inl hMiscount)
  · exact .inr (.inr ⟨expected, number, later.span, hRefused, hBehind later hLater⟩)

/-- A number that skips one value, behind a placeholder without number and one bound value. -/
theorem advice_of_outOfSequence_skipping :
    havingOutcome "MAX(e.age) > ? AND MIN(e.age) < ?4" [.integer 1, .integer 2] [.integer 9] =
      .error (.outOfSequence "MAX(e.age) > ? AND MIN(e.age) < ?4" 3 4 ⟨32, 34⟩) ∧
    (Fault.outOfSequence "MAX(e.age) > ? AND MIN(e.age) < ?4" 3 4 ⟨32, 34⟩).code = .outOfSequence ∧
    Advised 3 "?3" ∧
    ∃ edited,
      Text.bytes edited =
        Text.spliced (Text.bytes "MAX(e.age) > ? AND MIN(e.age) < ?4") 0 [(⟨32, 34⟩, "?3")] ∧
      ((∃ result, havingOutcome edited [.integer 1, .integer 2] [.integer 9] = .ok result) ∨
        (∃ other, havingOutcome edited [.integer 1, .integer 2] [.integer 9] = .error other ∧
          other.code = .miscount) ∨
        ∃ expected number later,
          havingOutcome edited [.integer 1, .integer 2] [.integer 9] =
            .error (.outOfSequence edited expected number later) ∧
          32 < later.start) := by
  have hError : havingOutcome "MAX(e.age) > ? AND MIN(e.age) < ?4" [.integer 1, .integer 2]
      [.integer 9] = .error (.outOfSequence "MAX(e.age) > ? AND MIN(e.age) < ?4" 3 4 ⟨32, 34⟩) :=
    rfl
  have hAdvised : Advised 3 "?3" := .numbered 3 (by decide) (by decide)
  obtain ⟨expected, number, span, hFault, -, -, -, -, -, -, hAdvice⟩ :=
    advice_of_outOfSequence hError rfl
  obtain ⟨-, rfl, rfl, rfl⟩ := Fault.outOfSequence.inj hFault
  exact ⟨hError, rfl, hAdvised, hAdvice "?3" hAdvised⟩

end Snippet

end BoundQuery
