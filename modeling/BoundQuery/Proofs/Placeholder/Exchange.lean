import BoundQuery.Proofs.Placeholder.Scan
import BoundQuery.Proofs.Text.Digits

/-!
# Exchanging placeholders for numbers

The compiler rewrites caller text in three ways: one number for all positional placeholders, numbers
that count upwards, and a list of numbers for the placeholders that have none. All three are an
`exchange` of the segments of the text by a list of answers, one for each placeholder.
`scan_exchange` says that scanning the rewritten text finds exactly the exchanged segments: no
number merges with the digits after it, and no literal or cast changes its reading.
-/

namespace BoundQuery.Placeholder

/-! ## The spelling of a number -/

/-- The number that a placeholder written for `n` carries when it is read. -/
def carried (n : Nat) : Nat := min n largestNumber

theorem largestNumber_pos : 0 < largestNumber := by decide

theorem toList_positionalText (n : Nat) :
    (positionalText n).toList = '?' :: Nat.toDigits 10 n := by
  simp [positionalText]

theorem number?_toDigits (n : Nat) : number? (Nat.toDigits 10 n) = some (carried n) := by
  simp [number?, Text.digitsValue_toDigits, carried, Nat.toDigits_ne_nil]

theorem spells_positionalText (afterColon : Bool) (n : Nat) :
    Spells afterColon (.positional (some (carried n))) (positionalText n).toList := by
  rw [toList_positionalText, ← number?_toDigits]
  exact .positional afterColon _ (Text.all_isDigit_toDigits n)

/-- The placeholder that is written for a number. -/
def Segment.numbered (n : Nat) : Segment :=
  .marker (.positional (some (carried n))) (positionalText n).toList

theorem segments_positionalText (n : Nat) : segments (positionalText n) = [.numbered n] := by
  have hScan := scan_spelling_append (spells_positionalText false n) (stops_nil _)
  rwa [List.append_nil] at hScan

/-! ## The exchange -/

/-- A placeholder with an answer exchanged for it, or kept where there is none. -/
def Kind.answered (answer : Option Nat) (kind : Kind) : Kind :=
  match answer with
  | some n => .positional (some (carried n))
  | none => kind

/-- The spelling of a placeholder with an answer exchanged for it. -/
def answeredSpelling (answer : Option Nat) (spelling : List Char) : List Char :=
  match answer with
  | some n => (positionalText n).toList
  | none => spelling

/-- Segments with an answer exchanged for each placeholder; a list that runs out keeps the rest. -/
def exchange (answers : List (Option Nat)) : List Segment → List Segment
  | [] => []
  | .plain c :: rest => .plain c :: exchange answers rest
  | .marker kind spelling :: rest =>
      .marker (kind.answered (answers.headD none))
          (answeredSpelling (answers.headD none) spelling) ::
        exchange answers.tail rest

/-- An exchange changes how a text starts only from one placeholder to another. -/
theorem stops_exchange {p : Char → Bool} (hp : p '?' = false) (answers : List (Option Nat))
    {parts : List Segment} (h : Stops p (spelled parts)) :
    Stops p (spelled (exchange answers parts)) := by
  induction parts generalizing answers with
  | nil => exact h
  | cons part rest ih =>
      cases part with
      | plain c => exact stops_cons (h c rfl)
      | marker kind spelling =>
          cases hAnswer : answers.headD none with
          | some n =>
              simp only [exchange, hAnswer, answeredSpelling, spelled_cons, Segment.spelling,
                toList_positionalText]
              exact stops_cons hp
          | none =>
              simp only [exchange, hAnswer, answeredSpelling, spelled_cons, Segment.spelling]
                at h ⊢
              cases spelling with
              | nil => exact ih answers.tail h
              | cons c spelling => exact stops_cons (h c rfl)

theorem Kind.takes_mark (kind : Kind) : kind.takes '?' = false := by
  cases kind with
  | positional number => exact (by decide : Text.isDigit '?' = false)
  | named name => exact (by decide : isNameChar '?' = false)

theorem Kind.takes_of_isDigit (kind : Kind) {c : Char} (h : Text.isDigit c = true) :
    kind.takes c = true := by
  cases kind with
  | positional number => exact h
  | named name => exact isNameChar_of_isDigit h

theorem spells_answered {afterColon : Bool} {kind : Kind} {spelling : List Char}
    (h : Spells afterColon kind spelling) (answer : Option Nat) :
    Spells afterColon (kind.answered answer) (answeredSpelling answer spelling) := by
  cases answer with
  | none => exact h
  | some n => exact spells_positionalText afterColon n

theorem WellCut.exchange {quoted afterColon : Bool} {parts : List Segment}
    (h : WellCut quoted afterColon parts) (answers : List (Option Nat)) :
    WellCut quoted afterColon (exchange answers parts) := by
  induction parts generalizing quoted afterColon answers with
  | nil => exact h
  | cons part rest ih =>
      cases part with
      | plain c =>
          obtain ⟨hBare, hRest⟩ := wellCut_plain_cons.mp h
          exact wellCut_plain_cons.mpr
            ⟨hBare.imp (stops_exchange (by decide) answers), ih hRest answers⟩
      | marker kind spelling =>
          obtain ⟨hClosed, hSpells, hStops, hRest⟩ := h
          have hKept := stops_exchange kind.takes_mark answers.tail hStops
          refine ⟨hClosed, spells_answered hSpells _, ?_, ih hRest answers.tail⟩
          cases answers.headD none with
          | none => exact hKept
          | some n => exact hKept.mono fun _ => kind.takes_of_isDigit

/-- Scanning a rewritten text finds the exchanged segments. -/
theorem scan_exchange (quoted afterColon : Bool) (cs : List Char) (answers : List (Option Nat)) :
    scan quoted afterColon 0 (spelled (exchange answers (scan quoted afterColon 0 cs))) =
      exchange answers (scan quoted afterColon 0 cs) :=
  scan_spelled ((wellCut_scan quoted afterColon 0 cs).exchange answers)

/-- An exchange opens and closes the same literals. -/
theorem WellCut.leavesOpen_exchange {quoted afterColon : Bool} {parts : List Segment}
    (h : WellCut quoted afterColon parts) (answers : List (Option Nat)) :
    leavesOpen quoted (spelled (Placeholder.exchange answers parts)) =
      leavesOpen quoted (spelled parts) := by
  induction parts generalizing quoted afterColon answers with
  | nil => rfl
  | cons part rest ih =>
      cases part with
      | plain c =>
          show leavesOpen (openAfter quoted c) (spelled (Placeholder.exchange answers rest)) =
            leavesOpen (openAfter quoted c) (spelled rest)
          exact ih (wellCut_plain_cons.mp h).2 answers
      | marker kind spelling =>
          obtain ⟨hClosed, hSpells, hStops, hRest⟩ := h
          simp only [Placeholder.exchange, spelled_cons, Segment.spelling, leavesOpen_append]
          rw [hSpells.leavesOpen, (spells_answered hSpells _).leavesOpen, hClosed]
          exact ih hRest answers.tail

/-! ## What the placeholders of a text refer to -/

/-- What the placeholders of a text refer to, in order. -/
def kinds (text : String) : List Kind := (placeholders text).map (·.kind)

theorem map_kind_located (start : Nat) (parts : List Segment) :
    (located start parts).map (·.kind) = parts.filterMap Segment.kind? := by
  induction parts generalizing start with
  | nil => rfl
  | cons part rest ih =>
      cases part with
      | plain c => exact ih _
      | marker kind spelling => exact congrArg (kind :: ·) (ih _)

theorem kinds_eq (text : String) : kinds text = (segments text).filterMap Segment.kind? :=
  map_kind_located 0 _

/-- Whether a text closes every literal that it opens. -/
def Closed (text : String) : Prop := leavesOpen false text.toList = false

/-- A text with closed literals is scanned apart from a text that does not continue it. -/
theorem segments_append {front back : String} (hClosed : Closed front)
    (hApart : Apart back.toList) : segments (front ++ back) = segments front ++ segments back := by
  simp only [segments, String.toList_append]
  rw [scan_append _ _ _ hApart, hClosed]

theorem kinds_append {front back : String} (hClosed : Closed front)
    (hApart : Apart back.toList) : kinds (front ++ back) = kinds front ++ kinds back := by
  simp only [kinds_eq, segments_append hClosed hApart, List.filterMap_append]

theorem filterMap_kind?_plain (cs : List Char) :
    (cs.map Segment.plain).filterMap Segment.kind? = [] := by
  simp [List.filterMap_map, Segment.kind?, Function.comp_def]

theorem segments_quiet_append {front : String} (h : Quiet front.toList) (back : String) :
    segments (front ++ back) = front.toList.map .plain ++ segments back := by
  rw [segments, String.toList_append, scan_quiet_append h]
  rfl

/-- A quiet text has no placeholders and changes none of those after it. -/
theorem kinds_quiet_append {front : String} (h : Quiet front.toList) (back : String) :
    kinds (front ++ back) = kinds back := by
  simp only [kinds_eq, segments_quiet_append h, List.filterMap_append, filterMap_kind?_plain,
    List.nil_append]

theorem kinds_quiet {text : String} (h : Quiet text.toList) : kinds text = [] := by
  simp only [kinds_eq, segments, scan_quiet h, filterMap_kind?_plain]

theorem names_eq (text : String) : names text = (kinds text).filterMap Kind.name? := by
  rw [names, kinds, List.filterMap_map]
  rfl

theorem firstName?_of_quiet {text : String} (h : Quiet text.toList) : firstName? text = none := by
  rw [firstName?, names_eq, kinds_quiet h]
  rfl

theorem Closed.append {front back : String} (hFront : Closed front) (hBack : Closed back) :
    Closed (front ++ back) := by
  simp only [Closed, String.toList_append, leavesOpen_append] at hFront hBack ⊢
  rw [hFront, hBack]

theorem closed_of_quiet {text : String} (h : Quiet text.toList) : Closed text :=
  h.leavesOpen false

/-! ## Rewritten texts -/

/-- The text of segments with answers exchanged for its placeholders. -/
def exchanged (answers : List (Option Nat)) (text : String) : String :=
  String.ofList (spelled (exchange answers (segments text)))

/-- What placeholders refer to when answers are exchanged for them. -/
def answeredAll (answers : List (Option Nat)) : List Kind → List Kind
  | [] => []
  | kind :: rest => kind.answered (answers.headD none) :: answeredAll answers.tail rest

theorem filterMap_kind?_exchange (answers : List (Option Nat)) (parts : List Segment) :
    (exchange answers parts).filterMap Segment.kind? =
      answeredAll answers (parts.filterMap Segment.kind?) := by
  induction parts generalizing answers with
  | nil => rfl
  | cons part rest ih =>
      cases part with
      | plain c => exact ih answers
      | marker kind spelling => exact congrArg (_ :: ·) (ih answers.tail)

theorem segments_exchanged (answers : List (Option Nat)) (text : String) :
    segments (exchanged answers text) = exchange answers (segments text) := by
  simp only [exchanged, segments, String.toList_ofList]
  exact scan_exchange false false text.toList answers

theorem kinds_exchanged (answers : List (Option Nat)) (text : String) :
    kinds (exchanged answers text) = answeredAll answers (kinds text) := by
  simp only [kinds_eq, segments_exchanged, filterMap_kind?_exchange]

theorem Closed.exchanged {text : String} (h : Closed text) (answers : List (Option Nat)) :
    Closed (exchanged answers text) := by
  have hCut := wellCut_scan false false 0 text.toList
  simp only [Closed, Placeholder.exchanged, segments, String.toList_ofList] at h ⊢
  rw [hCut.leavesOpen_exchange answers, spelled_scan]
  exact h

/-- The answers of a rewriting that looks at what each placeholder refers to and carries a state. -/
def answersFrom {σ : Type} (answer : σ → Kind → Option Nat) (next : σ → Kind → σ) (state : σ) :
    List Kind → List (Option Nat)
  | [] => []
  | kind :: rest => answer state kind :: answersFrom answer next (next state kind) rest

section Substitution

variable {σ : Type} {answer : σ → Kind → Option Nat} {next : σ → Kind → σ}
  {replace : Placeholder → StateM σ (Option String)}

/-- A substitution that carries a state is an exchange. -/
theorem substituteFrom_eq_exchange
    (hReplace : ∀ placeholder state, replace placeholder state =
      ((answer state placeholder.kind).map positionalText, next state placeholder.kind))
    (start : Nat) (state : σ) (parts : List Segment) :
    (substituteFrom replace start parts state).1 =
      spelled (exchange (answersFrom answer next state (parts.filterMap Segment.kind?)) parts) := by
  induction parts generalizing start state with
  | nil => rfl
  | cons part rest ih =>
      cases part with
      | plain c => exact congrArg (c :: ·) (ih (start + c.utf8Size) state)
      | marker kind spelling =>
          have hRest := ih (start + Text.byteLength spelling) (next state kind)
          have hOne := hReplace ⟨kind, start, start + Text.byteLength spelling⟩ state
          show ((replace ⟨kind, start, start + Text.byteLength spelling⟩ state).1.map
                String.toList).getD spelling ++
              (substituteFrom replace (start + Text.byteLength spelling) rest
                (replace ⟨kind, start, start + Text.byteLength spelling⟩ state).2).1 =
            answeredSpelling (answer state kind) spelling ++ _
          rw [hOne, hRest]
          cases answer state kind <;> rfl

theorem substitute_eq_exchanged
    (hReplace : ∀ placeholder state, replace placeholder state =
      ((answer state placeholder.kind).map positionalText, next state placeholder.kind))
    (state : σ) (text : String) :
    (substitute replace text state).1 =
      exchanged (answersFrom answer next state (kinds text)) text := by
  rw [kinds_eq]
  exact congrArg String.ofList (substituteFrom_eq_exchange hReplace 0 state (segments text))

end Substitution

/-- A substitution without a state is an exchange too. -/
theorem substituteFrom_id {replace : Placeholder → Option String} {answer : Kind → Option Nat}
    (hReplace : ∀ placeholder, replace placeholder = (answer placeholder.kind).map positionalText)
    (start : Nat) (parts : List Segment) :
    Id.run (substituteFrom (fun placeholder => pure (replace placeholder)) start parts) =
      spelled (exchange ((parts.filterMap Segment.kind?).map answer) parts) := by
  induction parts generalizing start with
  | nil => rfl
  | cons part rest ih =>
      cases part with
      | plain c => exact congrArg (c :: ·) (ih (start + c.utf8Size))
      | marker kind spelling =>
          have hOne := hReplace ⟨kind, start, start + Text.byteLength spelling⟩
          show ((replace ⟨kind, start, start + Text.byteLength spelling⟩).map
                String.toList).getD spelling ++
              Id.run (substituteFrom (fun placeholder => pure (replace placeholder))
                (start + Text.byteLength spelling) rest) =
            answeredSpelling (answer kind) spelling ++ _
          rw [hOne, ih (start + Text.byteLength spelling)]
          cases answer kind <;> rfl

/-! ## Positional placeholders -/

/-- The number of a positional placeholder, if it carries one. -/
def Kind.number? : Kind → Option (Option Nat)
  | .positional number => some number
  | .named _ => none

/-- What the positional placeholders of a text carry, in order. -/
def numbers (text : String) : List (Option Nat) := (kinds text).filterMap Kind.number?

theorem numbers_append {front back : String} (hClosed : Closed front)
    (hApart : Apart back.toList) : numbers (front ++ back) = numbers front ++ numbers back := by
  rw [numbers, kinds_append hClosed hApart, List.filterMap_append, numbers, numbers]

theorem numbers_quiet_append {front : String} (h : Quiet front.toList) (back : String) :
    numbers (front ++ back) = numbers back := by
  rw [numbers, kinds_quiet_append h, numbers]

theorem numbers_quiet {text : String} (h : Quiet text.toList) : numbers text = [] := by
  rw [numbers, kinds_quiet h, List.filterMap_nil]

theorem countP_isPositional (list : List Kind) :
    list.countP (·.isPositional) = (list.filterMap Kind.number?).length := by
  induction list with
  | nil => rfl
  | cons kind rest ih =>
      cases kind with
      | positional number => simpa [Kind.isPositional, Kind.number?] using ih
      | named name => exact ih

theorem positionalCount_eq (text : String) : positionalCount text = (numbers text).length := by
  rw [positionalCount, numbers, kinds, ← countP_isPositional, List.countP_map]
  rfl

theorem hasPositional_eq (text : String) : hasPositional text = decide (numbers text ≠ []) := by
  have hCount : hasPositional text = decide (0 < positionalCount text) := by
    rw [hasPositional, positionalCount, Bool.eq_iff_iff]
    simp [List.countP_pos_iff]
  rw [hCount, positionalCount_eq]
  simp [List.length_pos_iff]

theorem hasPositional_of_quiet {text : String} (h : Quiet text.toList) :
    hasPositional text = false := by
  rw [hasPositional_eq, numbers_quiet h]
  rfl

/-! ### One number for all -/

/-- The answers that give one number to all positional placeholders. -/
def sameAnswer (number : Nat) (kind : Kind) : Option Nat :=
  if kind.isPositional then some number else none

theorem renumber_eq_exchanged (text : String) (number : Nat) :
    renumber text number = exchanged ((kinds text).map (sameAnswer number)) text := by
  rw [kinds_eq]
  refine congrArg String.ofList (substituteFrom_id (fun placeholder => ?_) 0 (segments text))
  unfold sameAnswer
  split <;> rfl

theorem filterMap_answeredAll_same (number : Nat) (list : List Kind) :
    (answeredAll (list.map (sameAnswer number)) list).filterMap Kind.number? =
      (list.filterMap Kind.number?).map fun _ => some (carried number) := by
  induction list with
  | nil => rfl
  | cons kind rest ih =>
      cases kind with
      | positional old => exact congrArg (_ :: ·) ih
      | named name => exact ih

theorem numbers_renumber (text : String) (number : Nat) :
    numbers (renumber text number) = (numbers text).map fun _ => some (carried number) := by
  rw [numbers, renumber_eq_exchanged, kinds_exchanged]
  exact filterMap_answeredAll_same number (kinds text)

theorem Closed.renumber {text : String} (h : Closed text) (number : Nat) :
    Closed (renumber text number) := by
  rw [renumber_eq_exchanged]
  exact h.exchanged _

/-! ### Numbers that count upwards -/

/-- The answer of a rewriting that counts upwards, and the count after it. -/
def countAnswer (count : Nat) (kind : Kind) : Option Nat :=
  if kind.isPositional then some count else none

def countNext (count : Nat) (kind : Kind) : Nat :=
  if kind.isPositional then count + 1 else count

theorem numberFrom_eq_exchanged (text : String) (first : Nat) :
    numberFrom text first =
      exchanged (answersFrom countAnswer countNext first (kinds text)) text := by
  refine substitute_eq_exchanged (fun placeholder count => ?_) first text
  unfold countAnswer countNext
  cases placeholder.kind <;> rfl

theorem filterMap_answeredAll_count (first : Nat) (list : List Kind) :
    (answeredAll (answersFrom countAnswer countNext first list) list).filterMap Kind.number? =
      (List.range' first (list.filterMap Kind.number?).length).map
        fun number => some (carried number) := by
  induction list generalizing first with
  | nil => rfl
  | cons kind rest ih =>
      cases kind with
      | positional old => exact congrArg (_ :: ·) (ih (first + 1))
      | named name => exact ih first

theorem numbers_numberFrom (text : String) (first : Nat) :
    numbers (numberFrom text first) =
      (List.range' first (numbers text).length).map fun number => some (carried number) := by
  rw [numbers, numberFrom_eq_exchanged, kinds_exchanged]
  exact filterMap_answeredAll_count first (kinds text)

theorem Closed.numberFrom {text : String} (h : Closed text) (first : Nat) :
    Closed (numberFrom text first) := by
  rw [numberFrom_eq_exchanged]
  exact h.exchanged _

/-! ### Numbers for the placeholders without one -/

/-- The answer of a rewriting that gives numbers to the placeholders without one. -/
def fillAnswer (fresh : List Nat) (kind : Kind) : Option Nat :=
  if kind = .positional none then fresh.head? else none

def fillNext (fresh : List Nat) (kind : Kind) : List Nat :=
  if kind = .positional none then fresh.tail else fresh

theorem fillNumbers_eq_exchanged (text : String) (fresh : List Nat) :
    fillNumbers text fresh =
      exchanged (answersFrom fillAnswer fillNext fresh (kinds text)) text := by
  refine substitute_eq_exchanged (fun placeholder fresh => ?_) fresh text
  unfold fillAnswer fillNext
  rcases placeholder with ⟨(_ | number) | name, span⟩
  · cases fresh <;> rfl
  · rfl
  · rfl

/-- Positional placeholders with numbers filled in where there are none. -/
def filled (fresh : List Nat) : List (Option Nat) → List (Option Nat)
  | [] => []
  | some number :: rest => some number :: filled fresh rest
  | none :: rest => fresh.head?.map carried :: filled fresh.tail rest

theorem filterMap_answeredAll_fill (fresh : List Nat) (list : List Kind) :
    (answeredAll (answersFrom fillAnswer fillNext fresh list) list).filterMap Kind.number? =
      filled fresh (list.filterMap Kind.number?) := by
  induction list generalizing fresh with
  | nil => rfl
  | cons kind rest ih =>
      rcases kind with (_ | number) | name
      · cases fresh with
        | nil => exact congrArg (none :: ·) (ih [])
        | cons number fresh => exact congrArg (some (carried number) :: ·) (ih fresh)
      · exact congrArg (some number :: ·) (ih fresh)
      · exact ih fresh

theorem numbers_fillNumbers (text : String) (fresh : List Nat) :
    numbers (fillNumbers text fresh) = filled fresh (numbers text) := by
  rw [numbers, fillNumbers_eq_exchanged, kinds_exchanged]
  exact filterMap_answeredAll_fill fresh (kinds text)

theorem Closed.fillNumbers {text : String} (h : Closed text) (fresh : List Nat) :
    Closed (fillNumbers text fresh) := by
  rw [fillNumbers_eq_exchanged]
  exact h.exchanged _

end BoundQuery.Placeholder
