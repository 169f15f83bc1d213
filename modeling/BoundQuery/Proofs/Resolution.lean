import BoundQuery.Proofs.Numbering
import BoundQuery.Proofs.Placeholder.Skeleton
import BoundQuery.Proofs.StyleFaults
import BoundQuery.Proofs.Update

/-!
# Placeholders and the parameters that they name

The text of a condition is sent along with its parameters, so every placeholder in it has to be of
their style and to refer to one of them. By position this always holds for comparisons of values and
their groups. By name it holds as far as the texts of the caller allow: a placeholder that stands in
a field or an operator without being the one that the value is bound through stays in the text as it
is, and a parameter name of other characters than those of a placeholder is read only in part.
`Piece.strays` lists these placeholders, and `resolved_iff` says that they are the only ones that
can be left without a parameter; `not_every_placeholder_resolved` shows one that is.
-/

namespace BoundQuery

open Placeholder (Apart Closed Kind Quiet carried firstName? hasPositional kinds names names_eq
  namedText positionalText renumber)

/-! ## What a text is read as -/

/-- A text that closes its literals and is read as these placeholders. -/
structure Reads (text : String) (found : List Kind) : Prop where
  closed : Closed text
  holds : kinds text = found

namespace Reads

variable {front back text : String} {first later : List Kind}

theorem quiet (h : Quiet text.toList) : Reads text [] :=
  ⟨Placeholder.closed_of_quiet h, Placeholder.kinds_quiet h⟩

theorem of_closed (h : Closed text) : Reads text (kinds text) := ⟨h, rfl⟩

theorem append (hFront : Reads front first) (hBack : Reads back later)
    (hApart : Apart back.toList) : Reads (front ++ back) (first ++ later) := by
  refine ⟨hFront.closed.append hBack.closed, ?_⟩
  rw [Placeholder.kinds_append hFront.closed hApart, hFront.holds, hBack.holds]

theorem quiet_append (hFront : Quiet front.toList) (hBack : Reads back later) :
    Reads (front ++ back) later := by
  refine ⟨(Placeholder.closed_of_quiet hFront).append hBack.closed, ?_⟩
  rw [Placeholder.kinds_quiet_append hFront, hBack.holds]

/-- Texts with a space between them are read one after the other. -/
theorem append_space (hFront : Reads front first) (hBack : Reads back later) :
    Reads (front ++ " " ++ back) (first ++ later) := by
  have hApart : Apart (" " ++ back).toList := by
    rw [String.toList_append]
    exact Placeholder.stops_cons (by decide)
  rw [String.append_assoc]
  exact hFront.append (hBack.quiet_append (by decide)) hApart

theorem qualify (scope : Scope) {field : String} (h : Reads field first) :
    Reads (scope.qualify field) first :=
  ⟨scope.closed_qualify h.closed, (scope.kinds_qualify field).trans h.holds⟩

theorem positionalText (n : Nat) :
    Reads (positionalText n) [.positional (some (carried n))] := by
  have hSpells := Placeholder.spells_positionalText false n
  refine ⟨hSpells.leavesOpen false, ?_⟩
  have hScan :=
    Placeholder.kinds_mark_append hSpells (show Apart "".toList from Placeholder.stops_nil _)
  rw [String.append_empty] at hScan
  rw [hScan]
  rfl

end Reads

/-! ## Texts with at most one placeholder -/

theorem kinds_of_firstName? {text name : String} (hOne : (kinds text).length ≤ 1)
    (h : firstName? text = some name) : kinds text = [.named name] := by
  rw [firstName?, names_eq] at h
  cases hKinds : kinds text with
  | nil => simp [hKinds] at h
  | cons kind rest =>
      obtain rfl : rest = [] := by simpa [hKinds] using hOne
      cases kind with
      | positional number => simp [hKinds, Kind.name?] at h
      | named other => simpa [hKinds, Kind.name?] using h

theorem kinds_of_hasPositional {text : String} (hOne : (kinds text).length ≤ 1)
    (h : hasPositional text = true) : ∃ number, kinds text = [.positional number] := by
  have hNumbers := numbers_ne_nil h
  rw [Placeholder.numbers] at hNumbers
  cases hKinds : kinds text with
  | nil => simp [hKinds] at hNumbers
  | cons kind rest =>
      obtain rfl : rest = [] := by simpa [hKinds] using hOne
      cases kind with
      | positional number => exact ⟨number, rfl⟩
      | named name => simp [hKinds, Kind.number?] at hNumbers

theorem kinds_eq_nil {text : String} (hPositional : hasPositional text = false)
    (hNames : names text = []) : kinds text = [] := by
  have hNumbers := numbers_eq_nil hPositional
  rw [Placeholder.numbers] at hNumbers
  rw [names_eq] at hNames
  cases hKinds : kinds text with
  | nil => rfl
  | cons kind rest =>
      cases kind with
      | positional number => simp [hKinds, Kind.number?] at hNumbers
      | named name => simp [hKinds, Kind.name?] at hNames

/-- The only placeholder of a text with the number of a value. -/
theorem Reads.renumber {text : String} {number : Option Nat} (n : Nat)
    (h : Reads text [.positional number]) :
    Reads (renumber text n) [.positional (some (carried n))] := by
  refine ⟨h.closed.renumber n, ?_⟩
  rw [Placeholder.renumber_eq_exchanged, Placeholder.kinds_exchanged, h.holds]
  rfl

/-! ## Comparisons of values and their groups -/

/-- Texts of a comparison with closed literals and at most one placeholder each. -/
structure Comparison.Tidy (field operator : String) : Prop where
  fieldEven : EvenQuotes field
  operatorEven : EvenQuotes operator
  fieldOnce : (kinds field).length ≤ 1
  operatorOnce : (kinds operator).length ≤ 1

/-- The pieces of comparisons of values and their groups, with tidy texts: conjunctions hold no
placeholder, and a parameter name closes its literals. -/
def Piece.Tidy : Piece → Prop
  | .word _ => True
  | .phrase text => EvenQuotes text ∧ kinds text = []
  | .null column operator _ =>
      Comparison.Tidy column.text (Comparison.operatorText operator)
  | .scalar column operator _ name =>
      Comparison.Tidy column.text (Comparison.operatorText operator) ∧
        ∀ phrase ∈ name, EvenQuotes phrase.text
  | .field _ | .sub .. | .having .. | .literal _ | .value _ | .mapping _ | .assigned .. |
    .stop _ => False

/-- The placeholders in the texts of a comparison through which its value is not bound by name;
`added` are those that it writes itself. -/
def Comparison.strays (field operator : String) (added : List Kind) : List Kind :=
  match firstName? field, firstName? operator with
  | some _, _ => []
  | none, some _ => kinds field
  | none, none => kinds field ++ kinds operator ++ added

/-- The placeholders of a piece that refer, by name, to something else than the value bound
there. -/
def Piece.strays : Piece → List Kind
  | .null column operator _ =>
      Comparison.strays column.text (Comparison.operatorText operator) []
  | .scalar column operator _ name =>
      let key := Comparison.parameterName column name
      Comparison.strays column.text (Comparison.operatorText operator)
        ((kinds (Placeholder.namedText key)).filter (· ≠ .named key))
  | _ => []

theorem Comparison.Tidy.reads {field operator : String} (h : Comparison.Tidy field operator) :
    Reads field (kinds field) ∧ Reads operator (kinds operator) :=
  ⟨.of_closed h.fieldEven.closed, .of_closed h.operatorEven.closed⟩

/-- A comparison with null without a placeholder of its own is read as its field and operator. -/
theorem Reads.nullText (scope : Scope) {field operator : String}
    (h : Comparison.Tidy field operator) :
    Reads (Comparison.nullText scope field operator) (kinds field ++ kinds operator) := by
  have hField := h.reads.1.qualify scope
  have hWords : ∀ words : String, Quiet words.toList →
      Reads (scope.qualify field ++ (" " ++ words)) (kinds field) := by
    intro words hQuiet
    have hBoth := hField.append_space (.quiet hQuiet)
    rwa [List.append_nil, String.append_assoc] at hBoth
  unfold Comparison.nullText
  split
  · next hEqual =>
      have hNone : kinds operator = [] := by
        rw [hEqual]
        exact Placeholder.kinds_quiet (by decide)
      rw [hNone, List.append_nil]
      exact hWords "IS NULL" (by decide)
  · split
    · next hUnequal =>
        have hNone : kinds operator = [] := by
          simp only [Bool.or_eq_true, decide_eq_true_eq] at hUnequal
          rcases hUnequal with rfl | rfl
          · exact Placeholder.kinds_quiet (by decide)
          · exact Placeholder.kinds_quiet (by decide)
        rw [hNone, List.append_nil]
        exact hWords "IS NOT NULL" (by decide)
    · have hNull : Reads (operator ++ " " ++ "NULL") (kinds operator ++ []) :=
        h.reads.2.append_space (.quiet (by decide))
      have hBoth := hField.append_space hNull
      have hText : scope.qualify field ++ (" " ++ operator ++ " NULL") =
          scope.qualify field ++ " " ++ (operator ++ " " ++ "NULL") := by
        simp only [String.append_assoc]
        rfl
      rw [hText]
      rwa [List.append_nil] at hBoth

/-! ## By position -/

/-- A placeholder that carries the number of one of the first `high` values. -/
def Placeholder.Kind.InRange (high : Nat) (kind : Kind) : Prop :=
  ∃ number, kind = .positional (some number) ∧ 1 ≤ number ∧ number ≤ high

theorem Placeholder.inRange_carried (size : Nat) :
    (Kind.positional (some (carried (size + 1)))).InRange (size + 1) :=
  ⟨_, rfl, Placeholder.carried_pos (Nat.succ_pos size), Placeholder.carried_le _⟩

theorem Placeholder.Kind.InRange.mono {low high : Nat} {kind : Kind} (h : kind.InRange low)
    (hLe : low ≤ high) : kind.InRange high := by
  obtain ⟨number, rfl, hPositive, hBound⟩ := h
  exact ⟨number, rfl, hPositive, Nat.le_trans hBound hLe⟩

/-- A text that is read as placeholders of the first `high` values. -/
def ReadsInRange (high : Nat) (text : String) : Prop :=
  ∃ found, Reads text found ∧ ∀ kind ∈ found, kind.InRange high

theorem ReadsInRange.none {text : String} (high : Nat) (h : Reads text []) :
    ReadsInRange high text :=
  ⟨[], h, fun _ hKind => absurd hKind List.not_mem_nil⟩

theorem ReadsInRange.one {text : String} {size : Nat}
    (h : Reads text [.positional (some (carried (size + 1)))]) :
    ReadsInRange (size + 1) text := by
  refine ⟨_, h, fun kind hKind => ?_⟩
  obtain rfl := List.mem_singleton.mp hKind
  exact Placeholder.inRange_carried size

/-- A comparison without names binds its value through the only placeholder that it is read as. -/
theorem Comparison.readsInRange_placed {scope : Scope} {size : Nat} {field operator text : String}
    {value : Value} {plain : String × List Value} {more : List Value}
    (hTidy : Comparison.Tidy field operator) (hField : names field = [])
    (hOperator : names operator = [])
    (hPlain : Reads field [] → Reads operator [] → ReadsInRange (size + plain.2.length) plain.1)
    (hPlaced : Comparison.placed scope size field operator value plain = (text, more)) :
    ReadsInRange (size + more.length) text := by
  obtain ⟨hReadsField, hReadsOperator⟩ := hTidy.reads
  unfold Comparison.placed at hPlaced
  split at hPlaced
  · next hPositional =>
      obtain ⟨rfl, rfl⟩ := Prod.mk.inj hPlaced
      obtain ⟨number, hOne⟩ := kinds_of_hasPositional hTidy.fieldOnce hPositional
      rw [hOne] at hReadsField
      exact .one ((hReadsField.qualify scope).renumber _)
  · next hNone =>
      have hStill : kinds field = [] := kinds_eq_nil (by simpa using hNone) hField
      rw [hStill] at hReadsField
      split at hPlaced
      · next hPositional =>
          obtain ⟨rfl, rfl⟩ := Prod.mk.inj hPlaced
          obtain ⟨number, hOne⟩ := kinds_of_hasPositional hTidy.operatorOnce hPositional
          rw [hOne] at hReadsOperator
          exact .one ((hReadsField.qualify scope).append_space (hReadsOperator.renumber _))
      · next hNoneEither =>
          have hQuietOperator : kinds operator = [] :=
            kinds_eq_nil (by simpa using hNoneEither) hOperator
          rw [hQuietOperator] at hReadsOperator
          have hBoth := hPlain hReadsField hReadsOperator
          rwa [hPlaced] at hBoth

theorem Piece.readsInRange_placed {scope : Scope} {size : Nat} {piece : Piece} {text : String}
    {more : List Value} (hTidy : piece.Tidy) (hUnnamed : piece.Unnamed)
    (hPlaced : piece.placed scope size = .ok (text, more)) :
    ReadsInRange (size + more.length) text := by
  cases piece with
  | word token =>
      obtain ⟨rfl, rfl⟩ := Prod.mk.inj (Except.ok.inj hPlaced)
      exact .none _ (.quiet token.quiet)
  | phrase text =>
      obtain ⟨rfl, rfl⟩ := Prod.mk.inj (Except.ok.inj hPlaced)
      exact .none _ ⟨hTidy.1.closed, hTidy.2⟩
  | null column operator name =>
      refine Comparison.readsInRange_placed hTidy hUnnamed.2.1 hUnnamed.2.2 ?_
        (Except.ok.inj hPlaced)
      intro hField hOperator
      have hNull := Reads.nullText scope hTidy
      rw [hField.holds, hOperator.holds] at hNull
      exact .none _ hNull
  | scalar column operator present name =>
      refine Comparison.readsInRange_placed hTidy.1 hUnnamed.2.1 hUnnamed.2.2 ?_
        (Except.ok.inj hPlaced)
      intro hField hOperator
      have hFront := (hField.qualify scope).append_space hOperator
      exact .one (hFront.append_space (.positionalText (size + 1)))
  | _ => exact hTidy.elim

/-- Pieces without names, read apart, write placeholders of the values bound so far. -/
theorem Piece.readsInRange_placedAll {scope : Scope} {size : Nat} {pieces : List Piece}
    {text : String} {more : List Value} (hTidy : ∀ piece ∈ pieces, piece.Tidy)
    (hUnnamed : ∀ piece ∈ pieces, piece.Unnamed) (hSeparated : Piece.Separated pieces)
    (hPlaced : Piece.placedAll scope size pieces = .ok (text, more)) :
    ReadsInRange (size + more.length) text := by
  induction pieces generalizing size text more with
  | nil =>
      obtain ⟨rfl, rfl⟩ := Prod.mk.inj (Except.ok.inj hPlaced)
      exact .none _ (.quiet (by decide))
  | cons piece rest ih =>
      obtain ⟨front, first, back, later, hFront, hBack, rfl, rfl⟩ :=
        Piece.placedAll_cons_eq_ok.mp hPlaced
      obtain ⟨hNext, hRest⟩ := hSeparated
      obtain ⟨foundFirst, hFirst, hFirstRange⟩ :=
        Piece.readsInRange_placed (hTidy piece (by simp)) (hUnnamed piece (by simp)) hFront
      obtain ⟨foundLater, hLater, hLaterRange⟩ :=
        ih (fun other hOther => hTidy other (by simp [hOther]))
          (fun other hOther => hUnnamed other (by simp [hOther])) hRest hBack
      rw [List.length_append, ← Nat.add_assoc]
      have hLow : size + first.length ≤ size + first.length + later.length := by omega
      have hRange : ∀ kind ∈ foundFirst ++ foundLater,
          kind.InRange (size + first.length + later.length) := by
        intro kind hKind
        rcases List.mem_append.mp hKind with hKind | hKind
        · exact (hFirstRange kind hKind).mono hLow
        · exact hLaterRange kind hKind
      rcases hNext with hWord | hOpens
      · cases piece with
        | word token =>
            obtain ⟨rfl, rfl⟩ := Prod.mk.inj (Except.ok.inj hFront)
            exact ⟨foundLater, hLater.quiet_append token.quiet, hLaterRange⟩
        | _ => exact absurd hWord Bool.false_ne_true
      · exact ⟨_, hFirst.append hLater (Piece.apart_of_placedAll hOpens hBack), hRange⟩

/-! ## By name -/

theorem Field.evenQuotes_parameterName {field : Field} (h : EvenQuotes field.text) :
    EvenQuotes field.parameterName := by
  have hCount : ∀ cs : List Char,
      (cs.map fun c => if c = '.' then '_' else c).count '\'' = cs.count '\'' := by
    intro cs
    induction cs with
    | nil => rfl
    | cons c rest ih =>
        by_cases hPoint : c = '.'
        · subst hPoint
          simpa using ih
        · simp [List.count_cons, hPoint, ih]
  rw [EvenQuotes, Field.parameterName, String.toList_ofList, hCount]
  exact h

theorem Reads.namedText {key : String} (h : EvenQuotes key) :
    Reads (namedText key) (kinds (namedText key)) := by
  refine .of_closed ?_
  have hKey := h.closed
  rw [Closed, Placeholder.namedText, String.toList_append, Placeholder.leavesOpen_append]
  exact hKey

/-- A text that, apart from the names of some pairs, is read as placeholders of a list. -/
def ReadsAs (pairs : List (String × Value)) (strays : List Kind) (text : String) : Prop :=
  ∃ found, Reads text found ∧ ∀ p : Kind → Prop, (∀ pair ∈ pairs, p (.named pair.1)) →
    ((∀ kind ∈ found, p kind) ↔ ∀ kind ∈ strays, p kind)

theorem ReadsAs.of_reads {text : String} {found : List Kind} (h : Reads text found) :
    ReadsAs [] found text :=
  ⟨found, h, fun _ _ => Iff.rfl⟩

/-- A text whose last placeholder is the name of a pair. -/
theorem ReadsAs.of_last {text name : String} {value : Value} {strays : List Kind}
    (h : Reads text (strays ++ [.named name])) : ReadsAs [(name, value)] strays text := by
  refine ⟨_, h, fun p hPair => ?_⟩
  have hName := hPair _ (.head _)
  simp only [List.mem_append, List.mem_singleton]
  constructor
  · exact fun hAll kind hKind => hAll kind (.inl hKind)
  · rintro hAll kind (hKind | rfl)
    · exact hAll kind hKind
    · exact hName

/-- A comparison binds its value through a named placeholder of its own, or else as `plain` says;
the placeholders beside that one are strays. -/
theorem Comparison.readsAs_asked {scope : Scope} {field operator text : String} {value : Value}
    {plain : String × List (String × Value)} {pairs : List (String × Value)} {added : List Kind}
    (hTidy : Comparison.Tidy field operator)
    (hPlain : ReadsAs plain.2 (kinds field ++ kinds operator ++ added) plain.1)
    (hAsked : Comparison.asked scope field operator value plain = (text, pairs)) :
    ReadsAs pairs (Comparison.strays field operator added) text := by
  obtain ⟨hReadsField, hReadsOperator⟩ := hTidy.reads
  unfold Comparison.asked at hAsked
  unfold Comparison.strays
  cases hField : firstName? field with
  | some name =>
      simp only [hField] at hAsked ⊢
      obtain ⟨rfl, rfl⟩ := Prod.mk.inj hAsked
      rw [kinds_of_firstName? hTidy.fieldOnce hField] at hReadsField
      exact .of_last (hReadsField.qualify scope)
  | none =>
      cases hOperator : firstName? operator with
      | some name =>
          simp only [hField, hOperator] at hAsked ⊢
          obtain ⟨rfl, rfl⟩ := Prod.mk.inj hAsked
          rw [kinds_of_firstName? hTidy.operatorOnce hOperator] at hReadsOperator
          exact .of_last ((hReadsField.qualify scope).append_space hReadsOperator)
      | none =>
          simp only [hField, hOperator] at hAsked ⊢
          rwa [hAsked] at hPlain

theorem Piece.readsAs_asked {scope : Scope} {dict : Dict Value} {piece : Piece} {text : String}
    {pairs : List (String × Value)} (hTidy : piece.Tidy)
    (hAsked : piece.asked scope dict = .ok (text, pairs)) :
    ReadsAs pairs piece.strays text := by
  cases piece with
  | word token =>
      obtain ⟨rfl, rfl⟩ := Prod.mk.inj (Except.ok.inj hAsked)
      exact .of_reads (.quiet token.quiet)
  | phrase text =>
      obtain ⟨rfl, rfl⟩ := Prod.mk.inj (Except.ok.inj hAsked)
      exact .of_reads ⟨hTidy.1.closed, hTidy.2⟩
  | null column operator name =>
      refine Comparison.readsAs_asked hTidy ?_ (Except.ok.inj hAsked)
      rw [List.append_nil]
      exact .of_reads (Reads.nullText scope hTidy)
  | scalar column operator present name =>
      obtain ⟨hComparison, hName⟩ := hTidy
      refine Comparison.readsAs_asked hComparison ?_ (Except.ok.inj hAsked)
      have hKey : EvenQuotes (Comparison.parameterName column name) := by
        cases name with
        | some phrase => exact hName phrase rfl
        | none => exact Field.evenQuotes_parameterName hComparison.fieldEven
      obtain ⟨hReadsField, hReadsOperator⟩ := hComparison.reads
      have hFront := (hReadsField.qualify scope).append_space hReadsOperator
      refine ⟨_, hFront.append_space (.namedText hKey), fun p hPair => ?_⟩
      -- The placeholder of the key itself is bound, so only the others count.
      have hBound := hPair _ (.head _)
      simp only [List.mem_append, List.mem_filter, decide_eq_true_eq]
      constructor
      · rintro hAll kind (hKind | hKind)
        · exact hAll kind (.inl hKind)
        · exact hAll kind (.inr hKind.1)
      · rintro hAll kind (hKind | hKind)
        · exact hAll kind (.inl hKind)
        · by_cases hIs : kind = .named (Comparison.parameterName column name)
          · rw [hIs]
            exact hBound
          · exact hAll kind (.inr ⟨hKind, hIs⟩)
  | _ => exact hTidy.elim

theorem Piece.apart_of_askedAll {scope : Scope} {dict : Dict Value} {pieces : List Piece}
    {text : String} {pairs : List (String × Value)} (hTidy : ∀ piece ∈ pieces, piece.Tidy)
    (hOpens : Piece.opensApart pieces = true)
    (hAsked : Piece.askedAll scope dict pieces = .ok (text, pairs)) : Apart text.toList := by
  cases pieces with
  | nil =>
      obtain ⟨rfl, -⟩ := Prod.mk.inj (Except.ok.inj hAsked)
      exact Placeholder.stops_nil _
  | cons piece rest =>
      obtain ⟨front, first, middle, back, later, hFront, -, -, rfl, -⟩ :=
        Piece.askedAll_cons_eq_ok.mp hAsked
      have hHead := hTidy piece (by simp)
      cases piece with
      | word token =>
          obtain ⟨rfl, -⟩ := Prod.mk.inj (Except.ok.inj hFront)
          rw [String.toList_append]
          exact (Word.apart hOpens).append_left token.text_ne_nil _
      | phrase text => exact absurd hOpens Bool.false_ne_true
      | null column operator name => exact absurd hOpens Bool.false_ne_true
      | scalar column operator present name => exact absurd hOpens Bool.false_ne_true
      | _ => exact hHead.elim

/-- Tidy pieces that are read apart are read as the names that they bind and their strays. -/
theorem Piece.readsAs_askedAll {scope : Scope} {dict : Dict Value} {pieces : List Piece}
    {text : String} {pairs : List (String × Value)} (hTidy : ∀ piece ∈ pieces, piece.Tidy)
    (hSeparated : Piece.Separated pieces)
    (hAsked : Piece.askedAll scope dict pieces = .ok (text, pairs)) :
    ReadsAs pairs (pieces.flatMap Piece.strays) text := by
  induction pieces generalizing dict text pairs with
  | nil =>
      obtain ⟨rfl, rfl⟩ := Prod.mk.inj (Except.ok.inj hAsked)
      exact .of_reads (.quiet (by decide))
  | cons piece rest ih =>
      obtain ⟨front, first, middle, back, later, hFront, -, hBack, rfl, rfl⟩ :=
        Piece.askedAll_cons_eq_ok.mp hAsked
      obtain ⟨hNext, hRest⟩ := hSeparated
      have hRestTidy : ∀ other ∈ rest, other.Tidy :=
        fun other hOther => hTidy other (by simp [hOther])
      obtain ⟨foundFirst, hFirst, hFirstIff⟩ := Piece.readsAs_asked (hTidy piece (by simp)) hFront
      obtain ⟨foundLater, hLater, hLaterIff⟩ := ih hRestTidy hRest hBack
      have hJoined : Reads (front ++ back) (foundFirst ++ foundLater) := by
        rcases hNext with hWord | hOpens
        · cases piece with
          | word token =>
              obtain ⟨rfl, rfl⟩ := Prod.mk.inj (Except.ok.inj hFront)
              have hNone : foundFirst = [] :=
                hFirst.holds.symm.trans (Placeholder.kinds_quiet token.quiet)
              rw [hNone]
              exact hLater.quiet_append token.quiet
          | _ => exact absurd hWord Bool.false_ne_true
        · exact hFirst.append hLater (Piece.apart_of_askedAll hRestTidy hOpens hBack)
      refine ⟨_, hJoined, fun p hPair => ?_⟩
      have hHead := hFirstIff p fun pair h => hPair pair (List.mem_append_left _ h)
      have hTail := hLaterIff p fun pair h => hPair pair (List.mem_append_right _ h)
      rw [List.flatMap_cons, List.forall_mem_append, List.forall_mem_append, hHead, hTail]

/-! ## Calls -/

/-- A placeholder that refers to one of the parameters, in their style. -/
def Parameters.Resolves (parameters : Parameters) (kind : Kind) : Prop :=
  match parameters with
  | .positional values => kind.InRange values.length
  | .named dict _ => ∃ name, kind = .named name ∧ name ∈ dict.keys

/-- Every placeholder in the text of the condition refers to one of the parameters. -/
def Compiled.Resolved (compiled : Compiled) : Prop :=
  ∀ kind ∈ kinds compiled.text, compiled.parameters.Resolves kind

theorem Dict.mem_keys_of_bindEach {dict last : Dict Value} {pairs : List (String × Value)}
    (h : dict.bindEach pairs = .ok last) {pair : String × Value} (hPair : pair ∈ pairs) :
    pair.1 ∈ last.keys := by
  obtain ⟨value, hFind, -⟩ := Dict.find?_of_mem_bindEach h hPair
  by_contra hNot
  rw [Dict.find?_eq_none_iff.mpr hNot] at hFind
  exact absurd hFind (by simp)

/-- In the text of comparisons of values and their groups, every placeholder refers to a parameter:
by position without a condition, by name as soon as the strays do. -/
theorem resolved_iff {scope : Scope} {assignments : Option (List Assignment)}
    {condition : Option Condition} {arguments : List Argument} {compiled : Compiled}
    (hOk : compile scope assignments condition arguments = .ok compiled)
    (hTidy : ∀ piece ∈ conditionPieces condition, piece.Tidy) :
    compiled.Resolved ↔ (callStyle condition arguments = .named →
      ∀ piece ∈ conditionPieces condition, ∀ kind ∈ piece.strays,
        compiled.parameters.Resolves kind) := by
  have hSeparated := separated_conditionPieces condition
  cases hStyle : callStyle condition arguments with
  | positional =>
      obtain ⟨call⟩ := placedCall_of_compile hStyle hOk
      have hUnnamed : ∀ piece ∈ conditionPieces condition, piece.Unnamed := fun piece hPiece =>
        unnamed_callPieces hStyle piece
          (List.mem_append_left _ (List.mem_append_right (setPieces assignments) hPiece))
      obtain ⟨found, hReads, hRange⟩ :=
        Piece.readsInRange_placedAll hTidy hUnnamed hSeparated call.hText
      refine iff_of_true (fun kind hKind => ?_) fun hNamed => absurd hNamed (by decide)
      rw [hReads.holds] at hKind
      rw [call.hParameters]
      refine (hRange kind hKind).mono ?_
      simp only [List.length_append]
      omega
  | named =>
      obtain ⟨call⟩ := askedCall_of_compile hStyle hOk
      have hBound := call.bindEach_eq
      obtain ⟨found, hReads, hIff⟩ := Piece.readsAs_askedAll hTidy hSeparated call.hText
      have hNames : ∀ pair ∈ call.second, compiled.parameters.Resolves (.named pair.1) := by
        intro pair hPair
        have hMem : pair ∈ call.first ++ call.second ++ call.third :=
          List.mem_append_left _ (List.mem_append_right _ hPair)
        rw [call.hParameters]
        exact ⟨pair.1, rfl, Dict.mem_keys_of_bindEach hBound hMem⟩
      rw [Compiled.Resolved, hReads.holds, hIff _ hNames, List.forall_mem_flatMap]
      exact ⟨fun hAll _ => hAll, fun hAll => hAll rfl⟩

/-- A comparison by name has no strays if its texts hold no placeholder and its parameter name is
one that placeholders can have. -/
theorem Piece.strays_scalar_eq_nil {column : Field} {operator name : Option Phrase}
    {present : Present} (hField : kinds column.text = [])
    (hOperator : kinds (Comparison.operatorText operator) = [])
    (hNonempty : Comparison.parameterName column name ≠ "")
    (hName : (Comparison.parameterName column name).toList.all Placeholder.isNameChar = true) :
    (Piece.scalar column operator present name).strays = [] := by
  have hNone : ∀ text : String, kinds text = [] → firstName? text = none := by
    intro text h
    rw [firstName?, names_eq, h]
    rfl
  have hSpells := Placeholder.spells_namedText hNonempty hName
  have hKey : kinds (Placeholder.namedText (Comparison.parameterName column name)) =
      [.named (Comparison.parameterName column name)] := by
    have hScan :=
      Placeholder.kinds_mark_append hSpells (show Apart "".toList from Placeholder.stops_nil _)
    rw [String.append_empty] at hScan
    rw [hScan]
    rfl
  simp [Piece.strays, Comparison.strays, hNone _ hField, hNone _ hOperator, hField, hOperator, hKey]

theorem trim_name : Text.trim "name" = "name" := by decide +kernel

/-- The field `name`. -/
def nameField : Field := ⟨"name", trim_name, by decide⟩

/-- The condition that the name is like something, with the pattern as the operator. -/
def nameIsLike (pattern : Phrase) : Condition :=
  .comparison (.scalar nameField (some pattern) ⟨.string "a", rfl⟩ none)

/-- A pattern around a named placeholder. -/
def namedPattern : Phrase := ⟨"LIKE CONCAT(:pre, '%')", by decide +kernel, by decide⟩

/-- A pattern around a positional placeholder. -/
def positionalPattern : Phrase := ⟨"LIKE CONCAT(?, '%')", by decide +kernel, by decide⟩

theorem tidy_nameIsLike {pattern : Phrase} (hEven : EvenQuotes pattern.text)
    (hOnce : (kinds pattern.text).length ≤ 1) :
    ∀ piece ∈ conditionPieces (some (nameIsLike pattern)), piece.Tidy := by
  refine List.forall_mem_singleton.mpr ⟨⟨by decide, hEven, by decide +kernel, hOnce⟩, ?_⟩
  exact fun phrase hPhrase => absurd hPhrase (by simp)

/-- A pattern around a placeholder of the style of the call leaves nothing unresolved, next to a
comparison that writes a placeholder of its own. -/
theorem resolved_of_named_pattern :
    ∃ condition compiled, compile .standard none (some condition) [] = .ok compiled ∧
      compiled.text = "(e.name LIKE CONCAT(:pre, '%') AND e.status = :status)" ∧
      compiled.Resolved := by
  have hOk : compile .standard none (some (.group (.joined false (nameIsLike namedPattern)
      [(Group.andPhrase, hasText statusField "OLD")]))) [] =
      .ok ⟨none, "(e.name LIKE CONCAT(:pre, '%') AND e.status = :status)", "",
        .named ⟨[("pre", .string "a"), ("status", .string "OLD")], by decide⟩ [], []⟩ := rfl
  have hPattern :
      (Piece.scalar nameField (some namedPattern) ⟨.string "a", rfl⟩ none).strays = [] := by
    decide +kernel
  have hStatus : (Piece.scalar statusField none ⟨.string "OLD", rfl⟩ none).strays = [] :=
    Piece.strays_scalar_eq_nil (by decide +kernel) (by decide +kernel) (by decide) (by decide)
  refine ⟨_, _, hOk, rfl, (resolved_iff hOk fun piece hPiece => ?_).mpr fun _ piece hPiece => ?_⟩
  · have hCases : piece ∈ [Piece.word .opening,
        .scalar nameField (some namedPattern) ⟨.string "a", rfl⟩ none, .word .space,
        .phrase "AND", .word .space, .scalar statusField none ⟨.string "OLD", rfl⟩ none,
        .word .closing] := hPiece
    simp only [List.mem_cons, List.not_mem_nil, or_false] at hCases
    rcases hCases with rfl | rfl | rfl | rfl | rfl | rfl | rfl
    · trivial
    · exact tidy_nameIsLike (by decide) (by decide +kernel) _ (.head _)
    · trivial
    · exact ⟨by decide, by decide +kernel⟩
    · trivial
    · exact ⟨⟨by decide, by decide, by decide +kernel, by decide +kernel⟩, by simp⟩
    · trivial
  · have hCases : piece ∈ [Piece.word .opening,
        .scalar nameField (some namedPattern) ⟨.string "a", rfl⟩ none, .word .space,
        .phrase "AND", .word .space, .scalar statusField none ⟨.string "OLD", rfl⟩ none,
        .word .closing] := hPiece
    have hNone : piece.strays = [] := by
      simp only [List.mem_cons, List.not_mem_nil, or_false] at hCases
      rcases hCases with rfl | rfl | rfl | rfl | rfl | rfl | rfl
      · rfl
      · exact hPattern
      · rfl
      · rfl
      · rfl
      · exact hStatus
      · rfl
    rw [hNone]
    exact fun kind hKind => absurd hKind List.not_mem_nil

/-- Not every placeholder is resolved: in a call by name, a positional placeholder in an operator
stays in the text, and the value is bound beside it. -/
theorem not_every_placeholder_resolved :
    ¬ ∀ (scope : Scope) (condition : Option Condition) (arguments : List Argument)
        (compiled : Compiled), (∀ piece ∈ conditionPieces condition, piece.Tidy) →
        compile scope none condition arguments = .ok compiled → compiled.Resolved := by
  intro hAll
  have hOk : compile .standard none (some (nameIsLike positionalPattern)) [.mapping .empty] =
      .ok ⟨none, "e.name LIKE CONCAT(?, '%') :name", "",
        .named ⟨[("name", .string "a")], by decide⟩ [], []⟩ := rfl
  have hTidy := @tidy_nameIsLike positionalPattern (by decide) (by decide +kernel)
  have hMark : Kind.positional none ∈ kinds "e.name LIKE CONCAT(?, '%') :name" := by
    decide +kernel
  obtain ⟨name, hName, -⟩ := hAll _ _ _ _ hTidy hOk _ hMark
  exact absurd hName (by simp)

end BoundQuery
