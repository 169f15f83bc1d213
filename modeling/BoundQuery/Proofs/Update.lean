import BoundQuery.Proofs.Call

/-!
# What an update binds

An update by name emits a placeholder for each assignment and binds the assigned value under its
name; the leading mapping, the other assignments, the condition and the clauses may bind under the
same name. `assigned_of_compile` says when the name holds the assigned value at the end: always, if
that value is not null. An assigned null stays only where every value under the name is null, since
null gives way to any other value, and no fault is reported (`not_every_assigned_value_bound`).
-/

namespace BoundQuery

/-! ## The pairs of a call -/

/-- A list of pieces asks for what its two parts ask for. -/
theorem Piece.askedAll_append {scope : Scope} {dict middle : Dict Value} {front back : List Piece}
    {text more : String} {first second : List (String × Value)}
    (hFront : askedAll scope dict front = .ok (text, first))
    (hMiddle : dict.bindEach first = .ok middle)
    (hBack : askedAll scope middle back = .ok (more, second)) :
    askedAll scope dict (front ++ back) = .ok (text ++ more, first ++ second) := by
  induction front generalizing dict text first with
  | nil =>
      obtain ⟨rfl, rfl⟩ := Prod.mk.inj (Except.ok.inj hFront)
      rw [Dict.bindEach_nil] at hMiddle
      obtain rfl := Except.ok.inj hMiddle
      simpa using hBack
  | cons piece rest ih =>
      obtain ⟨head, pairs, after, tail, later, hPiece, hAfter, hRest, rfl, rfl⟩ :=
        askedAll_cons_eq_ok.mp hFront
      rw [Dict.bindEach_append, hAfter] at hMiddle
      have hJoined := ih hRest hMiddle
      rw [List.cons_append]
      exact askedAll_cons_eq_ok.mpr ⟨head, pairs, after, tail ++ more, later ++ second, hPiece,
        hAfter, hJoined, String.append_assoc, List.append_assoc ..⟩

/-- The pairs of names and values that a call by name binds over its leading mapping. -/
def callPairs (scope : Scope) (assignments : Option (List Assignment))
    (condition : Option Condition) (arguments : List Argument) :
    Except Fault (List (String × Value)) :=
  (Piece.askedAll scope ((leading? arguments).getD .empty)
    (callPieces assignments condition arguments)).map Prod.snd

variable {scope : Scope} {assignments : Option (List Assignment)} {condition : Option Condition}
  {arguments : List Argument} {compiled : Compiled}

theorem AskedCall.callPairs_eq (call : AskedCall scope assignments condition arguments compiled) :
    callPairs scope assignments condition arguments =
      .ok (call.first ++ call.second ++ call.third) := by
  have hFront : ((leading? arguments).getD .empty).bindEach (call.first ++ call.second) =
      .ok call.afterText := by
    rw [Dict.bindEach_append, call.hFirst]
    exact call.hSecond
  have hText := Piece.askedAll_append call.hSet call.hFirst call.hText
  have hTail := Piece.askedAll_append hText hFront call.hTail
  rw [callPairs, callPieces, hTail]
  rfl

/-- The dictionary of a call by name is its leading mapping with the pairs of the call bound. -/
theorem AskedCall.bindEach_eq (call : AskedCall scope assignments condition arguments compiled) :
    ((leading? arguments).getD .empty).bindEach (call.first ++ call.second ++ call.third) =
      .ok call.last := by
  rw [Dict.bindEach_append, Dict.bindEach_append, call.hFirst]
  simp only [bind, Except.bind, call.hSecond, call.hThird]

/-! ## What assignments write and ask for -/

/-- The name and the value that an assignment binds. -/
def Assignment.pair (assignment : Assignment) : String × Value :=
  (assignment.field.parameterName, assignment.value)

/-- The text of an assignment by name. -/
def Assignment.namedText (scope : Scope) (assignment : Assignment) : String :=
  scope.qualify assignment.field.text ++ " = " ++
    Placeholder.namedText assignment.field.parameterName

theorem Piece.askedAll_assigned {dict : Dict Value} {rest : List Assignment} {text : String}
    {pairs : List (String × Value)}
    (h : askedAll scope dict (rest.map (.assigned true)) = .ok (text, pairs)) :
    text = String.join (rest.map fun assignment => ", " ++ assignment.namedText scope) ∧
      pairs = rest.map Assignment.pair := by
  induction rest generalizing dict text pairs with
  | nil =>
      obtain ⟨rfl, rfl⟩ := Prod.mk.inj (Except.ok.inj h)
      exact ⟨rfl, rfl⟩
  | cons assignment rest ih =>
      rw [List.map_cons] at h
      obtain ⟨front, first, middle, back, more, hPiece, -, hRest, rfl, rfl⟩ :=
        askedAll_cons_eq_ok.mp h
      obtain ⟨rfl, rfl⟩ := Prod.mk.inj (Except.ok.inj hPiece)
      obtain ⟨rfl, rfl⟩ := ih hRest
      constructor
      · simp [Assignment.namedText, String.join_cons, String.append_assoc]
      · rfl

theorem join_comma (first : String) (rest : List String) :
    first ++ String.join (rest.map (", " ++ ·)) = ", ".intercalate (first :: rest) := by
  induction rest generalizing first with
  | nil => simp
  | cons second rest ih =>
      rw [String.intercalate_cons_cons, ← ih second, List.map_cons, String.join_cons]
      simp only [String.append_assoc]

/-- Assignments by name are written as a list with commas, and ask for their pairs in order. -/
theorem Piece.askedAll_setPieces {dict : Dict Value} {list : List Assignment} {text : String}
    {pairs : List (String × Value)}
    (h : askedAll scope dict (setPieces (some list)) = .ok (text, pairs)) :
    text = ", ".intercalate (list.map (Assignment.namedText scope)) ∧
      pairs = list.map Assignment.pair := by
  cases list with
  | nil => exact absurd h (by simp [setPieces, Assignment.pieces, askedAll, asked])
  | cons assignment rest =>
      obtain ⟨front, first, middle, back, more, hPiece, -, hRest, rfl, rfl⟩ :=
        askedAll_cons_eq_ok.mp h
      obtain ⟨rfl, rfl⟩ := Prod.mk.inj (Except.ok.inj hPiece)
      obtain ⟨rfl, rfl⟩ := askedAll_assigned hRest
      constructor
      · rw [List.map_cons, ← join_comma]
        simp [Assignment.namedText, List.map_map, Function.comp_def]
      · rfl

/-! ## What the names of an update hold -/

/-- Whether all values that come under a name in a series of bindings are null. -/
def Dict.OnlyNull (dict : Dict Value) (pairs : List (String × Value)) (name : String) : Prop :=
  ∀ value ∈ dict.under pairs name, value.isNull = true

/-- In a series of bindings that goes through, the name of a pair holds the value of the pair,
unless that is null and another value under the name is not. -/
theorem Dict.find?_of_mem_bindEach {dict last : Dict Value} {pairs : List (String × Value)}
    (h : dict.bindEach pairs = .ok last) {pair : String × Value} (hPair : pair ∈ pairs) :
    ∃ value, last.find? pair.1 = some value ∧
      ((value == pair.2) = true ↔ (pair.2.isNull = true → dict.OnlyNull pairs pair.1)) := by
  have hCompatible := (bindEach_isOk_iff dict pairs).mp ⟨last, h⟩ pair.1
  have hUnder : pair.2 ∈ dict.under pairs pair.1 := by
    refine List.mem_append.mpr (.inr (List.mem_filterMap.mpr ⟨pair, hPair, ?_⟩))
    rw [if_pos rfl]
  rw [find?_bindEach h]
  exact Value.settled_equals_iff hCompatible hUnder

/-- An update by name emits a placeholder for each assignment, and at the end the name of the
placeholder holds the assigned value, unless that is null and the leading mapping, an assignment,
the condition or a clause has another value for the name. -/
theorem assigned_of_compile {list : List Assignment} {dict : Dict Value}
    {passthrough : List Value} (hOk : compile scope (some list) condition arguments = .ok compiled)
    (hNamed : compiled.parameters = .named dict passthrough) :
    compiled.assignments = some (", ".intercalate (list.map (Assignment.namedText scope))) ∧
      ∃ pairs, callPairs scope (some list) condition arguments = .ok pairs ∧
        ∀ assignment ∈ list, ∃ value, dict.find? assignment.field.parameterName = some value ∧
          ((value == assignment.value) = true ↔ (assignment.value.isNull = true →
            ((leading? arguments).getD .empty).OnlyNull pairs assignment.field.parameterName)) := by
  have hStyle : callStyle condition arguments = .named := by
    rw [← style_of_compile hOk, hNamed]
    rfl
  obtain ⟨call⟩ := askedCall_of_compile hStyle hOk
  obtain ⟨hLast, -⟩ := Parameters.named.inj (call.hParameters.symm.trans hNamed)
  obtain ⟨hWritten, hFirst⟩ := Piece.askedAll_setPieces call.hSet
  refine ⟨by rw [call.hAssignments, hWritten]; rfl, _, call.callPairs_eq, ?_⟩
  intro assignment hAssignment
  have hPair : assignment.pair ∈ call.first ++ call.second ++ call.third := by
    rw [hFirst, List.append_assoc]
    exact List.mem_append_left _ (List.mem_map_of_mem hAssignment)
  have hBound := call.bindEach_eq
  rw [hLast] at hBound
  exact Dict.find?_of_mem_bindEach hBound hPair

/-- The field `status`. -/
def statusField : Field := ⟨"status", by decide +kernel, by decide⟩

/-- The field `owner`. -/
def ownerField : Field := ⟨"owner", by decide +kernel, by decide⟩

/-- The condition that a field has a text. -/
def hasText (field : Field) (text : String) : Condition :=
  .comparison (.scalar field none ⟨.string text, rfl⟩ none)

/-- An update that assigns a status and, under a name that the condition binds too, null. -/
theorem assigned_status_and_owner :
    ∃ compiled dict,
      compile .standard (some [⟨statusField, .string "NEW"⟩, ⟨ownerField, .null⟩])
        (some (hasText ownerField "ann")) [.mapping .empty] = .ok compiled ∧
      compiled.parameters = .named dict [] ∧
      (∃ value, dict.find? "status" = some value ∧ (value == .string "NEW") = true) ∧
      ∃ value, dict.find? "owner" = some value ∧ ¬ (value == .null) = true := by
  have hOk : compile .standard (some [⟨statusField, .string "NEW"⟩, ⟨ownerField, .null⟩])
      (some (hasText ownerField "ann")) [.mapping .empty] =
      .ok ⟨some "e.status = :status, e.owner = :owner", "e.owner = :owner", "",
        .named ⟨[("status", .string "NEW"), ("owner", .string "ann")], by decide⟩ [], []⟩ := rfl
  have hKnown : callPairs .standard (some [⟨statusField, .string "NEW"⟩, ⟨ownerField, .null⟩])
      (some (hasText ownerField "ann")) [.mapping .empty] =
      .ok [("status", .string "NEW"), ("owner", .null), ("owner", .string "ann")] := rfl
  obtain ⟨-, pairs, hPairs, hBound⟩ := assigned_of_compile hOk rfl
  obtain rfl := Except.ok.inj (hPairs.symm.trans hKnown)
  obtain ⟨status, hStatus, hNew⟩ := hBound _ (.head _)
  obtain ⟨owner, hOwner, hNull⟩ := hBound _ (.tail _ (.head _))
  refine ⟨_, _, hOk, rfl, ⟨status, hStatus, hNew.mpr fun h => absurd h (by decide)⟩, owner, hOwner,
    fun hEqual => ?_⟩
  have hAnn := hNull.mp hEqual rfl (.string "ann") (.tail _ (.head _))
  exact absurd hAnn (by decide)

/-- Not every assigned value is bound: the condition that the status is old takes the place of an
assigned null, and no fault says so. -/
theorem not_every_assigned_value_bound :
    ¬ ∀ (scope : Scope) (list : List Assignment) (condition : Option Condition)
        (arguments : List Argument) (compiled : Compiled) (dict : Dict Value)
        (passthrough : List Value), compile scope (some list) condition arguments = .ok compiled →
        compiled.parameters = .named dict passthrough → ∀ assignment ∈ list, ∃ value,
          dict.find? assignment.field.parameterName = some value ∧
            (value == assignment.value) = true := by
  intro hAll
  have hOk : compile .standard (some [⟨statusField, .null⟩]) (some (hasText statusField "OLD"))
      [.mapping .empty] =
      .ok ⟨some "e.status = :status", "e.status = :status", "",
        .named ⟨[("status", .string "OLD")], by decide⟩ [], []⟩ := rfl
  obtain ⟨value, hFind, hEqual⟩ := hAll _ _ _ _ _ _ _ hOk rfl _ (.head _)
  obtain rfl := Option.some.inj hFind
  exact absurd hEqual (by decide)

end BoundQuery
