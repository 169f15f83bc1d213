import BoundQuery.Proofs.Draft.Bound
import BoundQuery.Proofs.Tree.Pieces

/-!
# Writing only adds

A `Manuscript` is the text of a query in the making and the bindings so far. Writing a node on it
puts a text behind the one that is there and lets the bindings grow: no value by position and no
name moves or goes, and of the values by name only a null gives way to another value. This holds
where the writing is stopped half way too, since each piece that was written before the fault has
only added. `Manuscript.write_append` says that one manuscript is handed through the parts of a
step, `Piece.onlyAdds` is the case of one piece, and `writing_only_adds` the statement about nodes.
-/

namespace BoundQuery

/-! ## Bindings that grow -/

namespace Dict

/-- What a dictionary keeps of an older one: the names at their places, and every value, except that
a null may have given way to another value. -/
structure Grows (old new : Dict Value) : Prop where
  keys : old.keys <+: new.keys
  kept : ∀ key value, old.find? key = some value → new.find? key = some value ∨
    value.isNull = true ∧ ∃ other, new.find? key = some other ∧ other.isNull = false

theorem Grows.refl (dict : Dict Value) : dict.Grows dict :=
  ⟨List.prefix_rfl, fun _ _ hFind => .inl hFind⟩

theorem Grows.trans {first second third : Dict Value} (hFirst : first.Grows second)
    (hSecond : second.Grows third) : first.Grows third := by
  refine ⟨hFirst.keys.trans hSecond.keys, fun key value hFind => ?_⟩
  rcases hFirst.kept key value hFind with hSame | ⟨hNull, other, hOther, hPresent⟩
  · exact hSecond.kept key value hSame
  · -- A value that took the place of a null is not null, so it stays.
    rcases hSecond.kept key other hOther with hSame | ⟨hOtherNull, -⟩
    · exact .inr ⟨hNull, other, hSame, hPresent⟩
    · exact absurd hOtherNull (by simp [hPresent])

/-- A new name goes to the end. -/
theorem grows_insert_new {dict : Dict Value} {name : String} (value : Value)
    (hNew : dict.find? name = none) : dict.Grows (dict.insert name value) := by
  refine ⟨?_, fun key held hHeld => .inl ?_⟩
  · rw [keys_insert, if_neg (find?_eq_none_iff.mp hNew)]
    exact List.prefix_append _ _
  · have hName : name ≠ key := by
      rintro rfl
      exact absurd (hNew.symm.trans hHeld) (by simp)
    rw [find?_insert, if_neg hName, hHeld]

/-- A value that takes the place of a null. -/
theorem grows_insert_null {dict : Dict Value} {name : String} {value existing : Value}
    (hFind : dict.find? name = some existing) (hNull : existing.isNull = true)
    (hPresent : value.isNull = false) : dict.Grows (dict.insert name value) := by
  have hKeys : (dict.insert name value).keys = dict.keys := by
    rw [keys_insert, if_pos (mem_keys_of_find? hFind)]
  refine ⟨hKeys ▸ List.prefix_rfl, fun key held hHeld => ?_⟩
  · rw [find?_insert]
    by_cases hName : name = key
    · subst hName
      obtain rfl := Option.some.inj (hFind.symm.trans hHeld)
      exact .inr ⟨hNull, value, if_pos rfl, hPresent⟩
    · exact .inl (by rw [if_neg hName, hHeld])

theorem grows_bind {dict after : Dict Value} {name : String} {value : Value}
    (h : dict.bind name value = .ok after) : dict.Grows after := by
  unfold bind at h
  split at h
  · next hNew =>
      obtain rfl := Except.ok.inj h
      exact grows_insert_new value hNew
  · next existing hFind =>
      split at h
      · obtain rfl := Except.ok.inj h
        exact Grows.refl dict
      · next hChange =>
          split at h
          · next hNull =>
              obtain rfl := Except.ok.inj h
              simp only [Bool.or_eq_true, not_or, Bool.not_eq_true] at hChange
              exact grows_insert_null hFind hNull hChange.1
          · exact absurd h (by simp)

/-- Binding names one after the other lets a dictionary grow, up to a conflict too. -/
theorem grows_bindAll (dict : Dict Value) (pairs : List (String × Value)) :
    dict.Grows (dict.bindAll pairs).1 := by
  induction pairs generalizing dict with
  | nil => exact Grows.refl dict
  | cons pair rest ih =>
      obtain ⟨name, value⟩ := pair
      rw [bindAll]
      split
      · next middle hBind => exact (grows_bind hBind).trans (ih middle)
      · exact Grows.refl dict

end Dict

namespace Bindings

/-- What bindings keep of older ones, in the same style. -/
def Grows : Bindings → Bindings → Prop
  | .positional old, .positional new => old <+: new
  | .named old, .named new => old.Grows new
  | _, _ => False

theorem Grows.refl : ∀ bindings : Bindings, bindings.Grows bindings
  | .positional _ => List.prefix_rfl
  | .named dict => Dict.Grows.refl dict

theorem Grows.trans {first second third : Bindings} (hFirst : first.Grows second)
    (hSecond : second.Grows third) : first.Grows third := by
  cases first <;> cases second <;> cases third
  case named.named.named => exact Dict.Grows.trans hFirst hSecond
  case positional.positional.positional => exact List.IsPrefix.trans hFirst hSecond
  all_goals first | exact hFirst.elim | exact hSecond.elim

theorem Grows.style {old new : Bindings} (h : old.Grows new) : new.style = old.style := by
  cases old <;> cases new
  case named.named => rfl
  case positional.positional => rfl
  all_goals exact h.elim

theorem grows_bindAs {key placeholder : String} {value : Value} {bindings after : Bindings}
    (h : bindings.bindAs key value = .ok (placeholder, after)) : bindings.Grows after := by
  cases bindings with
  | positional values =>
      obtain ⟨-, rfl⟩ := Prod.mk.inj (Except.ok.inj h)
      exact List.prefix_append _ _
  | named dict =>
      obtain ⟨middle, hBind, hPair⟩ := bind_eq_ok.mp h
      obtain ⟨-, rfl⟩ := Prod.mk.inj (Except.ok.inj hPair)
      exact Dict.grows_bind hBind

end Bindings

/-! ## Manuscripts -/

/-- The text of a query in the making and the bindings so far. -/
structure Manuscript where
  text : String
  bindings : Bindings

/-- Writes a step on a manuscript: the manuscript afterwards, and the fault that stopped the step.
A step is given the bindings and never sees the text, so that it puts its own behind whatever is
there holds of every step; what a step may do to the bindings depends on the node. -/
def Manuscript.write (step : Step) (page : Manuscript) : Manuscript × Option Fault :=
  let draft := step page.bindings
  (⟨page.text ++ draft.text, draft.bindings⟩, draft.fault)

/-- The second of two steps is written on what the first one has left, unless that was stopped. -/
theorem Manuscript.write_append (first second : Step) (page : Manuscript) :
    write (first ++ second) page =
      match write first page with
      | (middle, none) => write second middle
      | stopped => stopped := by
  simp only [write, Step.append_apply]
  cases hFault : (first page.bindings).fault with
  | some fault => simp [hFault]
  | none => simp [String.append_assoc]

/-- Compiling writes each of its parts on an empty page. -/
theorem Step.finish_eq_write (step : Step) (bindings : Bindings) :
    step.finish bindings =
      match Manuscript.write step ⟨"", bindings⟩ with
      | (page, none) => .ok (page.text, page.bindings)
      | (_, some fault) => .error fault := by
  simp only [finish, Manuscript.write, String.empty_append]
  cases (step bindings).fault <;> rfl

/-- A step puts a text behind the one that is there, the same whatever that is, and lets the
bindings grow, whether it is stopped or not. -/
def Step.OnlyAdds (step : Step) : Prop :=
  ∀ bindings, ∃ added after fault,
    (∀ text, Manuscript.write step ⟨text, bindings⟩ = (⟨text ++ added, after⟩, fault)) ∧
      bindings.Grows after

theorem Step.grows_ofBinding {bind : Bindings → Except Fault (String × Bindings)}
    {bindings : Bindings}
    (h : ∀ text after, bind bindings = .ok (text, after) → bindings.Grows after) :
    bindings.Grows (Step.ofBinding bind bindings).bindings := by
  unfold Step.ofBinding
  split
  · next text after hBind => exact h text after hBind
  · exact Bindings.Grows.refl bindings

/-- What is placed goes behind the values before, and a refusal leaves them. -/
theorem Draft.grows_ofPlaced (values : List Value) (placed : Except Fault (String × List Value)) :
    (Bindings.positional values).Grows (ofPlaced values placed).bindings := by
  cases placed with
  | ok written => exact List.prefix_append values written.2
  | error fault => exact Bindings.Grows.refl _

theorem Step.grows_ofPairs (text : String) (dict : Dict Value) (pairs : List (String × Value)) :
    (Bindings.named dict).Grows (Step.ofPairs text dict pairs).bindings := by
  have hGrows := Dict.grows_bindAll dict pairs
  unfold Step.ofPairs
  rcases hAll : dict.bindAll pairs with ⟨after, _ | fault⟩
  · rw [hAll] at hGrows
    exact hGrows
  · rw [hAll] at hGrows
    exact hGrows

namespace Step.OnlyAdds

theorem of_grows {step : Step}
    (h : ∀ bindings : Bindings, bindings.Grows (step bindings).bindings) : step.OnlyAdds :=
  fun bindings =>
    ⟨(step bindings).text, (step bindings).bindings, (step bindings).fault, fun _ => rfl,
      h bindings⟩

theorem grows_of_finish {step : Step} {bindings after : Bindings} {text : String}
    (hStep : step.OnlyAdds) (h : step.finish bindings = .ok (text, after)) :
    bindings.Grows after := by
  obtain ⟨added, last, fault, hWrite, hGrows⟩ := hStep bindings
  rw [Step.finish_eq_write, hWrite ""] at h
  cases fault with
  | some fault => exact absurd h (by simp)
  | none =>
      obtain ⟨-, rfl⟩ := Prod.mk.inj (Except.ok.inj h)
      exact hGrows

theorem emit (text : String) : (Step.emit text).OnlyAdds := of_grows Bindings.Grows.refl

theorem fail (fault : Fault) : (Step.fail fault).OnlyAdds := of_grows Bindings.Grows.refl

theorem ofBinding {bind : Bindings → Except Fault (String × Bindings)}
    (h : ∀ bindings text after, bind bindings = .ok (text, after) → bindings.Grows after) :
    (Step.ofBinding bind).OnlyAdds :=
  of_grows fun bindings => grows_ofBinding (h bindings)

/-- One step after the other: the second one goes on from what the first has left. -/
theorem append {first second : Step} (hFirst : first.OnlyAdds) (hSecond : second.OnlyAdds) :
    (first ++ second).OnlyAdds := by
  intro bindings
  obtain ⟨front, middle, fault, hWrite, hGrows⟩ := hFirst bindings
  cases fault with
  | some fault =>
      refine ⟨front, middle, some fault, fun text => ?_, hGrows⟩
      rw [Manuscript.write_append, hWrite]
  | none =>
      obtain ⟨back, after, fault, hNext, hMore⟩ := hSecond middle
      refine ⟨front ++ back, after, fault, fun text => ?_, hGrows.trans hMore⟩
      rw [Manuscript.write_append, hWrite]
      exact (hNext _).trans (by rw [String.append_assoc])

end Step.OnlyAdds

/-! ## Pieces -/

namespace Comparison

theorem grows_embed? {scope : Scope} {field operator text : String} {value : Value}
    {bindings after : Bindings}
    (h : embed? scope field operator value bindings = some (.ok (text, after))) :
    bindings.Grows after := by
  cases bindings with
  | positional values =>
      simp only [embed?] at h
      split at h
      · obtain ⟨-, rfl⟩ := Prod.mk.inj (Except.ok.inj (Option.some.inj h))
        exact List.prefix_append _ _
      · split at h
        · obtain ⟨-, rfl⟩ := Prod.mk.inj (Except.ok.inj (Option.some.inj h))
          exact List.prefix_append _ _
        · exact absurd h (by simp)
  | named dict =>
      simp only [embed?] at h
      split at h
      · obtain ⟨middle, hBind, hPair⟩ := bind_eq_ok.mp (Option.some.inj h)
        obtain ⟨-, rfl⟩ := Prod.mk.inj (Except.ok.inj hPair)
        exact Dict.grows_bind hBind
      · obtain ⟨middle, hBind, hPair⟩ := bind_eq_ok.mp (Option.some.inj h)
        obtain ⟨-, rfl⟩ := Prod.mk.inj (Except.ok.inj hPair)
        exact Dict.grows_bind hBind
      · exact absurd h (by simp)

theorem onlyAdds_writeNull (scope : Scope) (field : Field) (operator : String) :
    (writeNull scope field operator).OnlyAdds := by
  refine Step.OnlyAdds.ofBinding fun bindings text after h => ?_
  split at h
  · next bound hEmbed =>
      subst h
      exact grows_embed? hEmbed
  · obtain ⟨-, rfl⟩ := Prod.mk.inj (Except.ok.inj h)
    exact Bindings.Grows.refl bindings

theorem onlyAdds_writeScalar (scope : Scope) (field : Field) (operator : String) (value : Value)
    (name : Option Phrase) : (writeScalar scope field operator value name).OnlyAdds := by
  refine Step.OnlyAdds.ofBinding fun bindings text after h => ?_
  split at h
  · next bound hEmbed =>
      subst h
      exact grows_embed? hEmbed
  · obtain ⟨⟨placeholder, bound⟩, hBind, hPair⟩ := bind_eq_ok.mp h
    obtain ⟨-, rfl⟩ := Prod.mk.inj (Except.ok.inj hPair)
    exact Bindings.grows_bindAs hBind

end Comparison

theorem Assignment.onlyAdds_write (scope : Scope) (separator : String) (assignment : Assignment) :
    (assignment.write scope separator).OnlyAdds := by
  refine Step.OnlyAdds.ofBinding fun bindings text after h => ?_
  obtain ⟨⟨placeholder, bound⟩, hBind, hPair⟩ := bind_eq_ok.mp h
  obtain ⟨-, rfl⟩ := Prod.mk.inj (Except.ok.inj hPair)
  exact Bindings.grows_bindAs hBind

namespace Snippet

theorem onlyAdds_writeSub (text : String) (arguments : List Argument) :
    (writeSub text arguments).OnlyAdds := by
  refine Step.OnlyAdds.of_grows fun bindings => ?_
  cases arguments with
  | nil => exact Bindings.Grows.refl bindings
  | cons argument rest =>
      cases bindings with
      | positional values =>
          rw [writeSub_positional]
          exact Draft.grows_ofPlaced values _
      | named dict =>
          rw [Piece.writeSub_named]
          split
          · exact Step.grows_ofPairs text dict _
          · exact Bindings.Grows.refl _

theorem grows_writeHavingNamed (text : String) (arguments : List Argument) (dict : Dict Value) :
    (Bindings.named dict).Grows (writeHavingNamed text arguments dict).bindings := by
  unfold writeHavingNamed
  split
  · exact Bindings.Grows.refl _
  · simp only
    split
    · exact Step.grows_ofPairs text dict _
    · exact Bindings.Grows.refl _

theorem onlyAdds_writeHaving (text : String) (arguments : List Argument) :
    (writeHaving text arguments).OnlyAdds := by
  refine Step.OnlyAdds.of_grows fun bindings => ?_
  cases arguments with
  | nil => exact Bindings.Grows.refl bindings
  | cons argument rest =>
      cases bindings with
      | positional values =>
          rw [writeHaving_positional]
          exact Draft.grows_ofPlaced values _
      | named dict =>
          rw [Piece.writeHaving_named]
          split
          · exact Step.grows_ofPairs text dict _
          · exact grows_writeHavingNamed text _ dict

theorem onlyAdds_writeNativeValue (value : Value) : (writeNativeValue value).OnlyAdds := by
  refine Step.OnlyAdds.of_grows fun bindings => ?_
  unfold writeNativeValue
  split
  · exact Bindings.Grows.refl bindings
  · cases bindings with
    | positional values => exact List.prefix_append _ _
    | named dict => exact Bindings.Grows.refl _

/-- The names of a mapping are bound before any of them is written. -/
theorem onlyAdds_writeNativeMapping (more : Dict Value) : (writeNativeMapping more).OnlyAdds := by
  refine Step.OnlyAdds.of_grows fun bindings => ?_
  cases bindings with
  | positional values => exact Bindings.Grows.refl _
  | named dict => exact Step.grows_ofPairs _ dict more.entries

end Snippet

namespace Piece

theorem onlyAdds (scope : Scope) (piece : Piece) : (piece.write scope).OnlyAdds := by
  cases piece with
  | word token => exact .emit token.text
  | field column => exact .emit (scope.qualify column.text)
  | phrase text => exact .emit text
  | literal text => exact .emit (Snippet.literalText text)
  | null column operator name => exact Comparison.onlyAdds_writeNull scope column _
  | scalar column operator present name =>
      exact Comparison.onlyAdds_writeScalar scope column _ present.value name
  | sub text arguments => exact Snippet.onlyAdds_writeSub text arguments
  | having text arguments => exact Snippet.onlyAdds_writeHaving text arguments
  | value plain => exact Snippet.onlyAdds_writeNativeValue plain
  | mapping more => exact Snippet.onlyAdds_writeNativeMapping more
  | assigned later assignment => exact assignment.onlyAdds_write scope _
  | stop fault => exact .fail fault

theorem onlyAdds_writeAll (scope : Scope) (pieces : List Piece) :
    (writeAll scope pieces).OnlyAdds := by
  induction pieces with
  | nil => exact .emit ""
  | cons piece rest ih => exact (piece.onlyAdds scope).append ih

end Piece

/-! ## Nodes -/

/-- The parts of a query that are written on a manuscript. -/
inductive Node where
  | comparison (comparison : Comparison)
  | group (group : Group)
  | condition (condition : Condition)
  | clause (clause : Clause)
  | having (having : Having)
  | aggregate (aggregate : Aggregate)
  | assignments (assignments : List Assignment)

def Node.write (scope : Scope) : Node → Step
  | .comparison part => part.write scope
  | .group part => part.write scope
  | .condition part => part.write scope
  | .clause part => part.write scope
  | .having part => part.write scope
  | .aggregate part => (Clause.aggregate part).write scope
  | .assignments list => Assignment.writeAll scope list

def Node.pieces : Node → List Piece
  | .comparison part => part.pieces
  | .group part => part.pieces
  | .condition part => part.pieces
  | .clause part => part.pieces
  | .having part => part.pieces
  | .aggregate part => (Clause.aggregate part).pieces
  | .assignments list => Assignment.pieces list

theorem Node.write_eq (scope : Scope) (node : Node) :
    node.write scope = Piece.writeAll scope node.pieces := by
  cases node with
  | comparison part => exact part.write_eq scope
  | group part => exact part.write_eq scope
  | condition part => exact part.write_eq scope
  | clause part => exact part.write_eq scope
  | having part => exact part.write_eq scope
  | aggregate part => exact (Clause.aggregate part).write_eq scope
  | assignments list => exact Assignment.writeAll_eq scope list

/-- Writing a node on a manuscript, whether it is stopped or not, puts a text behind the one that is
there, which does not depend on it; the bindings keep their style, by position the old values are
the first of the new ones, and by name the old names are the first of the new ones and each keeps
its value, unless that was null and is not any more. -/
theorem writing_only_adds (scope : Scope) (node : Node) (bindings : Bindings) :
    ∃ added after fault,
      (∀ text, Manuscript.write (node.write scope) ⟨text, bindings⟩ =
        (⟨text ++ added, after⟩, fault)) ∧
      after.style = bindings.style ∧
      (∀ old, bindings = .positional old → ∃ new, after = .positional new ∧ old <+: new) ∧
      ∀ old, bindings = .named old → ∃ new, after = .named new ∧ old.keys <+: new.keys ∧
        ∀ key value, old.find? key = some value → new.find? key = some value ∨
          value.isNull = true ∧ ∃ other, new.find? key = some other ∧ other.isNull = false := by
  rw [node.write_eq scope]
  obtain ⟨added, after, fault, hWrite, hGrows⟩ := Piece.onlyAdds_writeAll scope node.pieces bindings
  refine ⟨added, after, fault, hWrite, hGrows.style, ?_, ?_⟩
  · rintro old rfl
    cases after with
    | positional new => exact ⟨new, rfl, hGrows⟩
    | named dict => exact hGrows.elim
  · rintro old rfl
    cases after with
    | positional values => exact hGrows.elim
    | named new => exact ⟨new, rfl, Dict.Grows.keys hGrows, Dict.Grows.kept hGrows⟩

end BoundQuery
