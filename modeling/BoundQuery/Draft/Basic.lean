import BoundQuery.Bindings

/-!
# Drafts of query text

Writing a part of a query gives a draft: the text that the part adds, the bindings after it, and the
fault that stopped it, if one did. A part that is stopped half way keeps what it has written and
bound. A `Step` is the writing of one part, which depends on the bindings before it and on nothing
else; in `a ++ b` the step `b` starts from the bindings of `a`, unless `a` was stopped.
-/

namespace BoundQuery

/-- What writing a part of a query gives. -/
structure Draft where
  text : String
  bindings : Bindings
  fault : Option Fault

/-- The writing of one part of a query. -/
def Step : Type := Bindings → Draft

/-- Writing that binds values by position one after the other, and that a fault may stop. -/
abbrev Pushing : Type → Type := ExceptT Fault (StateM (List Value))

/-- Binds a value at the next place, whose number it gives. -/
def Pushing.push (value : Value) : Pushing Nat := do
  modify (· ++ [value])
  return (← get).length

namespace Step

/-- Adds a text and binds nothing. -/
def emit (text : String) : Step := fun bindings => ⟨text, bindings, none⟩

/-- Is stopped by a fault. -/
def fail (fault : Fault) : Step := fun bindings => ⟨"", bindings, some fault⟩

/-- Adds what binding a value gives, or is stopped and binds nothing. -/
def ofBinding (bind : Bindings → Except Fault (String × Bindings)) : Step := fun bindings =>
  match bind bindings with
  | .ok (text, bindings) => ⟨text, bindings, none⟩
  | .error fault => ⟨"", bindings, some fault⟩

/-- Binds names to values and adds a text. A conflict stops it; the bindings before the conflict
stay. -/
def ofPairs (text : String) (dict : Dict Value) (pairs : List (String × Value)) : Draft :=
  match dict.bindAll pairs with
  | (dict, none) => ⟨text, .named dict, none⟩
  | (dict, some fault) => ⟨"", .named dict, some fault⟩

/-- Writes over the values bound by position. A fault stops it; the values bound before the fault
stay. -/
def ofPushing (write : Pushing String) (values : List Value) : Draft :=
  match write.run.run values with
  | (.ok text, values) => ⟨text, .positional values, none⟩
  | (.error fault, values) => ⟨"", .positional values, some fault⟩

/-- One step after the other. -/
def andThen (first second : Step) : Step := fun bindings =>
  let before := first bindings
  match before.fault with
  | some _ => before
  | none =>
      let after := second before.bindings
      ⟨before.text ++ after.text, after.bindings, after.fault⟩

instance : Append Step := ⟨andThen⟩

theorem append_apply (first second : Step) (bindings : Bindings) :
    (first ++ second) bindings =
      match (first bindings).fault with
      | some _ => first bindings
      | none =>
          ⟨(first bindings).text ++ (second (first bindings).bindings).text,
            (second (first bindings).bindings).bindings,
            (second (first bindings).bindings).fault⟩ := rfl

end Step

end BoundQuery
