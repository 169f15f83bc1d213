import Mathlib.Data.List.Infix
import Mathlib.Data.List.Count

/-!
# Shapes of conditions

A shape is what a reader can see in the text of a condition: leaf texts, the groups around them with
their negations, and the conjunctions between. `Shape.read` cuts a text into brackets, conjunctions
and other characters and rebuilds the shape with a stack of the groups that are still open.
`Shape.read_text` says that this inverts writing for shapes with atomic leaves, so a text has at
most one such shape. `Shape.depth_before` says that brackets keep the levels apart: in front of
every conjunction of a group, exactly as many brackets are open as there are groups around it.
-/

namespace BoundQuery

/-- The two conjunctions. -/
inductive Joint where
  | and
  | or
  deriving DecidableEq

def Joint.word : Joint → String
  | .and => "AND"
  | .or => "OR"

def Joint.text (joint : Joint) : String := " " ++ joint.word ++ " "

/-- A conjunction is a word between two blanks. -/
theorem Joint.exists_word (joint : Joint) :
    ∃ first rest, joint.text.toList = ' ' :: (first :: rest) ++ [' '] ∧
      (first = 'A' ∨ first = 'O') ∧ ∀ c ∈ first :: rest, c ≠ ' ' := by
  cases joint with
  | and => exact ⟨'A', ['N', 'D'], by decide, .inl rfl, by simp⟩
  | or => exact ⟨'O', ['R'], by decide, .inr rfl, by simp⟩

/-- A leaf, or a group with a conjunction in front of every part but the first. -/
inductive Shape where
  | leaf (text : String)
  | group (negated : Bool) (first : Shape) (rest : List (Joint × Shape))

namespace Shape

/-! ## Writing -/

/-- What opens a group. -/
def opening (negated : Bool) : String := if negated then "NOT (" else "("

mutual

/-- The text of a shape. -/
def text : Shape → String
  | .leaf text => text
  | .group negated first rest => opening negated ++ first.text ++ restText rest ++ ")"

def restText : List (Joint × Shape) → String
  | [] => ""
  | (joint, shape) :: rest => joint.text ++ shape.text ++ restText rest

end

/-! ## Reading -/

/-- What a text is cut into. -/
inductive Token where
  | plain (c : Char)
  | opening (negated : Bool)
  | closing
  | joint (joint : Joint)
  deriving DecidableEq

def Token.spelling : Token → List Char
  | .plain c => [c]
  | .opening negated => (Shape.opening negated).toList
  | .closing => [')']
  | .joint conjunction => conjunction.text.toList

/-- The tokens that are more than a character. -/
def marks : List Token := [.opening true, .opening false, .closing, .joint .and, .joint .or]

/-- The token at the start of a text, unless that is a plain character. -/
def mark? (cs : List Char) : Option Token := marks.find? fun token => token.spelling.isPrefixOf cs

/-- Cuts characters into tokens; `skip` is how many characters the token before still takes. -/
def cut : Nat → List Char → List Token
  | _, [] => []
  | skip + 1, _ :: rest => cut skip rest
  | 0, c :: rest =>
      match mark? (c :: rest) with
      | some token => token :: cut (token.spelling.length - 1) rest
      | none => .plain c :: cut 0 rest

/-- A group that is still open: its parts so far, the last one first, each with the conjunction
behind it. -/
structure Frame where
  negated : Bool
  before : List (Shape × Joint)

/-- What has been read: the open groups, the innermost first, and the last part if it is not yet
followed by anything. -/
structure Reading where
  frames : List Frame
  last : Option Shape

/-- The group of the parts so far, of the last one and of what was put behind it. -/
def close (negated : Bool) : List (Shape × Joint) → Shape → List (Joint × Shape) → Shape
  | [], first, rest => .group negated first rest
  | (shape, joint) :: before, last, rest => close negated before shape ((joint, last) :: rest)

/-- Reads one token. -/
def Reading.step : Reading → Token → Option Reading
  | ⟨frames, none⟩, .plain c => some ⟨frames, some (.leaf (String.singleton c))⟩
  | ⟨frames, some (.leaf text)⟩, .plain c => some ⟨frames, some (.leaf (text.push c))⟩
  | ⟨frames, none⟩, .opening negated => some ⟨⟨negated, []⟩ :: frames, none⟩
  | ⟨frame :: frames, some shape⟩, .joint joint =>
      some ⟨⟨frame.negated, (shape, joint) :: frame.before⟩ :: frames, none⟩
  | ⟨frame :: frames, some shape⟩, .closing =>
      some ⟨frames, some (close frame.negated frame.before shape [])⟩
  | _, _ => none

/-- Reads tokens one after the other. -/
def Reading.run (reading : Reading) : List Token → Option Reading
  | [] => some reading
  | token :: rest => (reading.step token).bind fun next => next.run rest

/-- The shape of a text. -/
def read (text : String) : Option Shape :=
  match Reading.run ⟨[], none⟩ (cut 0 text.toList) with
  | some ⟨[], some shape⟩ => some shape
  | _ => none

/-! ## Atomic leaves -/

/-- A text without brackets that ends in a word, such that neither the blanks before that word nor
the word itself can be taken for a conjunction. -/
structure Atom (front last : List Char) : Prop where
  ends : front = [] ∨ ∃ init, front = init ++ [' ']
  nonempty : last ≠ []
  wordBlank : ∀ c ∈ last, c ≠ ' '
  wordStart : front ≠ [] → last.head? ≠ some 'A' ∧ last.head? ≠ some 'O'
  noBracket : ∀ c ∈ front ++ last, c ≠ '(' ∧ c ≠ ')'
  noJoint : ∀ joint : Joint, ¬ joint.text.toList <:+: front

/-- A text that is read as one leaf. -/
def Atomic (text : String) : Prop :=
  ∃ front last, text.toList = front ++ last ∧ Atom front last

mutual

/-- Shapes with atomic leaves. -/
def WellFormed : Shape → Prop
  | .leaf text => Atomic text
  | .group _ first rest => first.WellFormed ∧ RestWellFormed rest

def RestWellFormed : List (Joint × Shape) → Prop
  | [] => True
  | (_, shape) :: rest => shape.WellFormed ∧ RestWellFormed rest

end

/-- What may follow a leaf: nothing, the end of a group or a conjunction. -/
inductive Boundary : List Char → Prop
  | nil : Boundary []
  | closing (rest : List Char) : Boundary (')' :: rest)
  | joint (joint : Joint) (rest : List Char) : Boundary (joint.text.toList ++ rest)

/-! ## Cutting a text -/

theorem mark?_eq_none_iff {cs : List Char} :
    mark? cs = none ↔ ∀ token ∈ marks, ¬ token.spelling <+: cs := by
  simp [mark?, List.find?_eq_none]

/-- A mark is found where it is written: none of the others starts like it. -/
theorem mark?_append {token : Token} (h : token ∈ marks) (back : List Char) :
    mark? (token.spelling ++ back) = some token := by
  simp only [marks, List.mem_cons, List.not_mem_nil, or_false] at h
  rcases h with rfl | rfl | rfl | rfl | rfl <;>
    simp [mark?, marks, Token.spelling, opening, Joint.text, Joint.word]

theorem cut_skip (skip : Nat) (cs : List Char) : cut skip cs = cut 0 (cs.drop skip) := by
  induction cs generalizing skip with
  | nil => simp [cut]
  | cons c rest ih =>
      cases skip with
      | zero => rfl
      | succ skip => exact ih skip

theorem Token.spelling_ne_nil (token : Token) : token.spelling ≠ [] := by
  cases token with
  | plain c => exact List.cons_ne_nil _ _
  | opening negated => cases negated <;> decide
  | closing => decide
  | joint conjunction => cases conjunction <;> decide

theorem cut_mark {token : Token} (h : token ∈ marks) (back : List Char) :
    cut 0 (token.spelling ++ back) = token :: cut 0 back := by
  obtain ⟨c, rest, hSpelling⟩ := List.exists_cons_of_ne_nil token.spelling_ne_nil
  have hMark := mark?_append h back
  rw [hSpelling, List.cons_append] at hMark ⊢
  rw [cut, hMark]
  simp only [hSpelling, List.length_cons, Nat.add_sub_cancel]
  rw [cut_skip, List.drop_left]

/-- Between two blanks there is one word: what a conjunction and another word have in common. -/
theorem prefix_of_word {word middle back : List Char} (hWord : ∀ c ∈ word, c ≠ ' ')
    (h : word ++ [' '] <+: middle ++ ' ' :: back) : word ++ [' '] <+: middle ++ [' '] := by
  have hMiddle : middle ++ [' '] <+: middle ++ ' ' :: back :=
    ⟨back, by rw [List.append_assoc, List.singleton_append]⟩
  by_cases hLength : word.length ≤ middle.length
  · refine List.prefix_of_prefix_length_le h hMiddle ?_
    simpa using hLength
  · -- The word would go on behind the blank after the middle.
    have hInside : middle ++ [' '] <+: word := by
      have hBoth : middle ++ [' '] <+: word ++ [' '] := by
        refine List.prefix_of_prefix_length_le hMiddle h ?_
        simp only [List.length_append, List.length_singleton]
        omega
      refine List.prefix_of_prefix_length_le hBoth (List.prefix_append word [' ']) ?_
      simp only [List.length_append, List.length_singleton]
      omega
    have hBlank : ' ' ∈ word := hInside.subset (by simp)
    exact absurd rfl (hWord ' ' hBlank)

/-- No conjunction starts inside an atom. -/
theorem Atom.not_joint {front last suffix back : List Char} (h : Atom front last)
    (hSuffix : suffix <:+ front ++ last) (hNonempty : suffix ≠ []) (joint : Joint) :
    ¬ joint.text.toList <+: suffix ++ back := by
  obtain ⟨first, rest, hText, hFirst, hWord⟩ := joint.exists_word
  intro hPrefix
  have hInLast : ¬ suffix <:+ last := by
    intro hIn
    obtain ⟨c, others, rfl⟩ := List.exists_cons_of_ne_nil hNonempty
    rw [hText] at hPrefix
    simp only [List.cons_append, List.cons_prefix_cons] at hPrefix
    exact h.wordBlank c (hIn.subset (by simp)) hPrefix.1.symm
  obtain ⟨start, hStart⟩ := hSuffix
  rcases List.append_eq_append_iff.mp hStart with ⟨middle, hFront, hBoth⟩ | ⟨inside, -, hLast⟩
  · -- The suffix is the last word behind some of what stands before it.
    subst hBoth
    have hMiddle : middle ≠ [] := by
      rintro rfl
      exact hInLast (List.nil_append last ▸ List.suffix_rfl)
    obtain ⟨init, hEnds⟩ := h.ends.resolve_left fun hNil => by simp [hNil, hMiddle] at hFront
    have hTail : [' '] <:+ middle := by
      have hFrontTail : [' '] <:+ front := ⟨init, hEnds.symm⟩
      have hMiddleTail : middle <:+ front := ⟨start, hFront.symm⟩
      refine List.suffix_of_suffix_length_le hFrontTail hMiddleTail ?_
      exact List.length_pos_iff.mpr hMiddle
    obtain ⟨body, rfl⟩ := hTail
    rw [hText] at hPrefix
    cases body with
    | nil =>
        -- Only the blank before the last word is left, so the word would start the conjunction.
        obtain ⟨head, others, rfl⟩ := List.exists_cons_of_ne_nil h.nonempty
        simp only [List.nil_append, List.cons_append, List.cons_prefix_cons, true_and] at hPrefix
        have hStartWord := h.wordStart (by simp [hEnds])
        rcases hFirst with rfl | rfl
        · exact hStartWord.1 (congrArg some hPrefix.1.symm)
        · exact hStartWord.2 (congrArg some hPrefix.1.symm)
    | cons c body =>
        -- The conjunction would stand as a whole before the last word.
        simp only [List.cons_append, List.append_assoc, List.nil_append,
          List.cons_prefix_cons] at hPrefix
        obtain ⟨rfl, hRest⟩ := hPrefix
        have hWhole : first :: rest ++ [' '] <+: body ++ [' '] := by
          refine @prefix_of_word _ body (last ++ back) hWord ?_
          simpa using hRest
        have hInfix : joint.text.toList <:+: front := by
          rw [hText, hFront]
          have hPart : ' ' :: (first :: rest) ++ [' '] <+: ' ' :: body ++ [' '] := by
            simpa using hWhole
          exact hPart.isInfix.trans ⟨start, [], by simp⟩
        exact h.noJoint joint hInfix
  · exact hInLast ⟨inside, hLast.symm⟩

/-- What follows a leaf starts with a closing bracket or with a blank in front of a word. -/
theorem Boundary.start {back : List Char} (h : Boundary back) :
    back = [] ∨ (∃ rest, back = ')' :: rest) ∨
      ∃ first rest, back = ' ' :: first :: rest ∧ (first = 'A' ∨ first = 'O') := by
  cases h with
  | nil => exact .inl rfl
  | closing rest => exact .inr (.inl ⟨rest, rfl⟩)
  | joint joint rest =>
      obtain ⟨first, word, hText, hFirst, -⟩ := joint.exists_word
      refine .inr (.inr ⟨first, word ++ [' '] ++ rest, ?_, hFirst⟩)
      rw [hText]
      simp

/-- No bracket starts inside an atom, and no negation in front of one. -/
theorem Atom.not_bracket {front last suffix back : List Char} (h : Atom front last)
    (hSuffix : suffix <:+ front ++ last) (hNonempty : suffix ≠ []) (hBack : Boundary back) :
    ¬ (opening true).toList <+: suffix ++ back ∧ ¬ (opening false).toList <+: suffix ++ back ∧
      ¬ [')'] <+: suffix ++ back := by
  have hPlain : ∀ c ∈ suffix, c ≠ '(' ∧ c ≠ ')' := fun c hc => h.noBracket c (hSuffix.subset hc)
  have hNegated : (opening true).toList = ['N', 'O', 'T', ' ', '('] := by decide
  have hOpening : (opening false).toList = ['('] := by decide
  have hStart := hBack.start
  rw [hNegated, hOpening]
  refine ⟨fun hPrefix => ?_, fun hPrefix => ?_, fun hPrefix => ?_⟩
  · -- The bracket of the negation would stand in the suffix or in what follows it.
    match suffix, hNonempty with
    | a :: b :: c :: d :: e :: rest, _ =>
        simp only [List.cons_append, List.cons_prefix_cons] at hPrefix
        exact (hPlain e (by simp)).1 hPrefix.2.2.2.2.1.symm
    | [a], _ | [a, b], _ | [a, b, c], _ | [a, b, c, d], _ =>
        rcases hStart with rfl | ⟨rest, rfl⟩ | ⟨first, rest, rfl, rfl | rfl⟩ <;> simp at hPrefix
  · obtain ⟨c, rest, rfl⟩ := List.exists_cons_of_ne_nil hNonempty
    simp only [List.cons_append, List.cons_prefix_cons] at hPrefix
    exact (hPlain c (by simp)).1 hPrefix.1.symm
  · obtain ⟨c, rest, rfl⟩ := List.exists_cons_of_ne_nil hNonempty
    simp only [List.cons_append, List.cons_prefix_cons] at hPrefix
    exact (hPlain c (by simp)).2 hPrefix.1.symm

theorem Atom.mark?_eq_none {front last suffix back : List Char} (h : Atom front last)
    (hSuffix : suffix <:+ front ++ last) (hNonempty : suffix ≠ []) (hBack : Boundary back) :
    mark? (suffix ++ back) = none := by
  obtain ⟨hNegated, hOpening, hClosing⟩ := h.not_bracket hSuffix hNonempty hBack
  rw [mark?_eq_none_iff]
  intro token hToken
  simp only [marks, List.mem_cons, List.not_mem_nil, or_false] at hToken
  rcases hToken with rfl | rfl | rfl | rfl | rfl
  · exact hNegated
  · exact hOpening
  · exact hClosing
  · exact h.not_joint hSuffix hNonempty .and
  · exact h.not_joint hSuffix hNonempty .or

/-- An atom is cut into its characters. -/
theorem Atom.cut {front last back : List Char} (h : Atom front last) (hBack : Boundary back) :
    Shape.cut 0 (front ++ last ++ back) =
      (front ++ last).map Token.plain ++ Shape.cut 0 back := by
  have hSuffixes : ∀ suffix, suffix <:+ front ++ last →
      Shape.cut 0 (suffix ++ back) = suffix.map Token.plain ++ Shape.cut 0 back := by
    intro suffix
    induction suffix with
    | nil => exact fun _ => rfl
    | cons c rest ih =>
        intro hSuffix
        have hNone := h.mark?_eq_none hSuffix (List.cons_ne_nil c rest) hBack
        rw [List.cons_append] at hNone ⊢
        rw [Shape.cut, hNone, List.map_cons, List.cons_append]
        exact congrArg _ (ih ((List.suffix_cons c rest).trans hSuffix))
  exact hSuffixes _ List.suffix_rfl

/-! ## Cutting a shape -/

mutual

/-- The tokens of a shape. -/
def tokens : Shape → List Token
  | .leaf text => text.toList.map .plain
  | .group negated first rest =>
      .opening negated :: (first.tokens ++ restTokens rest ++ [.closing])

def restTokens : List (Joint × Shape) → List Token
  | [] => []
  | (joint, shape) :: rest => .joint joint :: (shape.tokens ++ restTokens rest)

end

theorem boundary_restText (rest : List (Joint × Shape)) (back : List Char) :
    Boundary ((restText rest).toList ++ (')' :: back)) := by
  cases rest with
  | nil => exact .closing back
  | cons entry rest =>
      obtain ⟨joint, shape⟩ := entry
      rw [restText, String.toList_append, String.toList_append, List.append_assoc,
        List.append_assoc]
      exact .joint joint _

theorem mem_marks_joint (joint : Joint) : Token.joint joint ∈ marks := by
  cases joint <;> decide

theorem mem_marks_opening (negated : Bool) : Token.opening negated ∈ marks := by
  cases negated <;> decide

mutual

/-- The text of a shape with atomic leaves is cut into the tokens of the shape. -/
theorem cut_text : ∀ {shape : Shape}, shape.WellFormed → ∀ {back : List Char}, Boundary back →
    cut 0 (shape.text.toList ++ back) = shape.tokens ++ cut 0 back
  | .leaf text, hLeaf, back, hBack => by
      obtain ⟨front, last, hText, hAtom⟩ := hLeaf
      rw [Shape.text, tokens, hText]
      exact hAtom.cut hBack
  | .group negated first rest, hGroup, back, hBack => by
      have hFirst := cut_text hGroup.1 (boundary_restText rest back)
      have hRest := cut_restText hGroup.2 back
      have hOpening := cut_mark (mem_marks_opening negated)
        (first.text.toList ++ ((restText rest).toList ++ (')' :: back)))
      have hText : (Shape.group negated first rest).text.toList ++ back =
          (Token.opening negated).spelling ++
            (first.text.toList ++ ((restText rest).toList ++ (')' :: back))) := by
        simp [Shape.text, Token.spelling]
      rw [hText, hOpening, hFirst, hRest]
      simp [tokens]

theorem cut_restText : ∀ {rest : List (Joint × Shape)}, RestWellFormed rest →
    ∀ back : List Char, cut 0 ((restText rest).toList ++ (')' :: back)) =
      restTokens rest ++ .closing :: cut 0 back
  | [], _, back => @cut_mark .closing (by decide) back
  | (joint, shape) :: rest, hRest, back => by
      have hShape := cut_text hRest.1 (boundary_restText rest back)
      have hLater := cut_restText hRest.2 back
      have hJoint := cut_mark (mem_marks_joint joint)
        (shape.text.toList ++ ((restText rest).toList ++ (')' :: back)))
      have hText : (restText ((joint, shape) :: rest)).toList ++ (')' :: back) =
          (Token.joint joint).spelling ++
            (shape.text.toList ++ ((restText rest).toList ++ (')' :: back))) := by
        simp [restText, Token.spelling]
      rw [hText, hJoint, hShape, hLater]
      simp [restTokens]

end

/-! ## Rebuilding a shape -/

theorem run_append (reading : Reading) (front back : List Token) :
    reading.run (front ++ back) = (reading.run front).bind fun next => next.run back := by
  induction front generalizing reading with
  | nil => rfl
  | cons token rest ih =>
      simp only [List.cons_append, Reading.run]
      cases reading.step token with
      | none => rfl
      | some next => exact ih next

theorem run_plain (frames : List Frame) (text : String) (cs : List Char) :
    Reading.run ⟨frames, some (.leaf text)⟩ (cs.map .plain) =
      some ⟨frames, some (.leaf (text ++ String.ofList cs))⟩ := by
  induction cs generalizing text with
  | nil => simp [Reading.run]
  | cons c rest ih =>
      simp only [List.map_cons, Reading.run, Reading.step, Option.bind_some]
      rw [ih]
      have hText : text.push c ++ String.ofList rest = text ++ String.ofList (c :: rest) := by
        apply String.toList_inj.mp
        simp
      rw [hText]

theorem run_leaf (frames : List Frame) {text : String} (h : text.toList ≠ []) :
    Reading.run ⟨frames, none⟩ (text.toList.map .plain) = some ⟨frames, some (.leaf text)⟩ := by
  obtain ⟨c, rest, hText⟩ := List.exists_cons_of_ne_nil h
  rw [hText]
  simp only [List.map_cons, Reading.run, Reading.step, Option.bind_some]
  rw [run_plain]
  have hWhole : String.singleton c ++ String.ofList rest = text := by
    apply String.toList_inj.mp
    simp [hText]
  rw [hWhole]

theorem Atomic.ne_nil {text : String} (h : Atomic text) : text.toList ≠ [] := by
  obtain ⟨front, last, hText, hAtom⟩ := h
  rw [hText]
  exact List.append_ne_nil_of_right_ne_nil front hAtom.nonempty

mutual

/-- Reading the tokens of a shape gives the shape, whatever groups are open. -/
theorem run_tokens : ∀ {shape : Shape}, shape.WellFormed → ∀ frames : List Frame,
    Reading.run ⟨frames, none⟩ shape.tokens = some ⟨frames, some shape⟩
  | .leaf text, hLeaf, frames => run_leaf frames (Atomic.ne_nil hLeaf)
  | .group negated first rest, hGroup, frames => by
      have hFirst := run_tokens hGroup.1 (⟨negated, []⟩ :: frames)
      have hRest := run_restTokens hGroup.2 negated [] first frames
      rw [tokens, Reading.run, Reading.step, Option.bind_some, List.append_assoc, run_append,
        hFirst, Option.bind_some, hRest]
      rfl

theorem run_restTokens : ∀ {rest : List (Joint × Shape)}, RestWellFormed rest →
    ∀ (negated : Bool) (before : List (Shape × Joint)) (last : Shape) (frames : List Frame),
      Reading.run ⟨⟨negated, before⟩ :: frames, some last⟩ (restTokens rest ++ [.closing]) =
        some ⟨frames, some (close negated before last rest)⟩
  | [], _, negated, before, last, frames => by
      rw [restTokens, List.nil_append, Reading.run, Reading.step, Option.bind_some]
      rfl
  | (joint, shape) :: rest, hRest, negated, before, last, frames => by
      have hShape := run_tokens hRest.1 (⟨negated, (last, joint) :: before⟩ :: frames)
      have hLater := run_restTokens hRest.2 negated ((last, joint) :: before) shape frames
      rw [restTokens, List.cons_append, Reading.run, Reading.step, Option.bind_some,
        List.append_assoc, run_append, hShape, Option.bind_some, hLater, close]

end

/-- Reading inverts writing. -/
theorem read_text {shape : Shape} (h : shape.WellFormed) : read shape.text = some shape := by
  have hCut := cut_text h .nil
  have hRun := run_tokens h []
  rw [List.append_nil, show cut 0 [] = [] from rfl, List.append_nil] at hCut
  rw [read, hCut, hRun]

/-! ## Where conjunctions stand -/

/-- A conjunction of a shape: the address of its group, which lists the place of every group on the
way among the parts of the one around it, and the text in front of it. -/
structure Occurrence where
  address : List Nat
  joint : Joint
  before : String

/-- An occurrence as it is seen from the group around, in which some text stands in front. -/
def Occurrence.within (place : Nat) (front : String) (occurrence : Occurrence) : Occurrence :=
  ⟨place :: occurrence.address, occurrence.joint, front ++ occurrence.before⟩

mutual

/-- The conjunctions of a shape. -/
def joints : Shape → List Occurrence
  | .leaf _ => []
  | .group negated first rest =>
      first.joints.map (Occurrence.within 0 (opening negated)) ++
        restJoints (opening negated ++ first.text) 1 rest

/-- The conjunctions of a group behind its first part; `before` is what stands in front of them and
`place` the place of the next part. -/
def restJoints (before : String) (place : Nat) : List (Joint × Shape) → List Occurrence
  | [] => []
  | (joint, shape) :: rest =>
      ⟨[], joint, before⟩ ::
        (shape.joints.map (Occurrence.within place (before ++ joint.text)) ++
          restJoints (before ++ joint.text ++ shape.text) (place + 1) rest)

end

mutual

/-- Every conjunction stands in the text behind what is said to be in front of it. -/
theorem text_of_mem_joints : ∀ (shape : Shape) (occurrence : Occurrence),
    occurrence ∈ shape.joints →
      ∃ after, shape.text = occurrence.before ++ occurrence.joint.text ++ after
  | .leaf text, occurrence, hMem => absurd hMem List.not_mem_nil
  | .group negated first rest, occurrence, hMem => by
      rcases List.mem_append.mp hMem with hFirst | hRest
      · obtain ⟨inner, hInner, rfl⟩ := List.mem_map.mp hFirst
        obtain ⟨after, hText⟩ := text_of_mem_joints first inner hInner
        refine ⟨after ++ restText rest ++ ")", ?_⟩
        rw [Shape.text, hText, Occurrence.within]
        simp only [String.append_assoc]
      · obtain ⟨after, hText⟩ := text_of_mem_restJoints rest _ _ occurrence hRest
        refine ⟨after ++ ")", ?_⟩
        rw [Shape.text, hText]
        simp only [String.append_assoc]

theorem text_of_mem_restJoints : ∀ (rest : List (Joint × Shape)) (before : String) (place : Nat)
    (occurrence : Occurrence), occurrence ∈ restJoints before place rest →
      ∃ after, before ++ restText rest = occurrence.before ++ occurrence.joint.text ++ after
  | [], before, place, occurrence, hMem => absurd hMem List.not_mem_nil
  | (joint, shape) :: rest, before, place, occurrence, hMem => by
      rw [restText, ← String.append_assoc, ← String.append_assoc]
      rcases List.mem_cons.mp hMem with rfl | hMem
      · exact ⟨shape.text ++ restText rest, by simp only [String.append_assoc]⟩
      rcases List.mem_append.mp hMem with hShape | hRest
      · obtain ⟨inner, hInner, rfl⟩ := List.mem_map.mp hShape
        obtain ⟨after, hText⟩ := text_of_mem_joints shape inner hInner
        refine ⟨after ++ restText rest, ?_⟩
        rw [hText, Occurrence.within]
        simp only [String.append_assoc]
      · exact text_of_mem_restJoints rest _ _ occurrence hRest

end

/-! ## Open brackets -/

/-- How many brackets a text opens beyond those that it closes. -/
def depth (text : String) : Nat := text.toList.count '(' - text.toList.count ')'

/-- A text that opens some more brackets than it closes. -/
def Opens (text : String) (more : Nat) : Prop :=
  text.toList.count '(' = text.toList.count ')' + more

instance (text : String) (more : Nat) : Decidable (Opens text more) :=
  inferInstanceAs (Decidable (text.toList.count '(' = text.toList.count ')' + more))

theorem Opens.append {front back : String} {first later : Nat} (hFront : Opens front first)
    (hBack : Opens back later) : Opens (front ++ back) (first + later) := by
  simp only [Opens, String.toList_append, List.count_append] at hFront hBack ⊢
  omega

theorem Opens.depth_eq {text : String} {more : Nat} (h : Opens text more) : depth text = more := by
  simp only [Opens] at h
  simp only [depth]
  omega

theorem opens_opening (negated : Bool) : Opens (opening negated) 1 := by
  cases negated <;> decide

theorem opens_joint (joint : Joint) : Opens joint.text 0 := by
  cases joint <;> decide

theorem Atomic.opens {text : String} (h : Atomic text) : Opens text 0 := by
  obtain ⟨front, last, hText, hAtom⟩ := h
  have hOpening : (front ++ last).count '(' = 0 :=
    List.count_eq_zero.mpr fun hMem => (hAtom.noBracket _ hMem).1 rfl
  have hClosing : (front ++ last).count ')' = 0 :=
    List.count_eq_zero.mpr fun hMem => (hAtom.noBracket _ hMem).2 rfl
  rw [Opens, hText, hOpening, hClosing]

mutual

/-- A shape closes all brackets that it opens. -/
theorem opens_text : ∀ {shape : Shape}, shape.WellFormed → Opens shape.text 0
  | .leaf text, hLeaf => Atomic.opens hLeaf
  | .group negated first rest, hGroup => by
      have hFirst := opens_text hGroup.1
      have hRest := opens_restText hGroup.2
      have hInside : Opens (opening negated ++ first.text ++ restText rest) 1 :=
        ((opens_opening negated).append hFirst).append hRest
      simp only [Opens, Shape.text, String.toList_append, List.count_append] at hInside ⊢
      have hClosing : (")".toList).count '(' = 0 ∧ (")".toList).count ')' = 1 := by decide
      omega

theorem opens_restText : ∀ {rest : List (Joint × Shape)}, RestWellFormed rest →
    Opens (restText rest) 0
  | [], _ => rfl
  | (joint, shape) :: rest, hRest => by
      have hShape := opens_text hRest.1
      have hLater := opens_restText hRest.2
      exact ((opens_joint joint).append hShape).append hLater

end

theorem Opens.within {front : String} {level place : Nat} {occurrence : Occurrence}
    (hFront : Opens front 1) (h : Opens occurrence.before (occurrence.address.length + level)) :
    Opens (occurrence.within place front).before
      ((occurrence.within place front).address.length + level) := by
  have hBoth := hFront.append h
  rw [Occurrence.within, List.length_cons]
  have hLevel : occurrence.address.length + 1 + level =
      1 + (occurrence.address.length + level) := by
    omega
  rw [hLevel]
  exact hBoth

mutual

/-- In front of a conjunction, the brackets of the groups around it are open, and no others. -/
theorem opens_before : ∀ {shape : Shape}, shape.WellFormed → ∀ occurrence ∈ shape.joints,
    Opens occurrence.before (occurrence.address.length + 1)
  | .leaf text, _, occurrence, hMem => absurd hMem List.not_mem_nil
  | .group negated first rest, hGroup, occurrence, hMem => by
      have hFirst := opens_text hGroup.1
      rcases List.mem_append.mp hMem with hInFirst | hInRest
      · obtain ⟨inner, hInner, rfl⟩ := List.mem_map.mp hInFirst
        exact .within (opens_opening negated) (opens_before hGroup.1 inner hInner)
      · have hFront := (opens_opening negated).append hFirst
        exact opens_before_rest hGroup.2 hFront 1 occurrence hInRest

theorem opens_before_rest : ∀ {rest : List (Joint × Shape)}, RestWellFormed rest →
    ∀ {before : String}, Opens before 1 → ∀ (place : Nat),
      ∀ occurrence ∈ restJoints before place rest,
        Opens occurrence.before (occurrence.address.length + 1)
  | [], _, _, _, _, occurrence, hMem => absurd hMem List.not_mem_nil
  | (joint, shape) :: rest, hRest, before, hBefore, place, occurrence, hMem => by
      have hJoint : Opens (before ++ joint.text) 1 := hBefore.append (opens_joint joint)
      have hShape : Opens (before ++ joint.text ++ shape.text) 1 :=
        hJoint.append (opens_text hRest.1)
      rcases List.mem_cons.mp hMem with rfl | hMem
      · exact hBefore
      rcases List.mem_append.mp hMem with hInShape | hInRest
      · obtain ⟨inner, hInner, rfl⟩ := List.mem_map.mp hInShape
        exact .within hJoint (opens_before hRest.1 inner hInner)
      · exact opens_before_rest hRest.2 hShape (place + 1) occurrence hInRest

end

/-- The brackets tell at which level a conjunction stands. -/
theorem depth_before {shape : Shape} (h : shape.WellFormed) {occurrence : Occurrence}
    (hMem : occurrence ∈ shape.joints) :
    depth occurrence.before = occurrence.address.length + 1 :=
  (opens_before h occurrence hMem).depth_eq

end Shape

end BoundQuery
