/-!
# Blank characters and trimmed phrases

Blank means the Unicode property White_Space. `trim` cuts blanks from both ends of a text;
`trim_trim` says that one cut is enough. A `Phrase` is a text that a cut leaves alone and that is
not empty: the form in which fields, operators, conjunctions and parameter names are kept.
-/

namespace BoundQuery.Text

/-- The Unicode property White_Space. -/
def isBlank (c : Char) : Bool :=
  let n := c.toNat
  (0x09 ≤ n && n ≤ 0x0D) || n = 0x20 || n = 0x85 || n = 0xA0 || n = 0x1680 ||
    (0x2000 ≤ n && n ≤ 0x200A) || n = 0x2028 || n = 0x2029 || n = 0x202F || n = 0x205F ||
    n = 0x3000

/-- Drops the blanks at the front of a list of characters. -/
def trimStart (cs : List Char) : List Char := cs.dropWhile isBlank

/-- Drops the blanks at both ends of a list of characters. -/
def trimChars (cs : List Char) : List Char := (trimStart (trimStart cs).reverse).reverse

/-- The text without the blanks at its two ends. -/
def trim (text : String) : String := String.ofList (trimChars text.toList)

@[simp] theorem trimStart_trimStart (cs : List Char) : trimStart (trimStart cs) = trimStart cs := by
  induction cs with
  | nil => rfl
  | cons c rest ih =>
      by_cases h : isBlank c
      · simpa [trimStart, List.dropWhile_cons, h] using ih
      · simp [trimStart, h]

/-- What a cut at the front leaves of a reversed list ends where that list ended. -/
theorem trimStart_suffix (cs : List Char) : ∃ cut, cs = cut ++ trimStart cs :=
  ⟨cs.takeWhile isBlank, (List.takeWhile_append_dropWhile).symm⟩

/-- A list that starts with no blank still starts with none once its end is cut. -/
theorem trimStart_of_append {kept cut : List Char}
    (h : trimStart (kept ++ cut) = kept ++ cut) : trimStart kept = kept := by
  cases kept with
  | nil => rfl
  | cons c rest =>
      by_cases hc : isBlank c
      · have hlen := congrArg List.length h
        have hle : (trimStart (rest ++ cut)).length ≤ (rest ++ cut).length := by
          obtain ⟨pre, hpre⟩ := trimStart_suffix (rest ++ cut)
          have := congrArg List.length hpre
          simp only [List.length_append] at this ⊢
          omega
        simp only [trimStart, List.cons_append, List.dropWhile_cons, hc, if_true,
          List.length_cons, List.length_append] at hlen hle
        omega
      · simp [trimStart, hc]

@[simp] theorem trimChars_trimChars (cs : List Char) : trimChars (trimChars cs) = trimChars cs := by
  have hfront : trimStart (trimChars cs) = trimChars cs := by
    obtain ⟨cut, hcut⟩ := trimStart_suffix (trimStart cs).reverse
    have hsplit : trimStart cs = trimChars cs ++ cut.reverse := by
      have := congrArg List.reverse hcut
      simpa [trimChars] using this
    have hall : trimStart (trimChars cs ++ cut.reverse) = trimChars cs ++ cut.reverse := by
      rw [← hsplit, trimStart_trimStart]
    exact trimStart_of_append hall
  show (trimStart (trimStart (trimChars cs)).reverse).reverse = trimChars cs
  rw [hfront, trimChars, List.reverse_reverse, trimStart_trimStart]

@[simp] theorem trim_trim (text : String) : trim (trim text) = trim text := by
  simp [trim]

/-- A text is blank when nothing is left of it after a cut. -/
def isBlankText (text : String) : Bool := trim text == ""

end BoundQuery.Text

namespace BoundQuery

/-- A text with no blank at either end and with at least one character. -/
structure Phrase where
  text : String
  trimmed : Text.trim text = text
  nonempty : text ≠ ""
  deriving DecidableEq

namespace Phrase

/-- The phrase inside a text, unless the text is blank. -/
def of? (text : String) : Option Phrase :=
  if h : Text.trim text = "" then none
  else some ⟨Text.trim text, Text.trim_trim text, h⟩

theorem of?_eq_none_iff {text : String} : of? text = none ↔ Text.trim text = "" := by
  unfold of?
  split <;> simp_all

theorem text_of_of? {text : String} {phrase : Phrase} (h : of? text = some phrase) :
    phrase.text = Text.trim text := by
  unfold of? at h
  split at h
  · simp at h
  · simp only [Option.some.injEq] at h
    rw [← h]

@[simp] theorem trim_text (phrase : Phrase) : Text.trim phrase.text = phrase.text :=
  phrase.trimmed

@[simp] theorem isBlankText_text (phrase : Phrase) : Text.isBlankText phrase.text = false := by
  rw [Text.isBlankText, phrase.trim_text]
  exact beq_eq_false_iff_ne.mpr phrase.nonempty

/-- Reading a phrase's own text gives the phrase back. -/
@[simp] theorem of?_text (phrase : Phrase) : of? phrase.text = some phrase := by
  unfold of?
  rw [dif_neg (by rw [phrase.trimmed]; exact phrase.nonempty)]
  cases phrase
  simp_all

end Phrase

end BoundQuery
