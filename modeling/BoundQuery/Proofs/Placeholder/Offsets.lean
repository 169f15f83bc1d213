import Mathlib.Data.List.Basic
import BoundQuery.Proofs.Placeholder.Scan
import BoundQuery.Proofs.Text.Bytes
import BoundQuery.Proofs.Text.Digits

/-!
# Placeholders by their offsets

Where the placeholders of a text are can be said without a scan. A placeholder starts at an offset
that has an even number of quotes before it and holds a question mark, or a colon that comes right
after no colon and right before a name; it takes the longest run of digits or name bytes. `tokenAt?`
says this of the bytes of a text, one offset at a time. `located_eq` is the induction over well-cut
segments: an offset inside a segment, or of a plain character, starts nothing, and the first offset
of a placeholder starts just that one. `placeholders_eq_tokens` puts it together for a text, with
what follows for the spans.
-/

namespace BoundQuery.Placeholder

open Text (asciiByte bytes encoded byteLength Classifies)

/-! ## Tokens in bytes -/

/-- An ASCII digit. -/
def isDigitByte (b : UInt8) : Bool := asciiByte '0' ≤ b && b ≤ asciiByte '9'

/-- An ASCII letter or digit, an underscore or a dollar sign. -/
def isNameByte (b : UInt8) : Bool :=
  (asciiByte 'a' ≤ b && b ≤ asciiByte 'z') || (asciiByte 'A' ≤ b && b ≤ asciiByte 'Z') ||
    isDigitByte b || b = asciiByte '_' || b = asciiByte '$'

/-- The longest run of bytes of a class from an offset on. -/
def runFrom (p : UInt8 → Bool) (source : List UInt8) (start : Nat) : List UInt8 :=
  (source.drop start).takeWhile p

/-- The number that a run of digits spells. -/
def runValue (run : List UInt8) : Nat :=
  run.foldl (fun value b => 10 * value + (b.toNat - (asciiByte '0').toNat)) 0

/-- The number of a placeholder, given the run of digits behind its question mark. -/
def runNumber? (run : List UInt8) : Option Nat :=
  if run = [] then none else some (min (runValue run) (twoTo 64 - 1))

/-- The text that a run of ASCII bytes spells. -/
def runText (run : List UInt8) : String := String.ofList (run.map fun b => Char.ofNat b.toNat)

/-- The placeholder that starts at an offset, if one does. -/
def tokenAt? (source : List UInt8) (start : Nat) : Option Placeholder :=
  let digits := runFrom isDigitByte source (start + 1)
  let name := runFrom isNameByte source (start + 1)
  if (source.take start).count (asciiByte '\'') % 2 = 1 then none
  else if source[start]? = some (asciiByte '?') then
    some ⟨.positional (runNumber? digits), start, start + 1 + digits.length⟩
  else if source[start]? = some (asciiByte ':') ∧
      (source.take start).getLast? ≠ some (asciiByte ':') ∧ name ≠ [] then
    some ⟨.named (runText name), start, start + 1 + name.length⟩
  else none

/-- The placeholders in a sequence of bytes, by their offsets. -/
def tokens (source : List UInt8) : List Placeholder :=
  (List.range source.length).filterMap (tokenAt? source)

/-! ## Runs of bytes and of characters -/

theorem toNat_lt_of_isNameChar {c : Char} (h : isNameChar c = true) : c.toNat < 128 := by
  have hLess : ∀ a b : Char, decide (a ≤ b) = true → a.toNat ≤ b.toNat := by
    intro a b hab
    exact of_decide_eq_true hab
  simp only [isNameChar, Text.isDigit, Bool.or_eq_true, Bool.and_eq_true, decide_eq_true_eq] at h
  rcases h with (((⟨-, h⟩ | ⟨-, h⟩) | ⟨-, h⟩) | h) | h
  · exact Nat.lt_of_le_of_lt (hLess c 'z' (decide_eq_true h)) (by decide)
  · exact Nat.lt_of_le_of_lt (hLess c 'Z' (decide_eq_true h)) (by decide)
  · exact Nat.lt_of_le_of_lt (hLess c '9' (decide_eq_true h)) (by decide)
  · subst h
    decide
  · subst h
    decide

theorem isNameByte_of_large {b : UInt8} (h : 128 ≤ b.toNat) : isNameByte b = false := by
  have hTop : ∀ c : Char, c.toNat < 128 → ¬ b ≤ asciiByte c := by
    intro c hc hLe
    have hNat := UInt8.le_iff_toNat_le.mp hLe
    rw [Text.toNat_asciiByte hc] at hNat
    omega
  have hOther : ∀ c : Char, c.toNat < 128 → b ≠ asciiByte c :=
    fun c hc hEq => hTop c hc (hEq ▸ UInt8.le_refl _)
  simp [isNameByte, isDigitByte, hTop 'z' (by decide), hTop 'Z' (by decide),
    hTop '9' (by decide), hOther '_' (by decide), hOther '$' (by decide)]

theorem classifies_name : Classifies isNameByte isNameChar :=
  .of_below (fun _ => toNat_lt_of_isNameChar) (by decide) fun _ => isNameByte_of_large

theorem classifies_digit : Classifies isDigitByte Text.isDigit := by
  refine .of_below (fun c hc => toNat_lt_of_isNameChar (isNameChar_of_isDigit hc)) (by decide) ?_
  intro b hb
  have hName := isNameByte_of_large hb
  simp only [isNameByte, Bool.or_eq_false_iff] at hName
  exact hName.1.1.2

theorem runValue_map {digits : List Char} (h : digits.all Text.isDigit = true) :
    runValue (digits.map asciiByte) = Text.digitsValue digits := by
  rw [runValue, Text.digitsValue, List.foldl_map]
  refine List.foldl_ext _ _ _ fun value c hc => ?_
  have hAscii := toNat_lt_of_isNameChar (isNameChar_of_isDigit (List.all_eq_true.mp h c hc))
  rw [Text.toNat_asciiByte hAscii, Text.toNat_asciiByte (by decide), Text.digitValue]

theorem runText_map {name : List Char} (h : name.all isNameChar = true) :
    runText (name.map asciiByte) = String.ofList name := by
  rw [runText, List.map_map]
  congr 1
  calc name.map ((fun b : UInt8 => Char.ofNat b.toNat) ∘ asciiByte)
      = name.map id := by
        refine List.map_congr_left fun c hc => ?_
        have hAscii := toNat_lt_of_isNameChar (List.all_eq_true.mp h c hc)
        show Char.ofNat (asciiByte c).toNat = c
        rw [Text.toNat_asciiByte hAscii, Char.ofNat_toNat]
    _ = name := List.map_id name

/-! ## Offsets behind a front part -/

theorem take_encoded (front back : List Char) :
    (encoded (front ++ back)).take (byteLength front) = encoded front := by
  rw [Text.encoded_append, ← Text.length_encoded, List.take_left]

theorem drop_encoded (front back : List Char) :
    (encoded (front ++ back)).drop (byteLength front) = encoded back := by
  rw [Text.encoded_append, ← Text.length_encoded, List.drop_left]

theorem getElem?_encoded (front back : List Char) (k : Nat) :
    (encoded (front ++ back))[byteLength front + k]? = (encoded back)[k]? := by
  rw [← List.getElem?_drop, drop_encoded]

/-- The byte of an ASCII character occurs as often as the character. -/
theorem count_encoded {d : Char} (hAscii : d.toNat < 128) (cs : List Char) :
    (encoded cs).count (asciiByte d) = cs.count d := by
  induction cs with
  | nil => rfl
  | cons c rest ih =>
      rw [Text.encoded_cons, List.count_append, ih, List.count_cons, Nat.add_comm]
      congr 1
      by_cases hc : c = d
      · subst hc
        simp [Text.encodeChar_ascii hAscii]
      · have hNone : asciiByte d ∉ String.utf8EncodeChar c :=
          fun hIn => hc (Text.eq_of_asciiByte_mem hAscii hIn)
        simp [List.count_eq_zero.mpr hNone, hc]

theorem getLast?_encoded {d : Char} (hAscii : d.toNat < 128) (cs : List Char) :
    (encoded cs).getLast? = some (asciiByte d) ↔ cs.getLast? = some d := by
  rcases List.eq_nil_or_concat cs with rfl | ⟨front, c, rfl⟩
  · simp [encoded]
  · have hOne : encoded [c] = String.utf8EncodeChar c := List.append_nil _
    have hNonempty : encoded [c] ≠ [] := hOne ▸ String.utf8EncodeChar_ne_nil
    rw [List.concat_eq_append, Text.encoded_append, List.getLast?_append_of_ne_nil _ hNonempty,
      List.getLast?_concat, hOne, Option.some.injEq]
    constructor
    · intro hLast
      exact Text.eq_of_asciiByte_mem hAscii (List.mem_of_getLast? hLast)
    · rintro rfl
      rw [Text.encodeChar_ascii hAscii]
      rfl

/-! ## Tokens in a part of a text -/

/-- The placeholders that start in the middle one of three parts of a text. -/
def tokensIn (front part back : List Char) : List Placeholder :=
  (List.range' (byteLength front) (byteLength part)).filterMap
    (tokenAt? (encoded (front ++ (part ++ back))))

theorem tokensIn_append (front first second back : List Char) :
    tokensIn front (first ++ second) back =
      tokensIn front first (second ++ back) ++ tokensIn (front ++ first) second back := by
  have hRange : List.range' (byteLength front) (byteLength (first ++ second)) =
      List.range' (byteLength front) (byteLength first) ++
        List.range' (byteLength (front ++ first)) (byteLength second) := by
    rw [Text.byteLength_append, Text.byteLength_append, List.range'_append_1]
  simp only [tokensIn, hRange, List.filterMap_append, List.append_assoc]

/-- The odd number of quotes in front of an offset is an open literal. -/
theorem count_quote_eq (front back : List Char) :
    ((encoded (front ++ back)).take (byteLength front)).count (asciiByte '\'') % 2 = 1 ↔
      leavesOpen false front = true := by
  rw [take_encoded, count_encoded (by decide), leavesOpen_eq, Bool.false_xor, beq_iff_eq]

/-- Characters other than a question mark and a colon start nothing. -/
theorem tokensIn_still {front part : List Char} (h : ∀ c ∈ part, c ≠ '?' ∧ c ≠ ':')
    (back : List Char) : tokensIn front part back = [] := by
  rw [tokensIn, List.filterMap_eq_nil_iff]
  intro start hStart
  obtain ⟨hLow, hHigh⟩ := List.mem_range'_1.mp hStart
  obtain ⟨k, rfl⟩ := Nat.exists_eq_add_of_le hLow
  have hIn : k < (encoded part).length := by
    rw [Text.length_encoded]
    omega
  have hByte : (encoded (front ++ (part ++ back)))[byteLength front + k]? =
      some (encoded part)[k] := by
    rw [getElem?_encoded, Text.encoded_append, List.getElem?_append_left hIn,
      List.getElem?_eq_getElem hIn]
  -- A byte of a question mark or a colon would be the whole of that character.
  have hOther : ∀ d : Char, d.toNat < 128 → (∀ c ∈ part, c ≠ d) →
      (encoded part)[k] ≠ asciiByte d := by
    intro d hAscii hNone hSame
    obtain ⟨c, hc, hMem⟩ := List.mem_flatMap.mp (List.getElem_mem hIn)
    rw [hSame] at hMem
    exact hNone c hc (Text.eq_of_asciiByte_mem hAscii hMem)
  have hMark := hOther '?' (by decide) fun c hc => (h c hc).1
  have hColon := hOther ':' (by decide) fun c hc => (h c hc).2
  simp only [tokenAt?, hByte, Option.some.injEq, hMark, hColon, false_and, if_false, ite_self]

/-- A character of one byte starts what its offset starts. -/
theorem tokensIn_single {c : Char} (hSize : byteLength [c] = 1) (front back : List Char) :
    tokensIn front [c] back =
      (tokenAt? (encoded (front ++ ([c] ++ back))) (byteLength front)).toList := by
  rw [tokensIn, hSize, List.range'_one, List.filterMap_cons]
  cases tokenAt? (encoded (front ++ ([c] ++ back))) (byteLength front) <;> rfl

/-- In an open literal, no character starts anything. -/
theorem tokensIn_open {front : List Char} (hOpen : leavesOpen false front = true) (c : Char)
    (back : List Char) : tokensIn front [c] back = [] := by
  by_cases hStill : c ≠ '?' ∧ c ≠ ':'
  · exact tokensIn_still (List.forall_mem_singleton.mpr hStill) back
  · have hSize : byteLength [c] = 1 := by
      rw [not_and_or, not_not, not_not] at hStill
      rcases hStill with rfl | rfl <;> decide
    have hQuotes := (count_quote_eq front ([c] ++ back)).mpr hOpen
    rw [tokensIn_single hSize, tokenAt?, if_pos hQuotes]
    rfl

/-- The byte of an ASCII character behind a front part. -/
theorem getElem?_ascii {c : Char} (hAscii : c.toNat < 128) (front back : List Char) :
    (encoded (front ++ ([c] ++ back)))[byteLength front]? = some (asciiByte c) := by
  have hAt := getElem?_encoded front ([c] ++ back) 0
  rw [Nat.add_zero] at hAt
  rw [hAt, List.singleton_append, Text.encoded_cons, Text.encodeChar_ascii hAscii]
  rfl

/-- The run of bytes behind a mark of one byte is that of the characters behind it. -/
theorem runFrom_encoded {onBytes : UInt8 → Bool} {onChars : Char → Bool}
    (hClass : Classifies onBytes onChars) {mark : Char} (hSize : byteLength [mark] = 1)
    (front back : List Char) :
    runFrom onBytes (encoded (front ++ ([mark] ++ back))) (byteLength front + 1) =
      encoded (back.takeWhile onChars) := by
  have hLength : byteLength front + 1 = byteLength (front ++ [mark]) := by
    rw [Text.byteLength_append, hSize]
  rw [runFrom, hLength, ← List.append_assoc, drop_encoded, Text.takeWhile_encoded hClass]

section Starts

variable {front : List Char} (hClosed : leavesOpen false front = false)
include hClosed

theorem not_count_quote (back : List Char) :
    ¬ ((encoded (front ++ back)).take (byteLength front)).count (asciiByte '\'') % 2 = 1 := by
  rw [count_quote_eq, hClosed]
  decide

/-- A question mark outside a literal starts a placeholder with all digits behind it. -/
theorem tokensIn_mark {digits back : List Char} (hDigits : digits.all Text.isDigit = true)
    (hStops : Stops Text.isDigit back) :
    tokensIn front ['?'] (digits ++ back) =
      [⟨.positional (number? digits), byteLength front,
        byteLength front + byteLength ('?' :: digits)⟩] := by
  have hAscii : ∀ c ∈ digits, c.toNat < 128 := fun c hc =>
    toNat_lt_of_isNameChar (isNameChar_of_isDigit (List.all_eq_true.mp hDigits c hc))
  have hRun := runFrom_encoded classifies_digit (show byteLength ['?'] = 1 by decide) front
    (digits ++ back)
  rw [takeWhile_append_of_stops hDigits hStops] at hRun
  have hNumber : runNumber? (encoded digits) = number? digits := by
    rw [Text.encoded_of_ascii hAscii, runNumber?, runValue_map hDigits, number?]
    cases digits <;> rfl
  have hSpan : byteLength front + 1 + (encoded digits).length =
      byteLength front + byteLength ('?' :: digits) := by
    rw [Text.length_encoded, Nat.add_assoc]
    rfl
  rw [tokensIn_single (by decide), tokenAt?, if_neg (not_count_quote hClosed _),
    if_pos (getElem?_ascii (by decide) front _), hRun, hNumber, hSpan]
  rfl

/-- A colon outside a literal, not right after another one, starts a placeholder with the name
behind it. -/
theorem tokensIn_colon {name back : List Char} (hBefore : front.getLast? ≠ some ':')
    (hNonempty : name ≠ []) (hName : name.all isNameChar = true) (hStops : Stops isNameChar back) :
    tokensIn front [':'] (name ++ back) =
      [⟨.named (String.ofList name), byteLength front,
        byteLength front + byteLength (':' :: name)⟩] := by
  have hAscii : ∀ c ∈ name, c.toNat < 128 := fun c hc =>
    toNat_lt_of_isNameChar (List.all_eq_true.mp hName c hc)
  have hRun := runFrom_encoded classifies_name (show byteLength [':'] = 1 by decide) front
    (name ++ back)
  rw [takeWhile_append_of_stops hName hStops] at hRun
  have hByte := getElem?_ascii (show ':'.toNat < 128 by decide) front (name ++ back)
  have hOther : (encoded (front ++ ([':'] ++ (name ++ back))))[byteLength front]? ≠
      some (asciiByte '?') := by
    rw [hByte]
    decide
  have hLast : ((encoded (front ++ ([':'] ++ (name ++ back)))).take
      (byteLength front)).getLast? ≠ some (asciiByte ':') := by
    rw [take_encoded, ne_eq, getLast?_encoded (by decide)]
    exact hBefore
  have hSome : encoded name ≠ [] := by
    rw [Text.encoded_of_ascii hAscii]
    simpa using hNonempty
  have hSpan : byteLength front + 1 + (encoded name).length =
      byteLength front + byteLength (':' :: name) := by
    rw [Text.length_encoded, Nat.add_assoc]
    rfl
  rw [tokensIn_single (by decide), tokenAt?, if_neg (not_count_quote hClosed _), if_neg hOther,
    hRun, if_pos ⟨hByte, hLast, hSome⟩, hSpan, Text.encoded_of_ascii hAscii, runText_map hName]
  rfl

end Starts

/-- A colon right after another one, or with no name behind it, starts nothing. -/
theorem tokensIn_bare {front back : List Char}
    (h : front.getLast? = some ':' ∨ Stops isNameChar back) : tokensIn front [':'] back = [] := by
  have hByte := getElem?_ascii (show ':'.toNat < 128 by decide) front back
  have hOther : (encoded (front ++ ([':'] ++ back)))[byteLength front]? ≠ some (asciiByte '?') := by
    rw [hByte]
    decide
  have hNone : ¬ ((encoded (front ++ ([':'] ++ back)))[byteLength front]? = some (asciiByte ':') ∧
      ((encoded (front ++ ([':'] ++ back))).take (byteLength front)).getLast? ≠
        some (asciiByte ':') ∧
      runFrom isNameByte (encoded (front ++ ([':'] ++ back))) (byteLength front + 1) ≠ []) := by
    rintro ⟨-, hBefore, hRun⟩
    rw [take_encoded, ne_eq, getLast?_encoded (by decide)] at hBefore
    rw [runFrom_encoded classifies_name (by decide)] at hRun
    rcases h with hLast | hStops
    · exact hBefore hLast
    · have hNil : ([] ++ back).takeWhile isNameChar = [] := takeWhile_append_of_stops rfl hStops
      rw [List.nil_append] at hNil
      exact hRun (congrArg encoded hNil)
  rw [tokensIn_single (by decide), tokenAt?, if_neg hOther, if_neg hNone]
  split <;> rfl

/-! ## Tokens of segments -/

/-- What the state of a scan says about the characters in front: whether they leave a literal open,
and, if they do not, whether they end in a colon. -/
structure Behind (front : List Char) (quoted afterColon : Bool) : Prop where
  quotes : leavesOpen false front = quoted
  colon : quoted = false → (afterColon = true ↔ front.getLast? = some ':')

namespace Behind

variable {front : List Char} {quoted afterColon : Bool}

theorem start : Behind [] false false where
  quotes := rfl
  colon := fun _ => by simp

theorem next (h : Behind front quoted afterColon) (c : Char) :
    Behind (front ++ [c]) (openAfter quoted c) (colonAfter quoted c) where
  quotes := by
    rw [leavesOpen_append, h.quotes]
    rfl
  colon := by
    intro hClosed
    rw [List.getLast?_concat, Option.some.injEq, colonAfter, Bool.and_eq_true, decide_eq_true_iff]
    refine ⟨fun hBoth => hBoth.2, ?_⟩
    rintro rfl
    exact ⟨by simpa [openAfter] using hClosed, rfl⟩

/-- A placeholder ends in no colon. -/
theorem marker {kind : Kind} {spelling : List Char} (h : Behind front false afterColon)
    (hSpells : Spells afterColon kind spelling) : Behind (front ++ spelling) false false where
  quotes := by rw [leavesOpen_append, h.quotes, hSpells.leavesOpen]
  colon := by
    intro _
    have hNone : ∀ c ∈ spelling.getLast?, c ≠ ':' := by
      cases hSpells with
      | positional _ digits hDigits =>
          intro c hc
          rcases List.mem_cons.mp (List.mem_of_getLast? hc) with rfl | hDigit
          · decide
          · exact Text.ne_of_isDigit (List.all_eq_true.mp hDigits c hDigit) (by decide)
      | named name hNonempty hName =>
          intro c hc
          rw [List.getLast?_cons_of_ne_nil hNonempty] at hc
          rintro rfl
          have hColon := List.all_eq_true.mp hName ':' (List.mem_of_getLast? hc)
          exact absurd hColon (by decide)
    have hNonempty : spelling ≠ [] := by
      cases hSpells <;> exact List.cons_ne_nil _ _
    rw [List.getLast?_append_of_ne_nil _ hNonempty]
    constructor
    · exact fun hFalse => absurd hFalse (by decide)
    · exact fun hLast => absurd rfl (hNone ':' hLast)

end Behind

/-- A character that a cut leaves alone starts nothing, and the rest is cut behind it. -/
theorem Behind.plain {front : List Char} {quoted afterColon : Bool} {c : Char}
    {rest : List Segment} (hBehind : Behind front quoted afterColon)
    (hCut : WellCut quoted afterColon (.plain c :: rest)) :
    ∃ quoted' afterColon', Behind (front ++ [c]) quoted' afterColon' ∧
      WellCut quoted' afterColon' rest ∧ tokensIn front [c] (spelled rest) = [] := by
  obtain ⟨hBare, hRest⟩ := wellCut_plain_cons.mp hCut
  refine ⟨openAfter quoted c, colonAfter quoted c, hBehind.next c, hRest, ?_⟩
  cases quoted with
  | true => exact tokensIn_open hBehind.quotes c _
  | false =>
      obtain ⟨hMark, hAlone⟩ := hBare rfl
      by_cases hColon : c = ':'
      · subst hColon
        exact tokensIn_bare ((hAlone rfl).imp_left (hBehind.colon rfl).mp)
      · exact tokensIn_still (List.forall_mem_singleton.mpr ⟨hMark, hColon⟩) _

/-- The characters that spell a placeholder start just that one. -/
theorem Behind.tokensIn_spelling {front back : List Char} {afterColon : Bool} {kind : Kind}
    {spelling : List Char} (hBehind : Behind front false afterColon)
    (hSpells : Spells afterColon kind spelling) (hStops : Stops kind.takes back) :
    tokensIn front spelling back =
      [⟨kind, byteLength front, byteLength front + byteLength spelling⟩] := by
  cases hSpells with
  | positional _ digits hDigits =>
      have hStill : ∀ c ∈ digits, c ≠ '?' ∧ c ≠ ':' := by
        intro c hc
        have hDigit := List.all_eq_true.mp hDigits c hc
        exact ⟨Text.ne_of_isDigit hDigit (by decide), Text.ne_of_isDigit hDigit (by decide)⟩
      have hSplit := tokensIn_append front ['?'] digits back
      rw [List.singleton_append, tokensIn_mark hBehind.quotes hDigits hStops,
        tokensIn_still hStill, List.append_nil] at hSplit
      exact hSplit
  | named name hNonempty hName =>
      have hStill : ∀ c ∈ name, c ≠ '?' ∧ c ≠ ':' := by
        intro c hc
        have hChar := List.all_eq_true.mp hName c hc
        constructor <;> rintro rfl <;> exact absurd hChar (by decide)
      have hBefore : front.getLast? ≠ some ':' := by
        intro hLast
        exact absurd ((hBehind.colon rfl).mpr hLast) (by decide)
      have hSplit := tokensIn_append front [':'] name back
      rw [List.singleton_append,
        tokensIn_colon hBehind.quotes hBefore hNonempty hName hStops,
        tokensIn_still hStill, List.append_nil] at hSplit
      exact hSplit

/-- The placeholders that a cut finds in characters behind others are those that start there. -/
theorem located_eq {front : List Char} {quoted afterColon : Bool} {parts : List Segment}
    (hBehind : Behind front quoted afterColon) (hCut : WellCut quoted afterColon parts) :
    located (byteLength front) parts = tokensIn front (spelled parts) [] := by
  induction parts generalizing front quoted afterColon with
  | nil => rfl
  | cons part rest ih =>
      rw [spelled_cons, tokensIn_append, List.append_nil]
      cases part with
      | plain c =>
          obtain ⟨quoted', afterColon', hNext, hRest, hNothing⟩ := hBehind.plain hCut
          have hHere : located (byteLength front) (.plain c :: rest) =
              located (byteLength (front ++ [c])) rest := by
            rw [located, Text.byteLength_append]
            rfl
          rw [hHere, ih hNext hRest, Segment.spelling, hNothing, List.nil_append]
      | marker kind spelling =>
          obtain ⟨rfl, hSpells, hStops, hRest⟩ := hCut
          have hNext := ih (hBehind.marker hSpells) hRest
          rw [Text.byteLength_append] at hNext
          rw [located, hNext, Segment.spelling, hBehind.tokensIn_spelling hSpells hStops]
          rfl

theorem placeholders_eq_tokens (text : String) : placeholders text = tokens (bytes text) := by
  have hLocated : located (byteLength []) (segments text) =
      tokensIn [] (spelled (segments text)) [] :=
    located_eq Behind.start (wellCut_scan false false 0 text.toList)
  rw [spelled_segments, tokensIn, List.append_nil, ← Text.length_encoded text.toList] at hLocated
  show located (byteLength []) (segments text) = tokens (bytes text)
  rw [hLocated, tokens, List.range_eq_range', Text.bytes_eq_encoded]
  rfl

/-! ## Spans -/

/-- A placeholder of segments takes the bytes of one of them. -/
theorem mem_located {start : Nat} {parts : List Segment} {token : Placeholder}
    (h : token ∈ located start parts) :
    ∃ front spelling back, parts = front ++ .marker token.kind spelling :: back ∧
      token.span.start = start + byteLength (spelled front) ∧
      token.span.stop = token.span.start + byteLength spelling := by
  induction parts generalizing start with
  | nil => exact absurd h List.not_mem_nil
  | cons part rest ih =>
      cases part with
      | plain c =>
          obtain ⟨front, spelling, back, rfl, hStart, hStop⟩ := ih h
          refine ⟨.plain c :: front, spelling, back, rfl, ?_, hStop⟩
          rw [hStart, spelled_cons, Text.byteLength_append, Nat.add_assoc]
          rfl
      | marker kind spelling =>
          rcases List.mem_cons.mp h with rfl | hLater
          · exact ⟨[], spelling, rest, rfl, rfl, rfl⟩
          · obtain ⟨front, later, back, rfl, hStart, hStop⟩ := ih hLater
            refine ⟨.marker kind spelling :: front, later, back, rfl, ?_, hStop⟩
            rw [hStart, spelled_cons, Text.byteLength_append, Nat.add_assoc]
            rfl

theorem pairwise_located (start : Nat) (parts : List Segment) :
    (located start parts).Pairwise fun first second => first.span.stop ≤ second.span.start := by
  induction parts generalizing start with
  | nil => exact .nil
  | cons part rest ih =>
      cases part with
      | plain c => exact ih _
      | marker kind spelling =>
          refine .cons (fun later hLater => ?_) (ih _)
          obtain ⟨front, -, -, -, hStart, -⟩ := mem_located hLater
          show start + byteLength spelling ≤ later.span.start
          omega

theorem Spells.byteLength_pos {afterColon : Bool} {kind : Kind} {spelling : List Char}
    (h : Spells afterColon kind spelling) : 0 < byteLength spelling := by
  cases h with
  | positional _ digits => exact Nat.add_pos_left (Char.utf8Size_pos '?') (byteLength digits)
  | named name => exact Nat.add_pos_left (Char.utf8Size_pos ':') (byteLength name)

/-- A segment of well-cut ones that is a placeholder is spelled as one. -/
theorem WellCut.spells {quoted afterColon : Bool} {front back : List Segment} {kind : Kind}
    {spelling : List Char}
    (h : WellCut quoted afterColon (front ++ .marker kind spelling :: back)) :
    ∃ colon, Spells colon kind spelling := by
  induction front generalizing quoted afterColon with
  | nil => exact ⟨_, h.2.1⟩
  | cons part rest ih =>
      cases part with
      | marker other more => exact ih h.2.2.2
      | plain c => exact ih (wellCut_plain_cons.mp h).2

/-- The end of a front part of a text is a boundary between characters. -/
theorem isValid_of_append (front back : List Char) :
    (⟨byteLength front⟩ : String.Pos.Raw).IsValid (String.ofList (front ++ back)) := by
  have hSize : byteLength front = (String.ofList front).utf8ByteSize := by
    have hLength := Text.length_bytes (String.ofList front)
    rw [Text.bytes_eq_encoded, String.toList_ofList, Text.length_encoded] at hLength
    exact hLength
  refine String.Pos.Raw.isValid_iff_exists_append.mpr
    ⟨String.ofList front, String.ofList back, String.ofList_append, ?_⟩
  rw [hSize]
  rfl

/-- A placeholder takes at least one byte of its text, and its span starts and stops between
characters. -/
theorem span_of_mem {text : String} {token : Placeholder} (h : token ∈ placeholders text) :
    token.span.start < token.span.stop ∧ token.span.stop ≤ (bytes text).length ∧
      (⟨token.span.start⟩ : String.Pos.Raw).IsValid text ∧
      (⟨token.span.stop⟩ : String.Pos.Raw).IsValid text := by
  obtain ⟨front, spelling, back, hParts, hStart, hStop⟩ := mem_located h
  rw [Nat.zero_add] at hStart
  have hCut := wellCut_scan false false 0 text.toList
  have hSpelled : text.toList = spelled front ++ (spelling ++ spelled back) := by
    rw [← spelled_segments, hParts, spelled_append, spelled_cons]
    rfl
  have hPositive : 0 < byteLength spelling := by
    rw [show scan false false 0 text.toList = segments text from rfl, hParts] at hCut
    obtain ⟨colon, hSpells⟩ := hCut.spells
    exact hSpells.byteLength_pos
  have hLength : (bytes text).length =
      byteLength (spelled front) + (byteLength spelling + byteLength (spelled back)) := by
    rw [Text.bytes_eq_encoded, Text.length_encoded, hSpelled, Text.byteLength_append,
      Text.byteLength_append]
  have hFirst := isValid_of_append (spelled front) (spelling ++ spelled back)
  have hLast := isValid_of_append (spelled front ++ spelling) (spelled back)
  rw [← hSpelled, String.ofList_toList] at hFirst
  rw [List.append_assoc, ← hSpelled, String.ofList_toList, Text.byteLength_append] at hLast
  rw [hStop, hStart]
  refine ⟨by omega, by omega, hFirst, hLast⟩

theorem firstName?_eq_findSome? (text : String) :
    firstName? text = (placeholders text).findSome? (·.kind.name?) := by
  rw [firstName?, names, List.head?_filterMap]

/-- The placeholders of a text are those that start at its offsets, from left to right: a question
mark with all digits behind it, or a single colon with the name behind it, where an even number of
quotes comes before. Their spans are disjoint, within the text and between characters, and the
questions whether a text has a positional placeholder and which name comes first are answered from
the same list. -/
theorem placeholders_by_offset (text : String) :
    placeholders text = tokens (bytes text) ∧
    (placeholders text).Pairwise (fun first second => first.span.stop ≤ second.span.start) ∧
    (∀ token ∈ placeholders text,
      token.span.start < token.span.stop ∧ token.span.stop ≤ (bytes text).length ∧
        (⟨token.span.start⟩ : String.Pos.Raw).IsValid text ∧
        (⟨token.span.stop⟩ : String.Pos.Raw).IsValid text) ∧
    hasPositional text = (tokens (bytes text)).any (·.kind.isPositional) ∧
    firstName? text = (tokens (bytes text)).findSome? (·.kind.name?) := by
  have hTokens := placeholders_eq_tokens text
  refine ⟨hTokens, pairwise_located 0 (segments text), fun token => span_of_mem, ?_, ?_⟩
  · rw [← hTokens, hasPositional]
  · rw [← hTokens, firstName?_eq_findSome?]

/-- Two-byte characters, a cast, a doubled quote, an oversized number and an open literal. -/
theorem placeholders_by_offset_mixed :
    placeholders "é::t = :é? 'it''s ?' ?18446744073709551616:a_1' ?" =
      [⟨.positional none, 11, 12⟩, ⟨.positional (some 18446744073709551615), 23, 44⟩,
        ⟨.named "a_1", 44, 48⟩] ∧
    (⟨44⟩ : String.Pos.Raw).IsValid "é::t = :é? 'it''s ?' ?18446744073709551616:a_1' ?" := by
  obtain ⟨hTokens, -, hSpans, -, -⟩ :=
    placeholders_by_offset "é::t = :é? 'it''s ?' ?18446744073709551616:a_1' ?"
  have hFound := hTokens.trans (show _ = [⟨.positional none, 11, 12⟩,
    ⟨.positional (some 18446744073709551615), 23, 44⟩, ⟨.named "a_1", 44, 48⟩] by decide +kernel)
  have hName := hSpans ⟨.named "a_1", 44, 48⟩ (by simp [hFound])
  exact ⟨hFound, hName.2.2.1⟩

end BoundQuery.Placeholder
