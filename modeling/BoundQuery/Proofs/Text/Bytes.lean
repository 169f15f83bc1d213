import BoundQuery.Text.Span

/-!
# The bytes of a text

Offsets into a text count bytes of its UTF-8 form. `encoded` gives the bytes of characters one after
the other: an ASCII character is one byte of its own value (`encodeChar_ascii`), and all bytes of
any other character are above ASCII (`le_of_mem_encodeChar`), so that a class of ASCII characters
can be told from the bytes alone (`takeWhile_encoded`). `spliced` replaces spans of bytes by other
texts.
-/

namespace BoundQuery.Text

/-- The bytes of characters in UTF-8. -/
def encoded (cs : List Char) : List UInt8 := cs.flatMap String.utf8EncodeChar

/-- The bytes of a text in UTF-8. -/
def bytes (text : String) : List UInt8 := text.toUTF8.data.toList

@[simp] theorem encoded_nil : encoded [] = [] := rfl

theorem bytes_eq_encoded (text : String) : bytes text = encoded text.toList := by
  rw [bytes, String.toUTF8_eq_toByteArray, ← String.utf8Encode_toList]
  exact List.toList_data_toByteArray

@[simp] theorem encoded_cons (c : Char) (rest : List Char) :
    encoded (c :: rest) = String.utf8EncodeChar c ++ encoded rest := List.flatMap_cons

@[simp] theorem encoded_append (front back : List Char) :
    encoded (front ++ back) = encoded front ++ encoded back := List.flatMap_append

@[simp] theorem length_encoded (cs : List Char) : (encoded cs).length = byteLength cs := by
  induction cs with
  | nil => rfl
  | cons c rest ih =>
      rw [encoded_cons, List.length_append, String.length_utf8EncodeChar, ih, byteLength]

@[simp] theorem length_bytes (text : String) : (bytes text).length = text.utf8ByteSize := rfl

/-- A text is known from its bytes. -/
@[simp] theorem bytes_inj {first second : String} :
    bytes first = bytes second ↔ first = second := by
  constructor
  · intro h
    have hData : first.toByteArray.data = second.toByteArray.data := Array.toList_inj.mp h
    exact String.toByteArray_inj.mp (ByteArray.ext hData)
  · rintro rfl
    rfl

/-! ## ASCII -/

/-- The byte of an ASCII character. -/
def asciiByte (c : Char) : UInt8 := UInt8.ofNat c.toNat

theorem encodeChar_ascii {c : Char} (h : c.toNat < 128) :
    String.utf8EncodeChar c = [asciiByte c] := by
  have hSmall : c.val.toNat ≤ 0x7f := Nat.le_of_lt_succ h
  rw [String.utf8EncodeChar]
  exact if_pos hSmall

/-- The bytes of a character that is not ASCII are not ASCII. -/
theorem le_of_mem_encodeChar {c : Char} (h : 128 ≤ c.toNat) {b : UInt8}
    (hb : b ∈ String.utf8EncodeChar c) : 128 ≤ b.toNat := by
  have hLarge : ¬ c.val.toNat ≤ 0x7f := Nat.not_le.mpr h
  rw [String.utf8EncodeChar] at hb
  simp only [if_neg hLarge] at hb
  split at hb
  · simp only [List.mem_cons, List.not_mem_nil, or_false] at hb
    rcases hb with rfl | rfl <;> simp only [UInt8.toNat_ofNat'] <;> omega
  · split at hb
    · simp only [List.mem_cons, List.not_mem_nil, or_false] at hb
      rcases hb with rfl | rfl | rfl <;> simp only [UInt8.toNat_ofNat'] <;> omega
    · simp only [List.mem_cons, List.not_mem_nil, or_false] at hb
      rcases hb with rfl | rfl | rfl | rfl <;> simp only [UInt8.toNat_ofNat'] <;> omega

theorem toNat_asciiByte {c : Char} (h : c.toNat < 128) : (asciiByte c).toNat = c.toNat := by
  rw [asciiByte, UInt8.toNat_ofNat']
  omega

/-- An ASCII byte among the bytes of a character is that character. -/
theorem eq_of_asciiByte_mem {c d : Char} (hAscii : d.toNat < 128)
    (h : asciiByte d ∈ String.utf8EncodeChar c) : c = d := by
  have hValue := toNat_asciiByte hAscii
  by_cases hChar : c.toNat < 128
  · rw [encodeChar_ascii hChar, List.mem_singleton] at h
    have hSame := congrArg UInt8.toNat h
    rw [hValue, toNat_asciiByte hChar] at hSame
    exact Char.toNat_inj.mp hSame.symm
  · have hLarge := le_of_mem_encodeChar (Nat.not_lt.mp hChar) h
    omega

/-! ## Classes of bytes -/

/-- A class of bytes that holds the ASCII characters of a class, and no byte of another one. -/
structure Classifies (onBytes : UInt8 → Bool) (onChars : Char → Bool) : Prop where
  ascii : ∀ c, onChars c = true → c.toNat < 128 ∧ onBytes (asciiByte c) = true
  other : ∀ c, onChars c = false → ∀ b ∈ String.utf8EncodeChar c, onBytes b = false

/-- A class of ASCII characters is one of bytes when it agrees with it below 128. -/
theorem Classifies.of_below {onBytes : UInt8 → Bool} {onChars : Char → Bool}
    (hAscii : ∀ c, onChars c = true → c.toNat < 128)
    (hSame : ∀ n < 128, onBytes (UInt8.ofNat n) = onChars (Char.ofNat n))
    (hLarge : ∀ b : UInt8, 128 ≤ b.toNat → onBytes b = false) : Classifies onBytes onChars where
  ascii := by
    intro c hc
    have hByte := hSame c.toNat (hAscii c hc)
    rw [Char.ofNat_toNat, hc] at hByte
    exact ⟨hAscii c hc, hByte⟩
  other := by
    intro c hc b hb
    by_cases hChar : c.toNat < 128
    · rw [encodeChar_ascii hChar, List.mem_singleton] at hb
      have hByte := hSame c.toNat hChar
      rw [Char.ofNat_toNat, hc] at hByte
      exact hb ▸ hByte
    · exact hLarge b (le_of_mem_encodeChar (Nat.not_lt.mp hChar) hb)

/-- A run of characters of a class is the run of their bytes. -/
theorem takeWhile_encoded {onBytes : UInt8 → Bool} {onChars : Char → Bool}
    (h : Classifies onBytes onChars) (cs : List Char) :
    (encoded cs).takeWhile onBytes = encoded (cs.takeWhile onChars) := by
  induction cs with
  | nil => rfl
  | cons c rest ih =>
      cases hc : onChars c with
      | true =>
          obtain ⟨hAscii, hByte⟩ := h.ascii c hc
          rw [List.takeWhile_cons_of_pos hc, encoded_cons, encoded_cons, encodeChar_ascii hAscii,
            List.singleton_append, List.takeWhile_cons_of_pos hByte, ih]
          rfl
      | false =>
          have hNone : ¬ onChars c = true := by simp [hc]
          obtain ⟨b, more, hBytes⟩ := List.exists_cons_of_ne_nil (@String.utf8EncodeChar_ne_nil c)
          have hByte : ¬ onBytes b = true := by
            have hFirst := h.other c hc b (hBytes ▸ List.mem_cons_self)
            simp [hFirst]
          rw [List.takeWhile_cons_of_neg hNone, encoded_cons, hBytes, List.cons_append,
            List.takeWhile_cons_of_neg hByte]
          rfl

theorem encoded_of_ascii {cs : List Char} (h : ∀ c ∈ cs, c.toNat < 128) :
    encoded cs = cs.map asciiByte := by
  induction cs with
  | nil => rfl
  | cons c rest ih =>
      rw [encoded_cons, encodeChar_ascii (h c (by simp)), ih fun d hd => h d (by simp [hd])]
      rfl

/-! ## Replaced spans -/

/-- Bytes from an offset on, with texts in the place of some spans that come in order. -/
def spliced (source : List UInt8) (start : Nat) : List (Span × String) → List UInt8
  | [] => source.drop start
  | (span, replacement) :: rest =>
      (source.drop start).take (span.start - start) ++ bytes replacement ++
        spliced source span.stop rest

end BoundQuery.Text
