import BoundQuery.Proofs.Placeholder.Joined
import BoundQuery.Proofs.Placeholder.Offsets

/-!
# The seam between two texts

A placeholder takes all digits or name characters behind its mark, so where two texts are joined the
end of the first can read on into the second: a number or a name goes on, or a colon at the end and
one at the start become a cast. `Fuses` lists these cases by the characters at the seam alone.
`placeholders_join_iff` says that there are no others: texts of closed literals, joined one after
the other, have just the placeholders that each of them has on its own if and only if no text fuses
with what stands before it.
-/

namespace BoundQuery.Placeholder

open Text (asciiByte bytes encoded byteLength)

/-! ## What reads on over a seam -/

/-- A placeholder at the end of some characters takes the first of the characters behind it. -/
inductive RunsOn (front back : List Char) : Prop
  | number (before digits : List Char) (hFront : front = before ++ '?' :: digits)
      (hQuotes : leavesOpen false before = false) (hDigits : digits.all Text.isDigit)
      (hNext : ¬ Stops Text.isDigit back)
  | name (before name : List Char) (hFront : front = before ++ ':' :: name)
      (hQuotes : leavesOpen false before = false) (hSingle : before.getLast? ≠ some ':')
      (hName : name.all isNameChar) (hNext : ¬ Stops isNameChar back)

/-- A colon at the end of some characters and one in front of a name behind it are a cast. -/
def Casts (front back : List Char) : Prop :=
  front.getLast? = some ':' ∧ ∃ rest, back = ':' :: rest ∧ ¬ Stops isNameChar rest

/-- Two texts are read together where they meet. -/
def Fuses (front back : String) : Prop :=
  RunsOn front.toList back.toList ∨ Casts front.toList back.toList

theorem exists_run_of_not_stops {p : Char → Bool} {cs : List Char} (h : ¬ Stops p cs) :
    ∃ run rest, cs = run ++ rest ∧ run ≠ [] ∧ run.all p ∧ Stops p rest := by
  have hParts : cs.takeWhile p ++ cs.drop (cs.takeWhile p).length = cs :=
    List.prefix_iff_eq_append.mp (List.takeWhile_prefix p)
  refine ⟨_, _, hParts.symm, fun hNil => h ?_, List.all_takeWhile, stops_drop_takeWhile p cs⟩
  exact stops_of_takeWhile_eq_nil hNil

theorem Stops.append_of_nil {p : Char → Bool} {front back : List Char} (hFront : Stops p front)
    (hBack : front = [] → Stops p back) : Stops p (front ++ back) := by
  cases front with
  | nil => exact hBack rfl
  | cons c rest => exact stops_cons (hFront c rfl)

/-- Well-cut segments stay well cut in front of others that they do not run on into. The characters
before are all that was read so far, so that what runs on can be told from the texts alone. -/
theorem WellCut.append_behind {before : List Char} {quoted afterColon : Bool}
    {front back : List Segment} (hBehind : Behind before quoted afterColon)
    (hFront : WellCut quoted afterColon front)
    (hBack : ∀ open' colon', Behind (before ++ spelled front) open' colon' →
      WellCut open' colon' back)
    (hSeam : ¬ RunsOn (before ++ spelled front) (spelled back)) :
    WellCut quoted afterColon (front ++ back) := by
  induction front generalizing before quoted afterColon with
  | nil => exact hBack quoted afterColon (by simpa [spelled] using hBehind)
  | cons part rest ih =>
      have hBoth : before ++ spelled (part :: rest) = before ++ part.spelling ++ spelled rest := by
        rw [spelled_cons, List.append_assoc]
      rw [hBoth] at hBack hSeam
      cases part with
      | plain c =>
          obtain ⟨hBare, hRest⟩ := wellCut_plain_cons.mp hFront
          refine wellCut_plain_cons.mpr
            ⟨fun hClosed => ?_, ih (hBehind.next c) hRest hBack hSeam⟩
          subst hClosed
          obtain ⟨hMark, hAlone⟩ := hBare rfl
          refine ⟨hMark, fun hColon => ?_⟩
          show afterColon = true ∨ Stops isNameChar (spelled (rest ++ back))
          rw [spelled_append]
          -- A single colon at the end must not come in front of a name.
          by_cases hAfter : afterColon = true
          · exact .inl hAfter
          refine .inr (((hAlone hColon).resolve_left hAfter).append_of_nil fun hNil => ?_)
          by_contra hNext
          have hSingle : before.getLast? ≠ some ':' := mt (hBehind.colon rfl).mpr hAfter
          refine hSeam (.name before [] ?_ hBehind.quotes hSingle rfl hNext)
          rw [hNil, List.append_nil, hColon]
          rfl
      | marker kind spelling =>
          obtain ⟨rfl, hSpells, hStops, hRest⟩ := hFront
          refine ⟨rfl, hSpells, ?_, ih (hBehind.marker hSpells) hRest hBack hSeam⟩
          show Stops kind.takes (spelled (rest ++ back))
          rw [spelled_append]
          refine hStops.append_of_nil fun hNil => ?_
          by_contra hNext
          rw [hNil, List.append_nil] at hSeam
          cases hSpells with
          | positional _ digits hDigits =>
              exact hSeam (.number before digits rfl hBehind.quotes hDigits hNext)
          | named name hNonempty hName =>
              have hSingle : before.getLast? ≠ some ':' := by
                intro hLast
                exact absurd ((hBehind.colon rfl).mpr hLast) (by decide)
              exact hSeam (.name before name rfl hBehind.quotes hSingle hName hNext)

/-- Segments that are well cut at the start of a text are so behind a colon too, unless their own
colon makes a cast with it. -/
theorem WellCut.behind_colon {parts : List Segment} (h : WellCut false false parts)
    (hCast : ∀ rest, spelled parts = ':' :: rest → Stops isNameChar rest) :
    WellCut false true parts := by
  cases parts with
  | nil => trivial
  | cons part rest =>
      cases part with
      | plain c =>
          obtain ⟨hBare, hRest⟩ := wellCut_plain_cons.mp h
          exact wellCut_plain_cons.mpr
            ⟨fun hClosed => ⟨(hBare hClosed).1, fun _ => .inl rfl⟩, hRest⟩
      | marker kind spelling =>
          obtain ⟨-, hSpells, hStops, hRest⟩ := h
          refine ⟨rfl, ?_, hStops, hRest⟩
          cases hSpells with
          | positional _ digits hDigits => exact .positional _ digits hDigits
          | named name hNonempty hName =>
              have hNone := hCast (name ++ spelled rest) rfl
              obtain ⟨c, more, rfl⟩ := List.exists_cons_of_ne_nil hNonempty
              have hHead : isNameChar c = true := List.all_eq_true.mp hName c (.head _)
              exact absurd hHead (by simp [hNone c rfl])

theorem Stops.of_append {p : Char → Bool} {front back : List Char} (h : Stops p (front ++ back)) :
    Stops p front := by
  intro c hc
  exact h c (by rw [List.head?_append, Option.mem_def.mp hc]; rfl)

theorem RunsOn.append {front back : List Char} (h : RunsOn front back) (more : List Char) :
    RunsOn front (back ++ more) := by
  cases h with
  | number before digits hFront hQuotes hDigits hNext =>
      exact .number before digits hFront hQuotes hDigits (mt Stops.of_append hNext)
  | name before name hFront hQuotes hSingle hName hNext =>
      exact .name before name hFront hQuotes hSingle hName (mt Stops.of_append hNext)

/-- A text that continues nothing fuses with nothing before it. -/
theorem not_fuses_of_apart {back : String} (h : Apart back.toList) (front : String) :
    ¬ Fuses front back := by
  rintro (hRun | ⟨-, rest, hBack, -⟩)
  · have hName : Stops isNameChar back.toList := h.stopsName
    cases hRun with
    | number before digits hFront hQuotes hDigits hNext =>
        exact hNext (hName.mono fun _ => isNameChar_of_isDigit)
    | name before name hFront hQuotes hSingle hNameAll hNext => exact hNext hName
  · rw [hBack] at h
    exact absurd (h ':' rfl) (by decide)

/-- A text fuses with nothing behind it if no placeholder can end as it does. -/
theorem not_fuses_of_end {front : String} {before : List Char} {c : Char}
    (hFront : front.toList = before ++ [c])
    (hEnd : isNameChar c = false ∧ c ≠ '?' ∧ c ≠ ':') (back : String) : ¬ Fuses front back := by
  obtain ⟨hName, hMark, hColon⟩ := hEnd
  have hLast : ∀ start (more : List Char), front.toList = start ++ more → more ≠ [] → c ∈ more := by
    intro start more hSplit hNonempty
    have hEnds : front.toList.getLast? = some c := by rw [hFront, List.getLast?_concat]
    rw [hSplit, List.getLast?_append_of_ne_nil _ hNonempty] at hEnds
    exact List.mem_of_getLast? hEnds
  rintro (hRun | ⟨hCast, -⟩)
  · cases hRun with
    | number start digits hSplit hQuotes hDigits hNext =>
        rcases List.mem_cons.mp (hLast _ _ hSplit (List.cons_ne_nil _ _)) with hHere | hDigit
        · exact hMark hHere
        · have hChar := isNameChar_of_isDigit (List.all_eq_true.mp hDigits c hDigit)
          exact absurd (hName.symm.trans hChar) (by decide)
    | name start name hSplit hQuotes hSingle hAll hNext =>
        rcases List.mem_cons.mp (hLast _ _ hSplit (List.cons_ne_nil _ _)) with hHere | hLetter
        · exact hColon hHere
        · have hChar := List.all_eq_true.mp hAll c hLetter
          exact absurd (hName.symm.trans hChar) (by decide)
  · rw [hFront, List.getLast?_concat] at hCast
    exact hColon (Option.some.inj hCast)

/-- Texts that do not fuse are cut each on its own. -/
theorem segments_join {front back : String} (hClosed : Closed front)
    (hSeam : ¬ Fuses front back) : segments (front ++ back) = segments front ++ segments back := by
  obtain ⟨hRun, hCast⟩ := not_or.mp hSeam
  have hFront : WellCut false false (segments front) := wellCut_scan false false 0 front.toList
  have hBack : WellCut false false (segments back) := wellCut_scan false false 0 back.toList
  have hCut : WellCut false false (segments front ++ segments back) := by
    refine hFront.append_behind Behind.start ?_ ?_
    · intro quoted colon hBehind
      rw [List.nil_append, spelled_segments] at hBehind
      obtain rfl : false = quoted := hClosed.symm.trans hBehind.quotes
      cases colon with
      | false => exact hBack
      | true =>
          refine hBack.behind_colon fun rest hRest => ?_
          by_contra hName
          rw [spelled_segments] at hRest
          exact hCast ⟨(hBehind.colon rfl).mp rfl, rest, hRest, hName⟩
    · rw [List.nil_append, spelled_segments, spelled_segments]
      exact hRun
  have hScan := scan_spelled hCut
  rwa [spelled_append, spelled_segments, spelled_segments, ← String.toList_append] at hScan

/-! ## Fused texts -/

theorem start_of_tokenAt? {source : List UInt8} {start : Nat} {token : Placeholder}
    (h : tokenAt? source start = some token) : token.span.start = start := by
  simp only [tokenAt?] at h
  split_ifs at h
  · rw [← Option.some.inj h]
  · rw [← Option.some.inj h]

theorem mem_placeholders_iff {text : String} {token : Placeholder} :
    token ∈ placeholders text ↔
      token.span.start < (bytes text).length ∧
        tokenAt? (bytes text) token.span.start = some token := by
  rw [placeholders_eq_tokens, tokens, List.mem_filterMap]
  constructor
  · rintro ⟨start, hStart, hToken⟩
    obtain rfl := start_of_tokenAt? hToken
    exact ⟨List.mem_range.mp hStart, hToken⟩
  · rintro ⟨hStart, hToken⟩
    exact ⟨_, List.mem_range.mpr hStart, hToken⟩

/-- A mark of one byte that starts a placeholder does so in any text that it stands in. -/
theorem mem_of_tokensIn {text : String} {front back : List Char} {mark : Char} {kind : Kind}
    {stop : Nat} (hText : text.toList = front ++ mark :: back) (hSize : byteLength [mark] = 1)
    (h : tokensIn front [mark] back = [⟨kind, byteLength front, stop⟩]) :
    ⟨kind, byteLength front, stop⟩ ∈ placeholders text := by
  rw [tokensIn_single hSize, Option.toList_eq_singleton_iff, List.singleton_append, ← hText,
    ← Text.bytes_eq_encoded] at h
  refine mem_placeholders_iff.mpr ⟨?_, h⟩
  have hLength : (bytes text).length = byteLength front + (1 + byteLength back) := by
    rw [Text.bytes_eq_encoded, Text.length_encoded, hText, ← List.singleton_append,
      Text.byteLength_append, Text.byteLength_append, hSize]
  show byteLength front < _
  omega

theorem byteLength_pos {cs : List Char} (h : cs ≠ []) : 0 < byteLength cs := by
  obtain ⟨c, rest, rfl⟩ := List.exists_cons_of_ne_nil h
  exact Nat.add_pos_left (Char.utf8Size_pos c) (byteLength rest)

/-- A placeholder that runs on over the seam starts before it and stops behind it. -/
theorem RunsOn.straddles {front back : List Char} (h : RunsOn front back) {text : String}
    (hText : text.toList = front ++ back) :
    ∃ token ∈ placeholders text,
      token.span.start < byteLength front ∧ byteLength front < token.span.stop := by
  cases h with
  | number before digits hFront hQuotes hDigits hNext =>
      obtain ⟨run, rest, rfl, hNonempty, hRun, hStops⟩ := exists_run_of_not_stops hNext
      have hAll : (digits ++ run).all Text.isDigit = true := by
        rw [List.all_append, hDigits, hRun]
        rfl
      have hToken := tokensIn_mark hQuotes hAll hStops
      have hWhole : text.toList = before ++ '?' :: (digits ++ run ++ rest) := by
        simp [hText, hFront]
      refine ⟨_, mem_of_tokensIn hWhole (by decide) hToken, ?_⟩
      have hPositive := byteLength_pos hNonempty
      rw [hFront]
      simp only [Text.byteLength_append, byteLength]
      have hMark := Char.utf8Size_pos '?'
      omega
  | name before name hFront hQuotes hSingle hName hNext =>
      obtain ⟨run, rest, rfl, hNonempty, hRun, hStops⟩ := exists_run_of_not_stops hNext
      have hAll : (name ++ run).all isNameChar = true := by
        rw [List.all_append, hName, hRun]
        rfl
      have hSome : name ++ run ≠ [] := List.append_ne_nil_of_right_ne_nil name hNonempty
      have hToken := tokensIn_colon hQuotes hSingle hSome hAll hStops
      have hWhole : text.toList = before ++ ':' :: (name ++ run ++ rest) := by
        simp [hText, hFront]
      refine ⟨_, mem_of_tokensIn hWhole (by decide) hToken, ?_⟩
      have hPositive := byteLength_pos hNonempty
      rw [hFront]
      simp only [Text.byteLength_append, byteLength]
      have hMark := Char.utf8Size_pos ':'
      omega

/-- In a cast no placeholder starts behind the seam. -/
theorem not_start_of_cast {front back : List Char} (hLast : front.getLast? = some ':')
    {text : String} (hText : text.toList = front ++ ':' :: back) {token : Placeholder}
    (hToken : token ∈ placeholders text) : token.span.start ≠ byteLength front := by
  intro hStart
  obtain ⟨-, hAt⟩ := mem_placeholders_iff.mp hToken
  have hBare : tokensIn front [':'] back = [] := tokensIn_bare (.inl hLast)
  rw [tokensIn_single (by decide), Option.toList_eq_nil_iff, List.singleton_append, ← hText,
    ← Text.bytes_eq_encoded, ← hStart, hAt] at hBare
  exact absurd hBare (by simp)

/-- On its own, a text that starts with a colon and a name starts with a placeholder. -/
theorem exists_first {text : String} {rest : List Char} (hText : text.toList = ':' :: rest)
    (hName : ¬ Stops isNameChar rest) : ∃ token ∈ placeholders text, token.span.start = 0 := by
  obtain ⟨run, more, rfl, hNonempty, hRun, hStops⟩ := exists_run_of_not_stops hName
  have hStart : ([] : List Char).getLast? ≠ some ':' := by simp
  have hToken := tokensIn_colon rfl hStart hNonempty hRun hStops
  have hSplit : text.toList = [] ++ ':' :: (run ++ more) := hText
  exact ⟨_, mem_of_tokensIn hSplit (by decide) hToken, rfl⟩

/-! ## Texts one after the other -/

/-- The placeholders of texts one after the other, each text scanned on its own; the first one
starts at an offset. -/
def inTurn (offset : Nat) : List String → List Placeholder
  | [] => []
  | text :: rest =>
      (placeholders text).map (shifted offset) ++
        inTurn (offset + byteLength text.toList) rest

/-- No text of a list fuses with what stands before it. -/
def StandApart (front : String) : List String → Prop
  | [] => True
  | text :: rest => ¬ Fuses front text ∧ StandApart (front ++ text) rest

theorem kinds_inTurn (offset : Nat) (texts : List String) :
    (inTurn offset texts).map (·.kind) = texts.flatMap kinds := by
  induction texts generalizing offset with
  | nil => rfl
  | cons text rest ih =>
      rw [inTurn, List.map_append, ih, List.map_map, List.flatMap_cons]
      rfl

theorem le_start_of_mem_inTurn {offset : Nat} {texts : List String} {token : Placeholder}
    (h : token ∈ inTurn offset texts) : offset ≤ token.span.start := by
  induction texts generalizing offset with
  | nil => exact absurd h List.not_mem_nil
  | cons text rest ih =>
      rcases List.mem_append.mp h with hHere | hLater
      · obtain ⟨original, -, rfl⟩ := List.mem_map.mp hHere
        exact Nat.le_add_right _ _
      · exact Nat.le_of_add_right_le (ih hLater)

/-- A text that fuses with what stands before it is not scanned on its own, whatever follows. -/
theorem not_fuses_of_inTurn {front text : String} {rest : List String}
    (h : placeholders (front ++ (text ++ String.join rest)) =
      placeholders front ++ inTurn (byteLength front.toList) (text :: rest)) :
    ¬ Fuses front text := by
  have hWhole : (front ++ (text ++ String.join rest)).toList =
      front.toList ++ (text.toList ++ (String.join rest).toList) := by
    simp only [String.toList_append]
  rintro (hRun | ⟨hLast, more, hText, hName⟩)
  · obtain ⟨token, hToken, hStart, hStop⟩ := (hRun.append _).straddles hWhole
    rw [h] at hToken
    rcases List.mem_append.mp hToken with hFront | hLater
    · have hInside := (span_of_mem hFront).2.1
      rw [Text.bytes_eq_encoded, Text.length_encoded] at hInside
      omega
    · have hBehind := le_start_of_mem_inTurn hLater
      omega
  · obtain ⟨token, hToken, hStart⟩ := exists_first hText hName
    have hHere : shifted (byteLength front.toList) token ∈
        placeholders front ++ inTurn (byteLength front.toList) (text :: rest) :=
      List.mem_append_right _ (List.mem_append_left _ (List.mem_map_of_mem hToken))
    rw [hText, List.cons_append] at hWhole
    rw [← h] at hHere
    refine not_start_of_cast hLast hWhole hHere ?_
    show byteLength front.toList + token.span.start = _
    rw [hStart, Nat.add_zero]

/-- Closed texts, joined one after the other, have the placeholders that each of them has on its
own, in turn, just when none of them fuses with what stands before it. -/
theorem placeholders_join_iff {front : String} {texts : List String} (hFront : Closed front)
    (hTexts : ∀ text ∈ texts, Closed text) :
    placeholders (front ++ String.join texts) =
        placeholders front ++ inTurn (byteLength front.toList) texts ↔
      StandApart front texts := by
  induction texts generalizing front with
  | nil => simp [inTurn, StandApart]
  | cons text rest ih =>
      have hText : Closed text := hTexts text (.head _)
      have hRest := ih (hFront.append hText) fun other hOther => hTexts other (.tail _ hOther)
      have hJoin : front ++ String.join (text :: rest) = front ++ text ++ String.join rest := by
        rw [String.join_cons, String.append_assoc]
      -- Where the first two do not fuse, they are one closed text in front of the rest.
      have hFirst : ¬ Fuses front text →
          placeholders front ++ inTurn (byteLength front.toList) (text :: rest) =
            placeholders (front ++ text) ++ inTurn (byteLength (front ++ text).toList) rest := by
        intro hSeam
        rw [placeholders_of_segments (segments_join hFront hSeam), inTurn, List.append_assoc,
          String.toList_append, Text.byteLength_append]
      constructor
      · intro h
        have hSeam : ¬ Fuses front text := by
          rw [String.join_cons] at h
          exact not_fuses_of_inTurn h
        rw [hFirst hSeam, hJoin] at h
        exact ⟨hSeam, hRest.mp h⟩
      · rintro ⟨hSeam, hLater⟩
        rw [hFirst hSeam, hJoin]
        exact hRest.mpr hLater

end BoundQuery.Placeholder
