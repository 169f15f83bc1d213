import BoundQuery.Placeholder

/-!
# How a text is cut into segments

`WellCut` says which lists of segments a scan can give: a question mark outside a literal belongs
to a placeholder, every placeholder takes all digits or name characters that follow it, and a colon
that stands alone is followed by no name or comes right after another colon. What a plain character
asks for, and the state that it leaves, is in `wellCut_plain_cons`. `wellCut_scan` and
`scan_spelled` say that the well-cut lists are exactly the results of scanning, so a statement about
scanning a composed text becomes a statement about composing segments. `scan_append` is the first of
them: a text that does not continue what stands before it is scanned on its own.
-/

namespace BoundQuery.Placeholder

/-! ## Runs of characters -/

/-- No run of characters of a class goes on into these characters. -/
def Stops (p : Char → Bool) (cs : List Char) : Prop := ∀ c ∈ cs.head?, p c = false

@[simp] theorem stops_nil (p : Char → Bool) : Stops p [] := by
  intro c hc
  simp at hc

theorem stops_cons {p : Char → Bool} {c : Char} {rest : List Char} (h : p c = false) :
    Stops p (c :: rest) := by
  intro d hd
  simp only [List.head?_cons, Option.mem_some_iff] at hd
  exact hd ▸ h

theorem Stops.append {p : Char → Bool} {front back : List Char} (hFront : Stops p front)
    (hBack : Stops p back) : Stops p (front ++ back) := by
  cases front with
  | nil => exact hBack
  | cons c rest => exact stops_cons (hFront c rfl)

theorem Stops.append_left {p : Char → Bool} {front : List Char} (h : Stops p front)
    (hNonempty : front ≠ []) (back : List Char) : Stops p (front ++ back) := by
  cases front with
  | nil => exact absurd rfl hNonempty
  | cons c rest => exact stops_cons (h c rfl)

theorem Stops.mono {p q : Char → Bool} {cs : List Char} (h : Stops q cs)
    (hpq : ∀ c, p c = true → q c = true) : Stops p cs := by
  intro c hc
  have hq := h c hc
  cases hp : p c with
  | false => rfl
  | true => rw [hpq c hp] at hq; exact hq

theorem takeWhile_append_of_stops {p : Char → Bool} {run back : List Char} (hRun : run.all p)
    (hBack : Stops p back) : (run ++ back).takeWhile p = run := by
  induction run with
  | nil =>
      cases back with
      | nil => rfl
      | cons c rest => simp [hBack c rfl]
  | cons c rest ih =>
      simp only [List.all_cons, Bool.and_eq_true] at hRun
      simp [hRun.1, ih hRun.2]

theorem stops_drop_takeWhile (p : Char → Bool) (cs : List Char) :
    Stops p (cs.drop (cs.takeWhile p).length) := by
  induction cs with
  | nil => exact stops_nil p
  | cons c rest ih =>
      by_cases h : p c
      · simpa [h] using ih
      · have hHead : p c = false := by simpa using h
        have hStops : Stops p (c :: rest) := stops_cons hHead
        simpa [h] using hStops

theorem stops_of_takeWhile_eq_nil {p : Char → Bool} {cs : List Char}
    (h : cs.takeWhile p = []) : Stops p cs := by
  have hStop := stops_drop_takeWhile p cs
  rwa [h] at hStop

/-! ## Characters of placeholders -/

theorem isNameChar_of_isDigit {c : Char} (h : Text.isDigit c = true) : isNameChar c = true := by
  simp [isNameChar, h]

theorem ne_quote_of_isNameChar {c : Char} (h : isNameChar c = true) : c ≠ '\'' := by
  rintro rfl
  exact absurd h (by decide)

/-- Characters that do not continue what stands before them: the first is neither a name character
nor a colon. -/
def Apart (cs : List Char) : Prop := Stops (fun c => isNameChar c || c = ':') cs

theorem Apart.stopsName {cs : List Char} (h : Apart cs) : Stops isNameChar cs :=
  h.mono fun c hc => by simp [hc]

/-- The characters that a placeholder takes when they follow it. -/
def Kind.takes : Kind → Char → Bool
  | .positional _ => Text.isDigit
  | .named _ => isNameChar

theorem Kind.isNameChar_of_takes {kind : Kind} {c : Char} (h : kind.takes c = true) :
    isNameChar c = true := by
  cases kind with
  | positional number => exact isNameChar_of_isDigit h
  | named name => exact h

/-- How a placeholder is spelled; a name must not come right after a colon. -/
inductive Spells : Bool → Kind → List Char → Prop
  | positional (afterColon : Bool) (digits : List Char) (hDigits : digits.all Text.isDigit) :
      Spells afterColon (.positional (number? digits)) ('?' :: digits)
  | named (name : List Char) (hNonempty : name ≠ []) (hName : name.all isNameChar) :
      Spells false (.named (String.ofList name)) (':' :: name)

/-! ## Open literals -/

/-- Whether a literal is open after some characters; `quoted` tells whether one is before them. -/
def leavesOpen (quoted : Bool) : List Char → Bool
  | [] => quoted
  | c :: rest => leavesOpen (if c = '\'' then !quoted else quoted) rest

theorem leavesOpen_append (quoted : Bool) (front back : List Char) :
    leavesOpen quoted (front ++ back) = leavesOpen (leavesOpen quoted front) back := by
  induction front generalizing quoted with
  | nil => rfl
  | cons c rest ih => exact ih _

theorem leavesOpen_of_noQuote (quoted : Bool) {cs : List Char} (h : ∀ c ∈ cs, c ≠ '\'') :
    leavesOpen quoted cs = quoted := by
  induction cs with
  | nil => rfl
  | cons c rest ih =>
      rw [leavesOpen, if_neg (h c (by simp))]
      exact ih fun d hd => h d (by simp [hd])

/-- The state of the literal is the parity of the quotes. -/
theorem leavesOpen_eq (quoted : Bool) (cs : List Char) :
    leavesOpen quoted cs = (quoted ^^ (cs.count '\'' % 2 == 1)) := by
  induction cs generalizing quoted with
  | nil => simp [leavesOpen]
  | cons c rest ih =>
      rw [leavesOpen, ih]
      by_cases hc : c = '\''
      · subst hc
        rcases Nat.mod_two_eq_zero_or_one (rest.count '\'') with h | h <;>
          simp [h, Nat.add_mod]
      · simp [hc]

theorem Spells.leavesOpen {afterColon : Bool} {kind : Kind} {spelling : List Char}
    (h : Spells afterColon kind spelling) (quoted : Bool) :
    Placeholder.leavesOpen quoted spelling = quoted := by
  apply leavesOpen_of_noQuote
  intro c hc
  cases h with
  | positional _ digits hDigits =>
      rcases List.mem_cons.mp hc with rfl | hc
      · decide
      · exact ne_quote_of_isNameChar (isNameChar_of_isDigit (List.all_eq_true.mp hDigits c hc))
  | named name hNonempty hName =>
      rcases List.mem_cons.mp hc with rfl | hc
      · decide
      · exact ne_quote_of_isNameChar (List.all_eq_true.mp hName c hc)

/-! ## Well-cut segments -/

/-- The lists of segments that a scan can give. -/
def WellCut (quoted afterColon : Bool) : List Segment → Prop
  | [] => True
  | .plain c :: rest =>
      if c = '\'' then WellCut (!quoted) false rest
      else if quoted then WellCut true false rest
      else if c = '?' then False
      else if c = ':' then
        (afterColon = true ∨ Stops isNameChar (spelled rest)) ∧ WellCut false true rest
      else WellCut false false rest
  | .marker kind spelling :: rest =>
      quoted = false ∧ Spells afterColon kind spelling ∧ Stops kind.takes (spelled rest) ∧
        WellCut false false rest

/-- Whether a literal is open behind a character. -/
def openAfter (quoted : Bool) (c : Char) : Bool := if c = '\'' then !quoted else quoted

/-- Whether a character is a colon outside a literal. -/
def colonAfter (quoted : Bool) (c : Char) : Bool := !quoted && c = ':'

/-- A character that belongs to no placeholder: outside a literal it is no question mark, and a
colon only right after another one or in front of no name. -/
def Bare (quoted afterColon : Bool) (c : Char) (back : List Char) : Prop :=
  quoted = false → c ≠ '?' ∧ (c = ':' → afterColon = true ∨ Stops isNameChar back)

theorem Bare.imp {quoted afterColon : Bool} {c : Char} {back other : List Char}
    (h : Bare quoted afterColon c back)
    (hStops : Stops isNameChar back → Stops isNameChar other) : Bare quoted afterColon c other :=
  fun hClosed => ⟨(h hClosed).1, fun hColon => ((h hClosed).2 hColon).imp_right hStops⟩

theorem wellCut_plain_cons {quoted afterColon : Bool} {c : Char} {rest : List Segment} :
    WellCut quoted afterColon (.plain c :: rest) ↔
      Bare quoted afterColon c (spelled rest) ∧
        WellCut (openAfter quoted c) (colonAfter quoted c) rest := by
  simp only [WellCut, Bare, openAfter, colonAfter]
  by_cases hQuote : c = '\''
  · simp [hQuote]
  cases quoted with
  | true => simp [hQuote]
  | false =>
      by_cases hMark : c = '?'
      · simp [hMark]
      by_cases hColon : c = ':'
      · simp [hColon]
      · simp [hQuote, hMark, hColon]

theorem scan_skip (quoted afterColon : Bool) (skip : Nat) (cs : List Char) :
    scan quoted afterColon skip cs = scan quoted afterColon 0 (cs.drop skip) := by
  induction cs generalizing skip with
  | nil => simp [scan]
  | cons c rest ih =>
      cases skip with
      | zero => rfl
      | succ skip => simpa [scan] using ih skip

/-- Scanning cuts well. -/
theorem wellCut_scan (quoted afterColon : Bool) (skip : Nat) (cs : List Char) :
    WellCut quoted afterColon (scan quoted afterColon skip cs) := by
  induction cs generalizing quoted afterColon skip with
  | nil => simp [scan, WellCut]
  | cons c rest ih =>
      cases skip with
      | succ skip => exact ih quoted afterColon skip
      | zero =>
          unfold scan
          by_cases hQuote : c = '\''
          · simpa [hQuote, WellCut] using ih (!quoted) false 0
          by_cases hOpen : quoted = true
          · simpa [hQuote, hOpen, WellCut] using ih true false 0
          have hClosed : quoted = false := by simpa using hOpen
          by_cases hMark : c = '?'
          · subst hMark
            simp only [hQuote, hClosed, Bool.false_eq_true, if_false, if_true, WellCut, true_and]
            refine ⟨.positional _ _ List.all_takeWhile, ?_, ih false false _⟩
            rw [spelled_scan]
            exact stops_drop_takeWhile _ rest
          by_cases hColon : c = ':'
          · subst hColon
            simp only [hQuote, hMark, hClosed, Bool.false_eq_true, if_false, if_true]
            by_cases hPlain : (afterColon || (rest.takeWhile isNameChar).isEmpty) = true
            · rw [if_pos hPlain]
              simp only [WellCut, hQuote, hMark, Bool.false_eq_true, if_false, if_true]
              refine ⟨?_, ih false true 0⟩
              rw [spelled_scan, List.drop_zero]
              rcases Bool.or_eq_true_iff.mp hPlain with h | h
              · exact .inl h
              · exact .inr (stops_of_takeWhile_eq_nil (List.isEmpty_iff.mp h))
            · rw [if_neg hPlain]
              simp only [Bool.or_eq_true, not_or, Bool.not_eq_true] at hPlain
              obtain ⟨hAfter, hName⟩ := hPlain
              simp only [WellCut, true_and, hAfter]
              refine ⟨.named _ (by simpa using hName) List.all_takeWhile, ?_, ih false false _⟩
              rw [spelled_scan]
              exact stops_drop_takeWhile _ rest
          · simpa [hQuote, hClosed, hMark, hColon, WellCut] using ih false false 0

/-- Scanning what well-cut segments spell gives them back. -/
theorem scan_spelled {quoted afterColon : Bool} {parts : List Segment}
    (h : WellCut quoted afterColon parts) :
    scan quoted afterColon 0 (spelled parts) = parts := by
  induction parts generalizing quoted afterColon with
  | nil => rfl
  | cons part rest ih =>
      cases part with
      | plain c =>
          simp only [spelled_cons, Segment.spelling, List.singleton_append, scan]
          simp only [WellCut] at h
          by_cases hQuote : c = '\''
          · rw [if_pos hQuote] at h ⊢
            rw [ih h]
          rw [if_neg hQuote] at h ⊢
          by_cases hOpen : quoted = true
          · rw [if_pos hOpen] at h ⊢
            rw [ih h]
          rw [if_neg hOpen] at h ⊢
          by_cases hMark : c = '?'
          · rw [if_pos hMark] at h
            exact h.elim
          rw [if_neg hMark] at h ⊢
          by_cases hColon : c = ':'
          · rw [if_pos hColon] at h ⊢
            obtain ⟨hName, hRest⟩ := h
            have hPlain :
                (afterColon || ((spelled rest).takeWhile isNameChar).isEmpty) = true := by
              rcases hName with hAfter | hStops
              · simp [hAfter]
              · have hNil : ([] ++ spelled rest).takeWhile isNameChar = [] :=
                  takeWhile_append_of_stops rfl hStops
                rw [List.nil_append] at hNil
                simp [hNil]
            rw [if_pos hPlain, ih hRest]
          · rw [if_neg hColon] at h ⊢
            rw [ih h]
      | marker kind spelling =>
          obtain ⟨hClosed, hSpells, hStops, hRest⟩ := h
          subst hClosed
          cases hSpells with
          | positional _ digits hDigits =>
              have hTake := takeWhile_append_of_stops hDigits hStops
              simp only [spelled_cons, Segment.spelling, List.cons_append, scan]
              rw [if_neg (by decide), if_neg (by decide), if_pos trivial, hTake, scan_skip,
                List.drop_left, ih hRest]
          | named name hNonempty hName =>
              have hTake := takeWhile_append_of_stops hName hStops
              simp only [spelled_cons, Segment.spelling, List.cons_append, scan]
              rw [if_neg (by decide), if_neg (by decide), if_neg (by decide), if_pos trivial,
                hTake, if_neg (by simpa using hNonempty), scan_skip, List.drop_left, ih hRest]

/-! ## Composed texts -/

theorem WellCut.of_apart {quoted : Bool} {parts : List Segment} (h : WellCut quoted false parts)
    (hApart : Apart (spelled parts)) (afterColon : Bool) : WellCut quoted afterColon parts := by
  cases parts with
  | nil => trivial
  | cons part rest =>
      cases part with
      | plain c =>
          have hColon : c ≠ ':' := by
            have hHead := hApart c rfl
            simp only [Bool.or_eq_false_iff, decide_eq_false_iff_not] at hHead
            exact hHead.2
          simp only [WellCut, if_neg hColon] at h ⊢
          exact h
      | marker kind spelling =>
          obtain ⟨hClosed, hSpells, hStops, hRest⟩ := h
          refine ⟨hClosed, ?_, hStops, hRest⟩
          cases hSpells with
          | positional _ digits hDigits => exact .positional _ digits hDigits
          | named name hNonempty hName => exact absurd (hApart ':' rfl) (by decide)

theorem WellCut.append {quoted afterColon : Bool} {front back : List Segment}
    (hFront : WellCut quoted afterColon front)
    (hBack : WellCut (leavesOpen quoted (spelled front)) false back)
    (hApart : Apart (spelled back)) : WellCut quoted afterColon (front ++ back) := by
  induction front generalizing quoted afterColon with
  | nil => exact hBack.of_apart hApart afterColon
  | cons part rest ih =>
      rw [spelled_cons, leavesOpen_append] at hBack
      cases part with
      | plain c =>
          obtain ⟨hBare, hRest⟩ := wellCut_plain_cons.mp hFront
          refine wellCut_plain_cons.mpr ⟨hBare.imp fun hStops => ?_, ih hRest hBack⟩
          show Stops isNameChar (spelled (rest ++ back))
          rw [spelled_append]
          exact hStops.append hApart.stopsName
      | marker kind spelling =>
          obtain ⟨hClosed, hSpells, hStops, hRest⟩ := hFront
          rw [Segment.spelling, hSpells.leavesOpen, hClosed] at hBack
          refine ⟨hClosed, hSpells, ?_, ih hRest hBack⟩
          show Stops kind.takes (spelled (rest ++ back))
          rw [spelled_append]
          exact hStops.append (hApart.stopsName.mono fun _ => kind.isNameChar_of_takes)

/-- A text that does not continue the one before it is scanned on its own. -/
theorem scan_append (quoted afterColon : Bool) (front : List Char) {back : List Char}
    (hApart : Apart back) :
    scan quoted afterColon 0 (front ++ back) =
      scan quoted afterColon 0 front ++ scan (leavesOpen quoted front) false 0 back := by
  have hCut : WellCut quoted afterColon
      (scan quoted afterColon 0 front ++ scan (leavesOpen quoted front) false 0 back) := by
    refine (wellCut_scan quoted afterColon 0 front).append ?_ ?_
    · rw [spelled_scan]
      exact wellCut_scan _ false 0 back
    · rw [spelled_scan]
      exact hApart
  have hScan := scan_spelled hCut
  rwa [spelled_append, spelled_scan, spelled_scan] at hScan

/-- Characters without meaning to a scan: no quote, question mark or colon. -/
def Quiet (cs : List Char) : Prop := ∀ c ∈ cs, c ≠ '\'' ∧ c ≠ '?' ∧ c ≠ ':'

instance (cs : List Char) : Decidable (Quiet cs) := List.decidableBAll _ cs

theorem Quiet.append {front back : List Char} (hFront : Quiet front) (hBack : Quiet back) :
    Quiet (front ++ back) := by
  intro c hc
  rcases List.mem_append.mp hc with hc | hc
  · exact hFront c hc
  · exact hBack c hc

theorem Quiet.leavesOpen {cs : List Char} (h : Quiet cs) (quoted : Bool) :
    Placeholder.leavesOpen quoted cs = quoted :=
  leavesOpen_of_noQuote quoted fun c hc => (h c hc).1

/-- A quiet text is cut into its characters, whatever follows it. -/
theorem scan_quiet_append {front : List Char} (h : Quiet front) (back : List Char) :
    scan false false 0 (front ++ back) = front.map .plain ++ scan false false 0 back := by
  induction front with
  | nil => rfl
  | cons c rest ih =>
      obtain ⟨hQuote, hMark, hColon⟩ := h c (by simp)
      rw [List.cons_append, scan, if_neg hQuote, if_neg (by decide), if_neg hMark,
        if_neg hColon, ih fun d hd => h d (by simp [hd])]
      rfl

theorem scan_quiet {cs : List Char} (h : Quiet cs) :
    scan false false 0 cs = cs.map .plain := by
  have hScan := scan_quiet_append h []
  simpa [scan] using hScan

/-- The spelling of a placeholder is cut as that placeholder when nothing continues it. -/
theorem scan_spelling_append {kind : Kind} {spelling : List Char}
    (h : Spells false kind spelling) {back : List Char} (hApart : Apart back) :
    scan false false 0 (spelling ++ back) = .marker kind spelling :: scan false false 0 back := by
  have hCut : WellCut false false [.marker kind spelling] := ⟨rfl, h, stops_nil _, trivial⟩
  have hScan := scan_spelled hCut
  rw [spelled_cons, Segment.spelling, show spelled [] = [] from rfl, List.append_nil] at hScan
  rw [scan_append false false spelling hApart, hScan, h.leavesOpen]
  rfl

end BoundQuery.Placeholder
