import BoundQuery.Alias.Pattern

/-!
# What a pattern matches

`Pattern.Leaves` is the relation of matching: a pattern takes a front part of some characters and
leaves the rest. The search computes all rests at once, drops those of equal length and repeats a
starred pattern no more often than there are characters. `mem_ends_iff` says that nothing is lost by
this: what the search computes are just the rests that the relation allows. `found_iff` puts it for
a whole text, which is searched at every place.
-/

namespace BoundQuery.Pattern

/-- A pattern that stands at the front of some characters, and what it leaves of them. They are the
end of a text of `whole` characters. -/
inductive Leaves (whole : Nat) : Pattern → List Char → List Char → Prop
  | empty (cs : List Char) : Leaves whole .empty cs cs
  | atStart (cs : List Char) (hWhole : cs.length = whole) : Leaves whole .atStart cs cs
  | atEnd : Leaves whole .atEnd [] []
  | one (set : CharSet) (c : Char) (rest : List Char) (hHas : set.has c = true) :
      Leaves whole (.one set) (c :: rest) rest
  | seq {first second : Pattern} {cs middle rest : List Char}
      (hFirst : Leaves whole first cs middle) (hSecond : Leaves whole second middle rest) :
      Leaves whole (.seq first second) cs rest
  | left {left right : Pattern} {cs rest : List Char} (h : Leaves whole left cs rest) :
      Leaves whole (.alt left right) cs rest
  | right {left right : Pattern} {cs rest : List Char} (h : Leaves whole right cs rest) :
      Leaves whole (.alt left right) cs rest
  | done (body : Pattern) (cs : List Char) : Leaves whole (.star body) cs cs
  | more {body : Pattern} {cs middle rest : List Char} (hFirst : Leaves whole body cs middle)
      (hMore : Leaves whole (.star body) middle rest) : Leaves whole (.star body) cs rest
  | named {name : List Char} {body : Pattern} {cs rest : List Char}
      (h : Leaves whole body cs rest) :
      Leaves whole (.named name body) cs rest

variable {whole : Nat}

theorem Leaves.suffix {pattern : Pattern} {cs rest : List Char}
    (h : Leaves whole pattern cs rest) : rest <:+ cs := by
  induction h with
  | empty cs => exact List.suffix_rfl
  | atStart cs hWhole => exact List.suffix_rfl
  | atEnd => exact List.suffix_rfl
  | one set c rest hHas => exact List.suffix_cons c rest
  | seq hFirst hSecond ihFirst ihSecond => exact ihSecond.trans ihFirst
  | left h ih => exact ih
  | right h ih => exact ih
  | done body cs => exact List.suffix_rfl
  | more hFirst hMore ihFirst ihMore => exact ihMore.trans ihFirst
  | named h ih => exact ih

/-! ## Matches by the shape of the pattern -/

section Shapes

variable {cs rest : List Char}

theorem leaves_empty_iff : Leaves whole .empty cs rest ↔ cs = rest := by
  constructor
  · rintro ⟨⟩
    rfl
  · rintro rfl
    exact .empty cs

theorem leaves_atStart_iff : Leaves whole .atStart cs rest ↔ cs.length = whole ∧ cs = rest := by
  constructor
  · rintro ⟨⟩
    exact ⟨‹_›, rfl⟩
  · rintro ⟨hWhole, rfl⟩
    exact .atStart cs hWhole

theorem leaves_atEnd_iff : Leaves whole .atEnd cs rest ↔ cs = [] ∧ cs = rest := by
  constructor
  · rintro ⟨⟩
    exact ⟨rfl, rfl⟩
  · rintro ⟨rfl, rfl⟩
    exact .atEnd

theorem leaves_one_iff {set : CharSet} :
    Leaves whole (.one set) cs rest ↔ ∃ c, set.has c = true ∧ cs = c :: rest := by
  constructor
  · rintro ⟨⟩
    exact ⟨_, ‹_›, rfl⟩
  · rintro ⟨c, hHas, rfl⟩
    exact .one set c rest hHas

theorem leaves_seq_iff {first second : Pattern} :
    Leaves whole (.seq first second) cs rest ↔
      ∃ middle, Leaves whole first cs middle ∧ Leaves whole second middle rest := by
  constructor
  · intro h
    cases h with
    | seq hFirst hSecond => exact ⟨_, hFirst, hSecond⟩
  · rintro ⟨middle, hFirst, hSecond⟩
    exact .seq hFirst hSecond

theorem leaves_alt_iff {left right : Pattern} :
    Leaves whole (.alt left right) cs rest ↔
      Leaves whole left cs rest ∨ Leaves whole right cs rest := by
  constructor
  · intro h
    cases h with
    | left hLeft => exact .inl hLeft
    | right hRight => exact .inr hRight
  · rintro (hLeft | hRight)
    · exact .left hLeft
    · exact .right hRight

theorem leaves_named_iff {name : List Char} {body : Pattern} :
    Leaves whole (.named name body) cs rest ↔ Leaves whole body cs rest := by
  constructor
  · intro h
    cases h with
    | named hBody => exact hBody
  · exact .named

end Shapes

/-! ## Suffixes of one text -/

/-- Suffixes of one text are told apart by their lengths, so none goes with those of a length that
is there already. -/
theorem mem_distinct {text : List Char} {suffixes : List (List Char)}
    (hSuffix : ∀ cs ∈ suffixes, cs <:+ text) {cs : List Char} :
    cs ∈ distinct suffixes ↔ cs ∈ suffixes := by
  match suffixes with
  | [] => exact Iff.rfl
  | first :: rest =>
      have hFirst : first <:+ text := hSuffix first (.head _)
      let others := rest.filter fun other => (other.length == first.length) = false
      have hKept : cs ∈ distinct others ↔ cs ∈ others := mem_distinct fun other hOther =>
        hSuffix other (.tail _ (List.mem_filter.mp hOther).1)
      rw [distinct] at hKept
      rw [distinct, List.eraseDupsBy_cons, List.mem_cons, hKept, List.mem_filter, List.mem_cons]
      constructor
      · rintro (hSame | ⟨hRest, -⟩)
        · exact .inl hSame
        · exact .inr hRest
      · rintro (hSame | hRest)
        · exact .inl hSame
        · by_cases hLength : cs.length = first.length
          · have hInside : cs <:+ first := List.suffix_of_suffix_length_le
              (hSuffix cs (.tail _ hRest)) hFirst (Nat.le_of_eq hLength)
            exact .inl (hInside.eq_of_length hLength)
          · exact .inr ⟨hRest, by simpa using hLength⟩
termination_by suffixes.length
decreasing_by exact Nat.lt_succ_of_le (List.length_filter_le _ rest)

section Repeated

variable {text : List Char} {step : List Char → List (List Char)}
  (hStep : ∀ cs, ∀ rest ∈ step cs, rest <:+ cs) {seen : List (List Char)}
  (hSeen : ∀ cs ∈ seen, cs <:+ text)
include hStep hSeen

/-- One round keeps what is seen, and adds what a step leaves of it. -/
theorem mem_round {rest : List Char} :
    rest ∈ distinct (seen ++ seen.flatMap step) ↔
      rest ∈ seen ∨ ∃ cs ∈ seen, rest ∈ step cs := by
  have hNext : ∀ cs ∈ seen ++ seen.flatMap step, cs <:+ text := by
    intro rest hRest
    rcases List.mem_append.mp hRest with hOld | hNew
    · exact hSeen rest hOld
    · obtain ⟨cs, hcs, hTaken⟩ := List.mem_flatMap.mp hNew
      exact (hStep cs rest hTaken).trans (hSeen cs hcs)
  rw [mem_distinct hNext, List.mem_append, List.mem_flatMap]

theorem suffix_of_mem_round :
    ∀ cs ∈ distinct (seen ++ seen.flatMap step), cs <:+ text := by
  intro rest hRest
  rcases (mem_round hStep hSeen).mp hRest with hOld | ⟨cs, hcs, hTaken⟩
  · exact hSeen rest hOld
  · exact (hStep cs rest hTaken).trans (hSeen cs hcs)

theorem mem_repeated_of_mem (rounds : Nat) {cs : List Char} (h : cs ∈ seen) :
    cs ∈ repeated step rounds seen := by
  induction rounds generalizing seen with
  | zero => exact h
  | succ rounds ih =>
      exact ih (suffix_of_mem_round hStep hSeen) ((mem_round hStep hSeen).mpr (.inl h))

end Repeated

section Star

variable {text : List Char} {body : Pattern}
  (hBody : ∀ cs rest, rest ∈ ends whole body cs ↔ Leaves whole body cs rest)
include hBody

theorem suffix_of_mem_body : ∀ cs, ∀ rest ∈ ends whole body cs, rest <:+ cs :=
  fun cs rest hRest => ((hBody cs rest).mp hRest).suffix

/-- Rounds only add what a chain of matches leaves. -/
theorem leaves_of_mem_repeated (rounds : Nat) {seen : List (List Char)}
    (hSeen : ∀ cs ∈ seen, cs <:+ text) {rest : List Char}
    (h : rest ∈ repeated (ends whole body) rounds seen) :
    ∃ cs ∈ seen, Leaves whole (.star body) cs rest := by
  have hStep := suffix_of_mem_body hBody
  induction rounds generalizing seen with
  | zero => exact ⟨rest, h, .done body rest⟩
  | succ rounds ih =>
      obtain ⟨middle, hMiddle, hMore⟩ := ih (suffix_of_mem_round hStep hSeen) h
      rcases (mem_round hStep hSeen).mp hMiddle with hOld | ⟨cs, hcs, hTaken⟩
      · exact ⟨middle, hOld, hMore⟩
      · exact ⟨cs, hcs, .more ((hBody cs middle).mp hTaken) hMore⟩

/-- A chain of matches is found in as many rounds as it takes characters: a match that takes none
needs no round. -/
theorem mem_repeated_of_leaves {pattern : Pattern} (hPattern : pattern = .star body)
    {cs rest : List Char} (h : Leaves whole pattern cs rest) {rounds : Nat}
    {seen : List (List Char)} (hSeen : ∀ cs ∈ seen, cs <:+ text) (hcs : cs ∈ seen)
    (hRounds : cs.length ≤ rest.length + rounds) :
    rest ∈ repeated (ends whole body) rounds seen := by
  have hStep := suffix_of_mem_body hBody
  induction h generalizing rounds seen with
  | done other cs => exact mem_repeated_of_mem hStep hSeen rounds hcs
  | @more other cs middle rest hFirst hMore ihFirst ihMore =>
      obtain rfl : other = body := Pattern.star.inj hPattern
      by_cases hLength : middle.length = cs.length
      · obtain rfl : middle = cs := hFirst.suffix.eq_of_length hLength
        exact ihMore rfl hSeen hcs hRounds
      · have hShorter : middle.length ≤ cs.length := hFirst.suffix.length_le
        have hLast : rest.length ≤ middle.length := hMore.suffix.length_le
        obtain ⟨fewer, rfl⟩ : ∃ fewer, rounds = fewer + 1 := ⟨rounds - 1, by omega⟩
        have hMiddle : middle ∈ distinct (seen ++ seen.flatMap (ends whole other)) :=
          (mem_round hStep hSeen).mpr (.inr ⟨cs, hcs, (hBody cs middle).mpr hFirst⟩)
        show rest ∈ repeated (ends whole other) fewer
          (distinct (seen ++ seen.flatMap (ends whole other)))
        exact ihMore rfl (suffix_of_mem_round hStep hSeen) hMiddle (by omega)
  | _ => exact absurd hPattern (by simp)

end Star

/-! ## The search -/

/-- The search leaves what a match leaves. -/
theorem mem_ends_iff (pattern : Pattern) (cs rest : List Char) :
    rest ∈ ends whole pattern cs ↔ Leaves whole pattern cs rest := by
  induction pattern generalizing cs rest with
  | empty => rw [ends, List.mem_singleton, leaves_empty_iff, eq_comm]
  | atStart =>
      rw [ends, leaves_atStart_iff]
      by_cases hWhole : cs.length = whole
      · rw [if_pos hWhole, List.mem_singleton, eq_comm, and_iff_right hWhole]
      · rw [if_neg hWhole]
        exact iff_of_false List.not_mem_nil fun h => hWhole h.1
  | atEnd =>
      rw [leaves_atEnd_iff]
      cases cs with
      | nil => simp [ends, eq_comm]
      | cons c back => simp [ends]
  | one set =>
      rw [leaves_one_iff]
      cases cs with
      | nil => exact iff_of_false List.not_mem_nil (by simp)
      | cons c back =>
          rw [ends]
          by_cases hHas : set.has c = true
          · rw [if_pos hHas, List.mem_singleton]
            constructor
            · rintro rfl
              exact ⟨c, hHas, rfl⟩
            · rintro ⟨other, -, hSame⟩
              exact (List.cons.inj hSame).2.symm
          · rw [if_neg hHas]
            refine iff_of_false List.not_mem_nil ?_
            rintro ⟨other, hOther, hSame⟩
            exact hHas ((List.cons.inj hSame).1 ▸ hOther)
  | seq first second ihFirst ihSecond =>
      have hBoth : ∀ rest, rest ∈ (ends whole first cs).flatMap (ends whole second) ↔
          Leaves whole (.seq first second) cs rest := by
        intro rest
        simp only [List.mem_flatMap, leaves_seq_iff, ihFirst, ihSecond]
      rw [ends, mem_distinct fun rest hRest => ((hBoth rest).mp hRest).suffix, hBoth]
  | alt left right ihLeft ihRight =>
      have hEither : ∀ rest, rest ∈ ends whole left cs ++ ends whole right cs ↔
          Leaves whole (.alt left right) cs rest := by
        intro rest
        rw [List.mem_append, leaves_alt_iff, ihLeft, ihRight]
      rw [ends, mem_distinct fun rest hRest => ((hEither rest).mp hRest).suffix, hEither]
  | star body ih =>
      have hSeen : ∀ other ∈ [cs], other <:+ cs := by
        intro other hOther
        obtain rfl := List.mem_singleton.mp hOther
        exact List.suffix_rfl
      rw [ends]
      constructor
      · intro hRest
        obtain ⟨other, hOther, hMore⟩ := leaves_of_mem_repeated ih cs.length hSeen hRest
        obtain rfl := List.mem_singleton.mp hOther
        exact hMore
      · intro hMore
        exact mem_repeated_of_leaves ih rfl hMore hSeen (.head _) (Nat.le_add_left _ _)
  | named name body ih => rw [ends, leaves_named_iff, ih]

theorem ends_ne_nil_iff (pattern : Pattern) (cs : List Char) :
    (!(ends whole pattern cs).isEmpty) = true ↔ ∃ rest, Leaves whole pattern cs rest := by
  rw [Bool.not_eq_true', List.isEmpty_eq_false_iff_exists_mem]
  simp only [mem_ends_iff]

/-- A search goes through every place at which a match may start. -/
theorem foundIn_iff (pattern : Pattern) (cs : List Char) :
    pattern.foundIn whole cs = true ↔
      ∃ front back rest, cs = front ++ back ∧ Leaves whole pattern back rest := by
  induction cs with
  | nil =>
      rw [foundIn, ends_ne_nil_iff]
      constructor
      · rintro ⟨rest, h⟩
        exact ⟨[], [], rest, rfl, h⟩
      · rintro ⟨front, back, rest, hNil, h⟩
        obtain ⟨-, rfl⟩ := List.append_eq_nil_iff.mp hNil.symm
        exact ⟨rest, h⟩
  | cons c later ih =>
      rw [foundIn, Bool.or_eq_true, ends_ne_nil_iff, ih]
      constructor
      · rintro (⟨rest, h⟩ | ⟨front, back, rest, rfl, h⟩)
        · exact ⟨[], c :: later, rest, rfl, h⟩
        · exact ⟨c :: front, back, rest, rfl, h⟩
      · rintro ⟨front, back, rest, hBoth, h⟩
        cases front with
        | nil =>
            obtain rfl : c :: later = back := hBoth
            exact .inl ⟨rest, h⟩
        | cons first front =>
            obtain ⟨rfl, rfl⟩ := List.cons.inj hBoth
            exact .inr ⟨front, back, rest, rfl, h⟩

/-- A pattern is found in a text when it matches from some place on. -/
theorem found_iff (pattern : Pattern) (text : String) :
    pattern.found text = true ↔
      ∃ front back rest, text.toList = front ++ back ∧
        Leaves text.toList.length pattern back rest :=
  foundIn_iff pattern text.toList

end BoundQuery.Pattern
