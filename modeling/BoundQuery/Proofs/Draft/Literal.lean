import BoundQuery.Proofs.Placeholder.Exchange
import BoundQuery.Proofs.Tree.Pieces

/-!
# The literal of a native fragment

The text of a native fragment is written as the inside of a quoted literal. With each quote doubled
the literal stays open up to its last quote, so a scan finds nothing in it, whatever the text is.
-/

namespace BoundQuery.Snippet

open Placeholder (scan leavesOpen Segment Closed Quiet kinds)

/-- Characters with each quote doubled. -/
def doubled (cs : List Char) : List Char :=
  cs.flatMap fun c => if c = '\'' then ['\'', '\''] else [c]

theorem toList_doubleQuotes (text : String) : (doubleQuotes text).toList = doubled text.toList := by
  rw [doubleQuotes, String.toList_ofList, doubled]

theorem scan_doubled (cs back : List Char) :
    scan true false 0 (doubled cs ++ back) =
      (doubled cs).map Segment.plain ++ scan true false 0 back := by
  induction cs with
  | nil => rfl
  | cons c rest ih =>
      have hCons : doubled (c :: rest) =
          (if c = '\'' then ['\'', '\''] else [c]) ++ doubled rest := rfl
      rw [hCons]
      by_cases hQuote : c = '\''
      · rw [if_pos hQuote]
        show scan true false 0 ('\'' :: '\'' :: (doubled rest ++ back)) = _
        rw [scan, if_pos rfl, Bool.not_true, scan, if_pos rfl, Bool.not_false, ih]
        rfl
      · rw [if_neg hQuote]
        show scan true false 0 (c :: (doubled rest ++ back)) = _
        rw [scan, if_neg hQuote, if_pos rfl, ih]
        rfl

theorem leavesOpen_doubled (cs : List Char) : leavesOpen true (doubled cs) = true := by
  induction cs with
  | nil => rfl
  | cons c rest ih =>
      have hCons : doubled (c :: rest) =
          (if c = '\'' then ['\'', '\''] else [c]) ++ doubled rest := rfl
      rw [hCons, Placeholder.leavesOpen_append]
      by_cases hQuote : c = '\''
      · rw [if_pos hQuote]
        exact ih
      · rw [if_neg hQuote, leavesOpen, if_neg hQuote]
        exact ih

theorem toList_literalText (text : String) :
    (literalText text).toList =
      ['S', 'Q', 'L', '('] ++ '\'' :: (doubled text.toList ++ ['\'']) := by
  rw [literalText, String.toList_append, String.toList_append, toList_doubleQuotes]
  rfl

theorem quiet_open : Quiet ['S', 'Q', 'L', '('] := by decide

/-- Nothing in a literal is a placeholder. -/
theorem kinds_literalText (text : String) : kinds (literalText text) = [] := by
  have hScan : scan false false 0 (literalText text).toList =
      (literalText text).toList.map Segment.plain := by
    rw [toList_literalText, Placeholder.scan_quiet_append quiet_open, scan, if_pos rfl,
      Bool.not_false, scan_doubled]
    simp [scan]
  rw [Placeholder.kinds_eq, Placeholder.segments, hScan, Placeholder.filterMap_kind?_plain]

/-- A literal is closed at its end. -/
theorem closed_literalText (text : String) : Closed (literalText text) := by
  rw [Closed, toList_literalText, Placeholder.leavesOpen_append, quiet_open.leavesOpen,
    leavesOpen, if_pos rfl, Bool.not_false, Placeholder.leavesOpen_append, leavesOpen_doubled]
  rfl

end BoundQuery.Snippet
