import SlangScript.Proofs.JoinedLexemes

/-! The carets of a diagnostic against the source line above them. The two rows leave different room for
the number of the line, so that the carets stand left of the text that they mark. -/
namespace SlangScript

/-- A character of a line stays where it is when the carriage return at the end is dropped. -/
theorem getElem?_dropReturn {text : List Char} {i : Nat} {c : Char} (h : text[i]? = some c) :
    (dropReturn text)[i]? = some c ∨ c = '\r' ∧ i + 1 = text.length := by
  obtain ⟨hlt, -⟩ := List.getElem?_eq_some_iff.mp h
  rw [dropReturn]
  split
  · rename_i hreturn
    rw [List.getElem?_dropLast]
    split
    · exact .inl h
    · right
      obtain rfl : i = text.length - 1 := by omega
      rw [List.getLast?_eq_getElem?, h, Option.some.injEq] at hreturn
      exact ⟨hreturn, by omega⟩
  · exact .inl h

namespace Diagnostic

/-- What stands in front of the source line: its number, and a bar. -/
def gutter (line : Nat) : List Char := padLeft 3 (toString line).toList ++ " | ".toList

/-- What stands in front of the carets: a bar, and blanks up to the column. -/
def indent (column : Nat) : List Char := "   | ".toList ++ List.replicate (column - 1) ' '

theorem length_gutter (line : Nat) : (gutter line).length = max 3 (toString line).length + 3 := by
  have hnumber : (padLeft 3 (toString line).toList).length = max 3 (toString line).length :=
    List.length_leftpad
  rw [gutter, List.length_append, hnumber]
  rfl

theorem length_indent (column : Nat) : (indent column).length = 5 + (column - 1) := by
  unfold indent
  rw [List.length_append, List.length_replicate]
  rfl

theorem lineFeed_not_mem_gutter (line : Nat) : '\n' ∉ gutter line := by
  have hdigits : '\n' ∉ Nat.toDigits 10 line := fun h =>
    absurd (Nat.isDigit_of_mem_toDigits (by decide) (by decide) h) (by decide)
  simp [gutter, padLeft, hdigits]

theorem eq_of_mem_indent {c : Char} {column : Nat} (h : c ∈ indent column) : c = ' ' ∨ c = '|' := by
  unfold indent at h
  rcases List.mem_append.mp h with hbar | hblank
  · have hcases : c = ' ' ∨ c = '|' ∨ c = ' ' := by simpa using hbar
    tauto
  · exact .inl (List.eq_of_mem_replicate hblank)

theorem caretRow_eq (span : Span) :
    caretRow span = indent span.column ++ List.replicate (max span.len 1) '^' := rfl

theorem lineFeed_not_mem_caretRow (span : Span) : '\n' ∉ caretRow span := by
  rw [caretRow_eq, List.mem_append, not_or]
  exact ⟨fun h => absurd (eq_of_mem_indent h) (by decide),
    fun h => absurd (List.eq_of_mem_replicate h) (by decide)⟩

/-- The first caret stands behind the blanks. -/
theorem idxOf_caretRow (span : Span) : (caretRow span).idxOf '^' = (indent span.column).length := by
  have hblank : '^' ∉ indent span.column := fun h => absurd (eq_of_mem_indent h) (by decide)
  obtain ⟨k, hk⟩ : ∃ k, max span.len 1 = k + 1 := ⟨max span.len 1 - 1, by omega⟩
  rw [caretRow_eq, List.idxOf_append_of_notMem hblank, hk, List.replicate_succ, List.idxOf_cons_self]
  rfl

end Diagnostic

section Rendered
open Diagnostic

/-- A rendered error ends in the row of the source line and the row of carets. -/
theorem render_rows (e : LexError) (name source : String) :
    ∃ header, (e.render name source).toList =
      header ++ '\n' :: (sourceRow source e.span.line ++ '\n' :: (caretRow e.span ++ ['\n'])) := by
  have hbar : "\n   |\n".toList = "\n   |".toList ++ ['\n'] := by decide
  refine ⟨s!"error: {e.kind.message}\n  --> {name}:{e.span.line}:{e.span.column}\n   |".toList, ?_⟩
  rw [LexError.render, String.toList_ofList]
  -- the texts of messages take long to unfold, and do not matter here
  generalize e.kind.message = message
  simp only [toString, String.toList_append, hbar, List.append_assoc, List.cons_append,
    List.nil_append]

theorem lineFeed_not_mem_shownLine {source : String} {k : Nat} {text : List Char}
    (htext : (source.toList.splitOn '\n')[k]? = some text) (hne : text ≠ []) :
    '\n' ∉ shownLine source (k + 1) := by
  have hfeed := lineFeed_not_mem_of_mem_splitOn (List.mem_of_getElem? htext)
  rw [shownLine_of_splitOn htext hne, dropReturn]
  split_ifs
  · exact fun h => hfeed ((List.dropLast_sublist _).mem h)
  · exact hfeed
  · exact hfeed

/-- The last row of a rendered error holds as many carets as the place has characters, and one at least.
They begin left of where the marked character stands in the row above: by one place where the number of
the line has up to three digits, and by one more for each further digit. -/
theorem carets_left_of_column (name source : String) {e : LexError} {text : List Char} {c : Char}
    (hline : 1 ≤ e.span.line) (hcolumn : 1 ≤ e.span.column)
    (htext : (source.toList.splitOn '\n')[e.span.line - 1]? = some text)
    (hc : text[e.span.column - 1]? = some c) :
    ∃ header before row carets,
      (e.render name source).toList = header ++ '\n' :: (row ++ '\n' :: (carets ++ ['\n'])) ∧
      '\n' ∉ row ∧ '\n' ∉ carets ∧ row = before ++ shownLine source e.span.line ∧
      (row[before.length + (e.span.column - 1)]? = some c ∨ c = '\r' ∧ e.span.column = text.length) ∧
      carets.idxOf '^' + (max 3 (toString e.span.line).length - 2) =
        before.length + (e.span.column - 1) ∧
      carets.drop (carets.idxOf '^') = List.replicate (max e.span.len 1) '^' := by
  obtain ⟨k, hk⟩ := Nat.exists_eq_add_of_le' hline
  rw [hk, Nat.add_sub_cancel] at htext
  have hne : text ≠ [] := by
    rintro rfl
    cases hc
  have hrow : sourceRow source e.span.line = gutter e.span.line ++ shownLine source e.span.line := rfl
  obtain ⟨header, hrender⟩ := render_rows e name source
  refine ⟨header, gutter e.span.line, _, _, hrender, ?_, lineFeed_not_mem_caretRow _, hrow, ?_, ?_, ?_⟩
  · rw [hrow, List.mem_append, not_or, hk]
    exact ⟨lineFeed_not_mem_gutter _, lineFeed_not_mem_shownLine htext hne⟩
  · rw [hrow, List.getElem?_append_right (Nat.le_add_right _ _), Nat.add_sub_cancel_left, hk,
      shownLine_of_splitOn htext hne]
    split
    · refine (getElem?_dropReturn hc).imp_right fun h => ⟨h.1, ?_⟩
      omega
    · exact .inl hc
  · rw [idxOf_caretRow, length_indent, length_gutter]
    omega
  · rw [idxOf_caretRow, caretRow_eq, List.drop_left]

end Rendered

/-- A string that is not closed, on the second of two lines. -/
def openString : String := "flex x = 1\nspill(\"hello)"

theorem openString_carets : ∃ header before row carets,
    (LexError.render ⟨.unclosedString, ⟨2, 7, 1⟩⟩ "demo" openString).toList =
      header ++ '\n' :: (row ++ '\n' :: (carets ++ ['\n'])) ∧
    row = before ++ "spill(\"hello)".toList ∧ row[before.length + 6]? = some '"' ∧
    carets.idxOf '^' + 1 = before.length + 6 ∧ carets.drop (carets.idxOf '^') = ['^'] := by
  have hlines : openString.toList.splitOn '\n' = ["flex x = 1".toList, "spill(\"hello)".toList] := rfl
  have hline : (openString.toList.splitOn '\n')[1]? = some "spill(\"hello)".toList := by
    rw [hlines]
    rfl
  obtain ⟨header, before, row, carets, hrender, -, -, hrow, hmarked, hplace, hcarets⟩ :=
    carets_left_of_column "demo" openString (e := ⟨.unclosedString, ⟨2, 7, 1⟩⟩) (by decide)
      (by decide) hline rfl
  have hshown : shownLine openString 2 = "spill(\"hello)".toList := by decide +kernel
  rw [hshown] at hrow
  exact ⟨header, before, row, carets, hrender, hrow, hmarked.resolve_right (by decide), hplace,
    hcarets⟩

/-- The caret for a character at the head of a text stands in front of it. -/
theorem strayCharacter_caret : lex "$" = .error ⟨.invalidCharacter '$', ⟨1, 1, 1⟩⟩ ∧
    LexError.render ⟨.invalidCharacter '$', ⟨1, 1, 1⟩⟩ "demo" "$" =
      "error: invalid character '$'\n  --> demo:1:1\n   |\n  1 | $\n   | ^\n" ∧
    "  1 | $".toList.idxOf '$' = 6 ∧ "   | ^".toList.idxOf '^' = 5 := by
  refine ⟨?_, by decide +kernel, by decide, by decide⟩
  obtain ⟨e, h, herror⟩ := exists_error_of_any (x := lex "$")
    (p := fun e => e = ⟨.invalidCharacter '$', ⟨1, 1, 1⟩⟩) (by decide +kernel)
  rw [h, of_decide_eq_true herror]

end SlangScript
