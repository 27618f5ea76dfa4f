import SlangScript.Analysis
import SlangScript.Diagnostic
import SlangScript.Proofs.Faults
import SlangScript.Proofs.FirstDefect
import SlangScript.Proofs.Positions

/-! The places of errors. An error stands on characters of the line that it names, and the line is shown
with all of them; what a message quotes is what stands there. -/
namespace SlangScript

/-- The span covers the characters `w` of a line, of which the last is no white space. -/
def Span.Marks (s : Span) (text w : List Char) : Prop :=
  ∃ before behind, text = before ++ (w ++ behind) ∧ s.column = before.length + 1 ∧
    s.len = w.length ∧ ∃ c ∈ w.getLast?, isBlank c = false

/-- The error stands on this line, on the characters that it quotes if it quotes any. -/
def LexError.StandsOn (e : LexError) (text : List Char) : Prop :=
  ∃ w, e.span.Marks text w ∧ ∀ q ∈ e.kind.quoted?, q = w

/-- The error stands on one of these lines, of which the first has the number `line`. -/
def LexError.StandsAmong (e : LexError) (line : Nat) (texts : List (List Char)) : Prop :=
  ∃ k text, texts[k]? = some text ∧ e.span.line = line + k ∧ e.StandsOn text

namespace Span.Marks
variable {s : Span} {text w : List Char}

theorem ne_nil (h : s.Marks text w) : w ≠ [] := by
  obtain ⟨before, behind, -, -, -, c, hc, -⟩ := h
  rintro rfl
  cases hc

theorem text_ne_nil (h : s.Marks text w) : text ≠ [] := by
  have hne := h.ne_nil
  obtain ⟨before, behind, rfl, -⟩ := h
  simp [hne]

/-- A carriage return is white space, so the last character that is marked is another one. -/
theorem dropReturn (h : s.Marks text w) : s.Marks (dropReturn text) w := by
  obtain ⟨before, behind, rfl, hcolumn, hlen, c, hc, hblank⟩ := h
  rw [SlangScript.dropReturn]
  split
  · rename_i hreturn
    rcases List.eq_nil_or_concat behind with rfl | ⟨behind, d, rfl⟩
    · obtain rfl : c = '\r' := by simpa [Option.mem_def.mp hc] using hreturn
      exact absurd hblank (by decide)
    · exact ⟨before, behind, by simp [← List.append_assoc], hcolumn, hlen, c, hc, hblank⟩
  · exact ⟨before, behind, rfl, hcolumn, hlen, c, hc, hblank⟩

theorem bounds (h : s.Marks text w) : 1 ≤ s.column ∧ s.column - 1 + max s.len 1 ≤ text.length ∧
    (text.drop (s.column - 1)).take s.len = w := by
  have hpos := List.length_pos_iff.mpr h.ne_nil
  obtain ⟨before, behind, rfl, hcolumn, hlen, -⟩ := h
  rw [hcolumn, hlen, Nat.add_sub_cancel, List.drop_left, List.take_left]
  refine ⟨by omega, ?_, rfl⟩
  simp only [List.length_append]
  omega

end Span.Marks

/-! ### Defects of lexemes -/

/-- A defect stands in front of a character, which is what the error quotes if it quotes any. -/
theorem DefectAt.exists_head {column : Nat} {ts : List Token} {kind : LexErrorKind} {tail : List Char}
    (h : DefectAt column ts kind tail) : ∃ c rest, tail = c :: rest ∧ isBlank c = false ∧
      ∀ q ∈ kind.quoted?, q = [c] := by
  cases h with
  | character hquote hoperator hbracket hdelimiter hblank =>
    exact ⟨_, _, rfl, hblank, by simp [LexErrorKind.quoted?]⟩
  | operator hc =>
    refine ⟨_, _, rfl, ?_, by simp [LexErrorKind.quoted?]⟩
    rcases hc with rfl | rfl <;> decide
  | string hq =>
    refine ⟨_, _, rfl, ?_, by simp [LexErrorKind.quoted?]⟩
    rcases hq with rfl | rfl <;> decide
  | number => exact ⟨_, _, rfl, by decide, by simp [LexErrorKind.quoted?]⟩

theorem LexError.IsFirstDefect.standsAmong {e : LexError} {line : Nat} {texts : List (List Char)}
    (h : e.IsFirstDefect line texts) : e.StandsAmong line texts := by
  obtain ⟨before, after, head, tail, lines, ts, rfl, hspan, -, -, hdefect⟩ := h
  obtain ⟨c, rest, rfl, hblank, hquoted⟩ := hdefect.exists_head
  refine ⟨before.length, head ++ c :: rest, ?_, ?_, [c], ⟨head, rest, rfl, ?_, ?_, c, rfl, hblank⟩,
    hquoted⟩
  · rw [List.getElem?_append_right (Nat.le_refl _), Nat.sub_self]
    rfl
  · rw [hspan, Span.point]
  · rw [hspan]
    exact Nat.add_comm 1 head.length
  · rw [hspan]
    rfl

theorem standsAmong_of_tokenize {source : String} {e : LexError} (h : tokenize source = .error e)
    (hne : e.kind ≠ .emptyInput) : e.StandsAmong 1 (source.toList.splitOn '\n') := by
  rcases tokenize_error_cases h with ⟨-, rfl⟩ | ⟨-, hfirst⟩
  · exact absurd rfl hne
  · exact hfirst.standsAmong

/-! ### Faults of tokens -/

/-- No lexeme ends in white space. -/
theorem IsLexeme.getLast_not_blank {kind : TokenKind} {w rest : List Char}
    (h : IsLexeme kind w rest) : ∃ c ∈ w.getLast?, isBlank c = false := by
  have hlast (hw : ∀ c ∈ w, isBlank c = false) : ∃ c ∈ w.getLast?, isBlank c = false :=
    ⟨w.getLast h.ne_nil, List.getLast?_eq_some_getLast h.ne_nil, hw _ (List.getLast_mem h.ne_nil)⟩
  have hnumber (hw : IsNumber w) : ∃ c ∈ w.getLast?, isBlank c = false := by
    refine hlast fun c hc => Bool.eq_false_iff.mpr fun hblank => ?_
    have hsymbol := (Lexeme.isSymbol_blank hblank).1
    rcases hw.chars c hc with hdigit | hpoint
    · exact absurd (hsymbol.digit.symm.trans hdigit) nofun
    · exact hsymbol.point hpoint
  have hword (hw : IsWord w rest) : ∃ c ∈ w.getLast?, isBlank c = false := by
    refine hlast fun c hc => Bool.eq_false_iff.mpr fun hblank => ?_
    have hsymbol := (Lexeme.isSymbol_blank hblank).1
    exact absurd (hsymbol.alphanumeric.symm.trans (hw.chars c hc)) nofun
  cases h with
  | integer hw | float hw => exact hnumber hw
  | keyword hw | reservedWord hw | function hw | identifier hw => exact hword hw
  | string hq hi =>
    rename_i quote inside
    have hquote : isBlank quote = false := by rcases hq with rfl | rfl <;> decide
    exact ⟨quote, by rw [← List.cons_append, List.getLast?_concat]; rfl, hquote⟩
  | double ho => exact hlast (ho ▸ isBlank_operator)
  | single ho => exact hlast (ho ▸ isBlank_operator)
  | bracket =>
    rename_i b
    exact ⟨b.char, rfl, by cases b <;> decide⟩
  | delimiter =>
    rename_i d
    exact ⟨d.char, rfl, by cases d <;> decide⟩

theorem Positioned.marks {line : Nat} {text : List Char} {ts : List Token} {t : Token}
    (h : Positioned line 1 text ts) (ht : t ∈ ts)
    (hlast : ∃ c ∈ t.lexeme.toList.getLast?, isBlank c = false) :
    t.span.Marks text t.lexeme.toList := by
  have htext := h.text_eq t ht
  have hlength := congrArg List.length htext
  have hlen := h.len_eq t ht
  have hpos := h.len_pos t ht
  have hcolumn := h.column_le t ht
  simp only [List.length_take, List.length_drop, String.length_toList] at hlength
  refine ⟨text.take (t.span.column - 1), (text.drop (t.span.column - 1)).drop t.span.len, ?_, ?_, ?_,
    hlast⟩
  · rw [← htext, List.take_append_drop, List.take_append_drop]
  · rw [List.length_take]
    omega
  · rwa [String.length_toList]

theorem standsAmong_of_validate {source : String} {lines : List TokenLine} {e : LexError}
    (hlines : tokenize source = .ok lines) (h : validate lines = .error e) :
    e.StandsAmong 1 (source.toList.splitOn '\n') := by
  obtain ⟨t, ht, hnames⟩ := validate_names h
  obtain ⟨rest, hlexeme⟩ := tokenize_isLexeme hlines t ht
  obtain ⟨found, hfound, htoken⟩ := List.mem_flatMap.mp ht
  obtain ⟨k, hk⟩ := List.getElem?_of_mem hfound
  obtain ⟨-, text, htext, hpositioned⟩ := (tokenize_eq_ok_iff.mp hlines).2.positioned hk
  refine ⟨k, text, htext, ?_, t.lexeme.toList, ?_, hnames.quoted⟩
  · rw [hnames.span, hpositioned.line_eq t htoken]
  · rw [hnames.span]
    exact hpositioned.marks htoken hlexeme.getLast_not_blank

theorem standsAmong_of_lex {source : String} {e : LexError} (h : lex source = .error e)
    (hne : e.kind ≠ .emptyInput) : e.StandsAmong 1 (source.toList.splitOn '\n') := by
  rcases except_bind_eq_error.mp h with h | ⟨lines, hlines, h⟩
  · exact standsAmong_of_tokenize h hne
  · exact standsAmong_of_validate hlines h

/-! ### Lines as they are shown -/

/-- A line that is not empty is shown, without the carriage return that belongs to its line feed. -/
theorem shownLine_of_splitOn {source : String} {k : Nat} {text : List Char}
    (hk : (source.toList.splitOn '\n')[k]? = some text) (hne : text ≠ []) :
    shownLine source (k + 1) = if k < source.toList.count '\n' then dropReturn text else text := by
  have hcount : (source.toList.splitOn '\n').length = source.toList.count '\n' + 1 :=
    length_splitOn_lineFeed
  rw [shownLine, Nat.add_sub_cancel, shownLines, splitLines_eq_splitOn]
  rcases List.eq_nil_or_concat (source.toList.splitOn '\n') with hnil | ⟨closed, last, hlines⟩
  · rw [hnil] at hk
    cases hk
  · rw [List.concat_eq_append] at hlines
    rw [hlines, List.length_append, List.length_singleton, Nat.add_right_cancel_iff] at hcount
    rw [hlines] at hk ⊢
    rw [List.dropLast_concat, List.getLast?_concat, ← hcount]
    rcases Nat.lt_or_ge k closed.length with hlt | hge
    · have hclosed : (closed.map dropReturn)[k]? = some (dropReturn text) := by
        rw [List.getElem?_append_left hlt] at hk
        rw [List.getElem?_map, hk]
        rfl
      have hshown : (closed.map dropReturn ++ [last])[k]? = some (dropReturn text) := by
        rw [List.getElem?_append_left (by simpa using hlt), hclosed]
      rw [if_pos hlt]
      cases last with
      | nil => simp [hclosed]
      | cons c last => simp only [hshown, Option.getD_some]
    · -- the only line without a line feed is the last one
      rw [List.getElem?_append_right hge] at hk
      obtain ⟨hzero, rfl⟩ : k - closed.length = 0 ∧ last = text := by
        simpa [List.getElem?_singleton] using hk
      obtain ⟨c, last, rfl⟩ := List.exists_cons_of_ne_nil hne
      have hshown : (closed.map dropReturn ++ [c :: last])[k]? = some (c :: last) := by
        rw [List.getElem?_append_right (by simpa using hge), List.length_map, hzero]
        rfl
      rw [if_neg (Nat.not_lt.mpr hge)]
      simp only [hshown, Option.getD_some]

/-- An error points at text that is there. The line that is shown for it is the one that was read under
its number, but for the carriage return before a line feed; the place lies on this line, and what the
message quotes is what stands there. -/
theorem lex_error_place {source : String} {e : LexError} (h : lex source = .error e)
    (hne : e.kind ≠ .emptyInput) :
    1 ≤ e.span.line ∧
    (∃ text, (source.toList.splitOn '\n')[e.span.line - 1]? = some text ∧
      shownLine source e.span.line =
        if e.span.line ≤ source.toList.count '\n' then dropReturn text else text) ∧
    1 ≤ e.span.column ∧
    e.span.column - 1 + max e.span.len 1 ≤ (shownLine source e.span.line).length ∧
    ∀ q ∈ e.kind.quoted?,
      ((shownLine source e.span.line).drop (e.span.column - 1)).take e.span.len = q := by
  obtain ⟨k, text, htext, hline, w, hmarks, hquoted⟩ := standsAmong_of_lex h hne
  have hshown := shownLine_of_splitOn htext hmarks.text_ne_nil
  rw [hline, Nat.add_comm 1 k, Nat.add_sub_cancel]
  refine ⟨Nat.le_add_left 1 k, ⟨text, htext, hshown⟩, ?_⟩
  have hmarks' : e.span.Marks (shownLine source (k + 1)) w := by
    rw [hshown]
    split
    · exact hmarks.dropReturn
    · exact hmarks
  obtain ⟨hcolumn, hbound, htake⟩ := hmarks'.bounds
  exact ⟨hcolumn, hbound, fun q hq => (hquoted q hq).symm ▸ htake⟩

/-- Two lines that end in carriage returns and line feeds. The second one names a line that is not
there. -/
def returnedLines : String := "flex x;\r\nline = [9]\r\n"

theorem returnedLines_error_place : ∃ e, lex returnedLines = .error e ∧
    e = ⟨.lineOutOfRange "9" 3, ⟨2, 9, 1⟩⟩ ∧ shownLine returnedLines 2 = "line = [9]".toList ∧
    e.span.column - 1 + max e.span.len 1 ≤ (shownLine returnedLines e.span.line).length ∧
    ∀ q ∈ e.kind.quoted?,
      ((shownLine returnedLines e.span.line).drop (e.span.column - 1)).take e.span.len = q := by
  obtain ⟨e, h, herror⟩ := exists_error_of_any (x := lex returnedLines)
    (p := fun e => e = ⟨.lineOutOfRange "9" 3, ⟨2, 9, 1⟩⟩) (by decide +kernel)
  have hplace := of_decide_eq_true herror
  have hne : e.kind ≠ .emptyInput := by
    rw [hplace]
    nofun
  obtain ⟨-, -, -, hbound, hquoted⟩ := lex_error_place h hne
  exact ⟨e, h, hplace, by decide +kernel, hbound, hquoted⟩

end SlangScript
