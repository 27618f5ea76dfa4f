import SlangScript.Proofs.Segmentation

/-! The defect that a text is refused for. It is the first one: what stands before it, the lines above it
and the beginning of its line, is read to the end when it stands alone. -/
namespace SlangScript

/-- `DefectAt column ts kind tail`: the line goes on with `tail` from this column on, behind the tokens
`ts`, and no lexeme begins there or goes on there, for the cause that the error names. -/
inductive DefectAt (column : Nat) (ts : List Token) : LexErrorKind → List Char → Prop
  | character {c : Char} {rest : List Char} (hquote : ¬ (c = '"' ∨ c = '\''))
    (hoperator : c ∉ operatorStarts) (hbracket : ∀ b : Bracket, b.char ≠ c)
    (hdelimiter : ∀ d : Delimiter, d.char ≠ c) (hblank : isBlank c = false)
    (halphanumeric : isAlphanumeric c = false)
    (hpoint : c = '.' → ∀ d ∈ rest.head?, d.isDigit = false) :
    DefectAt column ts (.invalidCharacter c) (c :: rest)
  | operator {c : Char} {rest : List Char} (hc : c = '&' ∨ c = '|') (hnext : rest.head? ≠ some c) :
    DefectAt column ts (.invalidOperator c) (c :: rest)
  | string {quote : Char} {rest : List Char} (hq : quote = '"' ∨ quote = '\'')
    (hopen : quote ∉ rest) : DefectAt column ts .unclosedString (quote :: rest)
  | number {t : Token} {rest : List Char} (ht : t ∈ ts) (hkind : t.kind = .floatNumber)
    (hend : t.span.column + t.span.len = column) : DefectAt column ts .invalidNumber ('.' :: rest)

/-- The error is the first defect of these lines, of which the first has the number `line`: the lines
before it and its own line up to it are read without a defect. -/
def LexError.IsFirstDefect (e : LexError) (line : Nat) (texts : List (List Char)) : Prop :=
  ∃ (before after : List (List Char)) (head tail : List Char) (lines : List TokenLine)
    (ts : List Token), texts = before ++ (head ++ tail) :: after ∧
    e.span = .point (line + before.length) (1 + head.length) ∧
    scanLines line before = ⟨lines, none⟩ ∧ scanLine e.span.line 1 head = ⟨ts, none⟩ ∧
    DefectAt e.span.column ts e.kind tail

namespace DefectAt
variable {column : Nat} {ts us : List Token} {kind : LexErrorKind} {tail : List Char}

/-- More tokens before a defect change nothing about it. -/
theorem mono (h : DefectAt column ts kind tail) (hsub : ts ⊆ us) : DefectAt column us kind tail := by
  cases h with
  | character hquote hoperator hbracket hdelimiter hblank halphanumeric hpoint =>
    exact .character hquote hoperator hbracket hdelimiter hblank halphanumeric hpoint
  | operator hc hnext => exact .operator hc hnext
  | string hq hopen => exact .string hq hopen
  | number ht hkind hend => exact .number (hsub ht) hkind hend

theorem head_ne_paren (h : DefectAt column ts kind tail) : tail.head? ≠ some '(' := by
  intro hparen
  cases h with
  | character hquote hoperator hbracket =>
    cases hparen
    exact hbracket .openParen rfl
  | operator hc =>
    cases hparen
    exact absurd hc (by decide)
  | string hq =>
    cases hparen
    exact absurd hq (by decide)
  | number => cases hparen

end DefectAt

namespace Lexeme
variable {c : Char} {rest : List Char} {kind : LexErrorKind} {offset : Nat}

/-- Of the characters that operators begin with, two make none alone. -/
theorem operator_defect (hc : c ∈ operatorStarts) (h : operator c rest = .defect kind offset) :
    offset = 0 ∧ kind = .invalidOperator c ∧ (c = '&' ∨ c = '|') ∧ rest.head? ≠ some c := by
  have hdouble : operatorStarts.all (fun c => (Operator.ofChars? [c]).isSome ||
      (c = '&' || c = '|') && (Operator.ofChars? [c, c]).isSome) = true := by decide
  rw [operator] at h
  split at h
  · cases h
  · rename_i hpair
    split at h
    · cases h
    · rename_i hsingle
      cases h
      obtain ⟨hc, htwice⟩ : (c = '&' ∨ c = '|') ∧ (Operator.ofChars? [c, c]).isSome = true := by
        simpa [hsingle] using List.all_eq_true.mp hdouble c hc
      refine ⟨rfl, rfl, hc, fun hnext => ?_⟩
      rw [hnext, Option.bind_some] at hpair
      rw [hpair] at htwice
      cases htwice

/-- A number has a second point right behind what is a number by itself. -/
theorem number_defect (hc : startsNumber c rest = true)
    (h : number (c :: rest) = .defect kind offset) : kind = .invalidNumber ∧
      ∃ w behind, c :: rest = w ++ '.' :: behind ∧ w.length = offset ∧ IsLexeme .floatNumber w [] := by
  rcases number_cases (c :: rest) with
    ⟨a, rest', hsplit, ha, hend⟩ | ⟨a, b, rest', hsplit, ha, hb, hend | ⟨behind, rfl⟩⟩
  · rw [hsplit, number_digits ha hend] at h
    cases h
  · rw [hsplit, number_point ha hb hend] at h
    cases h
  · have hne : a = [] → b ≠ [] := by
      rintro rfl rfl
      obtain ⟨rfl, rfl⟩ := List.cons.inj hsplit
      exact absurd hc (Bool.eq_false_iff.mp rfl)
    rw [hsplit, number_secondPoint ha hb] at h
    cases h
    refine ⟨rfl, a ++ '.' :: b, behind, by simp [hsplit], by simp; omega, ?_⟩
    exact .float (.of_point ha hb hne) (by simp) nofun

/-- Where nothing is read, there is a defect, with a number before it or with nothing. -/
theorem exists_defectAt (line column : Nat) (h : read c rest = .defect kind offset) :
    ∃ head tail ts, c :: rest = head ++ tail ∧ head.length = offset ∧ Laid line column head ts ∧
      DefectAt (column + offset) ts kind tail := by
  rw [read] at h
  split at h
  · rename_i hstarts
    obtain ⟨rfl, w, behind, hsplit, rfl, hw⟩ := number_defect hstarts h
    have hlaid : Laid line column (w ++ []) _ := .lexeme hw .nil
    rw [List.append_nil] at hlaid
    exact ⟨w, '.' :: behind, _, hsplit, rfl, hlaid, .number (.head _) rfl rfl⟩
  rename_i hstarts
  split at h
  · cases h
  rename_i halphanumeric
  split at h
  · rename_i hq
    by_cases hmem : c ∈ rest
    · obtain ⟨inside, behind, rfl, hi⟩ := List.eq_append_cons_of_mem hmem
      rw [quoted_closed hi] at h
      cases h
    · rw [quoted_open hmem] at h
      cases h
      exact ⟨[], c :: rest, [], rfl, rfl, .nil, .string hq hmem⟩
  rename_i hquote
  split at h
  · rename_i hstart
    obtain ⟨rfl, rfl, hc, hnext⟩ := operator_defect (List.contains_iff_mem.mp hstart) h
    exact ⟨[], c :: rest, [], rfl, rfl, .nil, .operator hc hnext⟩
  rename_i hoperator
  split at h
  · cases h
  rename_i hbracket
  split at h
  · cases h
  rename_i hdelimiter
  split at h
  · cases h
  rename_i hblank
  cases h
  refine ⟨[], c :: rest, [], rfl, rfl, .nil, .character hquote ?_ ?_ ?_ ?_ ?_ ?_⟩
  · exact fun hmem => hoperator (List.contains_iff_mem.mpr hmem)
  · rintro b rfl
    cases hbracket.symm.trans b.ofChar?_char
  · rintro d rfl
    cases hdelimiter.symm.trans d.ofChar?_char
  · exact Bool.eq_false_iff.mpr hblank
  · exact Bool.eq_false_iff.mpr halphanumeric
  · rintro rfl d hd
    exact Bool.eq_false_iff.mpr fun hdigit => hstarts (startsNumber_iff.mpr (.inr ⟨rfl, d, hd, hdigit⟩))

end Lexeme

section Scanning
variable {line column : Nat} {text : List Char} {texts : List (List Char)} {e : LexError}

/-- A lexeme is read as it was where its line ends at the defect. -/
theorem IsLexeme.before_defect {kind : TokenKind} {w head tail : List Char} {ts : List Token}
    {cause : LexErrorKind} (h : IsLexeme kind w (head ++ tail))
    (hdefect : DefectAt column ts cause tail) : IsLexeme kind w head := by
  cases head with
  | nil =>
    apply h.elsewhere
    · nofun
    · rintro rfl
      exact absurd h.function_head hdefect.head_ne_paren
  | cons c head =>
    apply h.elsewhere
    · exact fun c hc => .inl hc
    · rintro rfl
      exact h.function_head

/-- The first defect of a line, and the tokens up to it. -/
theorem exists_defectAt_of_scanLine (h : (scanLine line column text).defect = some e) :
    ∃ head tail ts, text = head ++ tail ∧ e.span = .point line (column + head.length) ∧
      Laid line column head ts ∧ DefectAt (column + head.length) ts e.kind tail := by
  induction column, text using scanLine.induct line with
  | case1 column =>
    rw [scanLine] at h
    cases h
  | case2 column c text kind more hread ih =>
    obtain ⟨w, rest, rfl, rfl, hl⟩ := Lexeme.read_eq_token_iff.mp hread
    rw [← List.cons_append, scanLine_lexeme hl] at h
    rw [List.drop_left, Nat.add_assoc, ← List.length_cons (a := c)] at ih
    obtain ⟨head, tail, ts, rfl, hspan, hlaid, hdefect⟩ := ih h
    rw [Nat.add_assoc, ← List.length_append] at hspan hdefect
    exact ⟨c :: w ++ head, tail, _, by rw [← List.cons_append, List.append_assoc], hspan,
      .lexeme (hl.before_defect hdefect) hlaid, hdefect.mono (List.subset_cons_self _ _)⟩
  | case3 column c rest hread ih =>
    have hc := Lexeme.read_eq_blank_iff.mp hread
    rw [scanLine_blank hc] at h
    obtain ⟨head, tail, ts, rfl, hspan, hlaid, hdefect⟩ := ih h
    rw [Nat.add_assoc, Nat.add_comm 1, ← List.length_cons (a := c)] at hspan hdefect
    exact ⟨c :: head, tail, ts, rfl, hspan, .blank hc hlaid, hdefect⟩
  | case4 column c rest kind offset hread =>
    rw [scanLine, hread] at h
    cases h
    obtain ⟨head, tail, ts, hsplit, rfl, hlaid, hdefect⟩ := Lexeme.exists_defectAt line column hread
    exact ⟨head, tail, ts, hsplit, rfl, hlaid, hdefect⟩

theorem isFirstDefect_of_scanLines (h : (scanLines line texts).defect = some e) :
    e.IsFirstDefect line texts := by
  induction texts generalizing line with
  | nil => cases h
  | cons text texts ih =>
    rw [scanLines] at h
    dsimp only at h
    split at h
    · rename_i e' hdefect
      cases h
      obtain ⟨head, tail, ts, rfl, hspan, hlaid, hdefect⟩ := exists_defectAt_of_scanLine hdefect
      refine ⟨[], texts, head, tail, [], ts, rfl, hspan, rfl, ?_, ?_⟩
      · rw [hspan]
        exact scanLine_eq_iff.mpr hlaid
      · rwa [hspan]
    · rename_i hnone
      obtain ⟨before, after, head, tail, lines, ts, rfl, hspan, hbefore, hhead, hdefect⟩ := ih h
      refine ⟨text :: before, after, head, tail, ⟨line, (scanLine line 1 text).tokens⟩ :: lines, ts, rfl,
        ?_, ?_, hhead, hdefect⟩
      · rw [hspan, List.length_cons, Nat.add_assoc, Nat.add_comm 1]
      · rw [scanLines, hnone, hbefore]

end Scanning

/-- A text is refused when it is all white space, or else for its first defect. -/
theorem tokenize_error_cases {source : String} {e : LexError} (h : tokenize source = .error e) :
    source.toList.all isBlank = true ∧ e = ⟨.emptyInput, .point 1 1⟩ ∨
      source.toList.all isBlank = false ∧ e.IsFirstDefect 1 (source.toList.splitOn '\n') := by
  rw [tokenize] at h
  split at h
  · rename_i e' hdefect
    cases h
    rw [scan] at hdefect
    split at hdefect
    · rename_i hblank
      cases hdefect
      exact .inl ⟨hblank, rfl⟩
    · rename_i hblank
      rw [splitLines_eq_splitOn] at hdefect
      exact .inr ⟨Bool.eq_false_iff.mpr hblank, isFirstDefect_of_scanLines hdefect⟩
  · cases h

/-- A text is empty when it is all white space, and has no other defect then. Any other text that is
refused is refused for its first defect. -/
theorem tokenize_firstDefect (source : String) :
    (tokenize source = .error ⟨.emptyInput, .point 1 1⟩ ↔ ∀ c ∈ source.toList, isBlank c = true) ∧
    ∀ e, tokenize source = .error e → e ≠ ⟨.emptyInput, .point 1 1⟩ →
      e.IsFirstDefect 1 (source.toList.splitOn '\n') := by
  refine ⟨⟨fun h => ?_, fun hblank => ?_⟩, fun e h hne => ?_⟩
  · rcases tokenize_error_cases h with ⟨hblank, -⟩ | ⟨-, hfirst⟩
    · exact List.all_eq_true.mp hblank
    · obtain ⟨before, after, head, tail, lines, ts, -, -, -, -, hdefect⟩ := hfirst
      cases hdefect
  · rw [tokenize, scan, if_pos (List.all_eq_true.mpr hblank)]
  · rcases tokenize_error_cases h with ⟨-, hempty⟩ | ⟨-, hfirst⟩
    · exact absurd hempty hne
    · exact hfirst

theorem secondPoint_isFirstDefect :
    tokenize "flex x\nx = 1.2.3 $" = .error ⟨.invalidNumber, .point 2 8⟩ ∧
    LexError.IsFirstDefect ⟨.invalidNumber, .point 2 8⟩ 1
      ("flex x\nx = 1.2.3 $".toList.splitOn '\n') := by
  have hscan : (scan "flex x\nx = 1.2.3 $").defect = some ⟨.invalidNumber, .point 2 8⟩ := by
    decide +kernel
  have h : tokenize "flex x\nx = 1.2.3 $" = .error ⟨.invalidNumber, .point 2 8⟩ := by
    rw [tokenize, hscan]
  exact ⟨h, (tokenize_firstDefect _).2 _ h (by decide)⟩

end SlangScript
