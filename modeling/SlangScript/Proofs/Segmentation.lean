import SlangScript.Proofs.LexemeRules
import SlangScript.Token.Scan

/-! The division of a text into lexemes. A text has tokens exactly when each of its lines is white space
and lexemes by the rules, and there is no second way to divide it. -/
namespace SlangScript

/-- `Segmented text pieces`: the line consists of white space and of lexemes by the rules, which have
these kinds and texts. -/
inductive Segmented : List Char → List (TokenKind × String) → Prop
  | nil : Segmented [] []
  | blank {c : Char} {rest : List Char} {pieces : List (TokenKind × String)}
    (hc : isBlank c = true) (h : Segmented rest pieces) : Segmented (c :: rest) pieces
  | lexeme {kind : TokenKind} {w rest : List Char} {pieces : List (TokenKind × String)}
    (hw : IsLexeme kind w rest) (h : Segmented rest pieces) :
    Segmented (w ++ rest) ((kind, String.ofList w) :: pieces)

/-- Kind and text of a token, wherever it stands. -/
def Token.piece (t : Token) : TokenKind × String := (t.kind, t.lexeme)

/-- `Laid line column text tokens`: the line consists of white space and of lexemes by the rules, and the
tokens are these lexemes with their places, where the text begins at this column. -/
inductive Laid (line : Nat) : Nat → List Char → List Token → Prop
  | nil {column : Nat} : Laid line column [] []
  | blank {column : Nat} {c : Char} {rest : List Char} {ts : List Token} (hc : isBlank c = true)
    (h : Laid line (column + 1) rest ts) : Laid line column (c :: rest) ts
  | lexeme {column : Nat} {kind : TokenKind} {w rest : List Char} {ts : List Token}
    (hw : IsLexeme kind w rest) (h : Laid line (column + w.length) rest ts) :
    Laid line column (w ++ rest) (⟨kind, String.ofList w, ⟨line, column, w.length⟩⟩ :: ts)

/-- The tokens of lines, the first of which has the number `line`. -/
inductive LaidLines : Nat → List (List Char) → List TokenLine → Prop
  | nil {line : Nat} : LaidLines line [] []
  | cons {line : Nat} {text : List Char} {texts : List (List Char)} {ts : List Token}
    {lines : List TokenLine} (h : Laid line 1 text ts) (hs : LaidLines (line + 1) texts lines) :
    LaidLines line (text :: texts) (⟨line, ts⟩ :: lines)

/-! ### Lines of text -/

/-- Lines end at line feeds and nowhere else. -/
theorem splitLines_eq_splitOn (text : List Char) : splitLines text = text.splitOn '\n' := by
  induction text with
  | nil => rfl
  | cons c text ih =>
    obtain ⟨first, more, hlines⟩ := List.exists_cons_of_ne_nil
      (List.splitOnP_ne_nil (· == '\n') text)
    have hsplit : splitLines text = first :: more := ih.trans hlines
    rw [splitLines] at hsplit ⊢
    rw [List.splitOn, List.splitOnP_cons_eq_if_modifyHead, hlines, List.foldr_cons, hsplit]
    by_cases hc : c = '\n' <;> simp [hc, consLine]

section Line
variable {line column : Nat} {kind : TokenKind} {c : Char} {w rest text : List Char} {ts : List Token}

theorem IsLexeme.ne_nil (h : IsLexeme kind w rest) : w ≠ [] := by
  cases h with
  | integer hw | float hw =>
    rintro rfl
    obtain ⟨_, _, h, -⟩ := hw.begins
    cases h
  | keyword hw | reservedWord hw | function hw | identifier hw => exact hw.ne_nil
  | _ => exact List.cons_ne_nil _ _

theorem scanLine_blank (h : isBlank c = true) :
    scanLine line column (c :: rest) = scanLine line (column + 1) rest := by
  rw [scanLine, Lexeme.read_blank h]

theorem scanLine_lexeme (h : IsLexeme kind w rest) :
    scanLine line column (w ++ rest) =
      ⟨⟨kind, String.ofList w, ⟨line, column, w.length⟩⟩ ::
        (scanLine line (column + w.length) rest).tokens,
        (scanLine line (column + w.length) rest).defect⟩ := by
  obtain ⟨c, w, rfl⟩ := List.exists_cons_of_ne_nil h.ne_nil
  rw [List.cons_append, scanLine, Lexeme.read_of_isLexeme h]
  simp only [List.take_left, List.drop_left, List.length_cons, Nat.add_assoc]

/-- A line is read without a defect exactly when its tokens are laid out on it. -/
theorem scanLine_eq_iff :
    scanLine line column text = ⟨ts, none⟩ ↔ Laid line column text ts := by
  constructor
  · intro h
    induction column, text using scanLine.induct line generalizing ts with
    | case1 column =>
      rw [scanLine] at h
      cases h
      exact .nil
    | case2 column c text kind more hread ih =>
      obtain ⟨w, rest, rfl, rfl, hl⟩ := Lexeme.read_eq_token_iff.mp hread
      rw [← List.cons_append, scanLine_lexeme hl] at h
      rw [List.drop_left, Nat.add_assoc, ← List.length_cons (a := c)] at ih
      obtain ⟨rfl, hd⟩ := LineScan.mk.inj h
      exact .lexeme hl (ih (by rw [← hd]))
    | case3 column c rest hread ih =>
      have hc := Lexeme.read_eq_blank_iff.mp hread
      rw [scanLine_blank hc] at h
      exact .blank hc (ih h)
    | case4 column c rest kind offset hread =>
      rw [scanLine, hread] at h
      cases h
  · intro h
    induction h with
    | nil => rw [scanLine]
    | blank hc h ih => rw [scanLine_blank hc, ih]
    | lexeme hw h ih => rw [scanLine_lexeme hw, ih]

/-- There is one way at most to lay out the tokens of a line. -/
theorem Laid.unique {ts' : List Token} (h : Laid line column text ts)
    (h' : Laid line column text ts') : ts = ts' :=
  (LineScan.mk.inj ((scanLine_eq_iff.mpr h).symm.trans (scanLine_eq_iff.mpr h'))).1

/-- The lexemes of a line are those of its tokens, at whatever place the line stands. -/
theorem segmented_iff_laid (line column : Nat) {pieces : List (TokenKind × String)} :
    Segmented text pieces ↔ ∃ ts, Laid line column text ts ∧ pieces = ts.map Token.piece := by
  constructor
  · intro h
    induction h generalizing column with
    | nil => exact ⟨[], .nil, rfl⟩
    | blank hc h ih =>
      obtain ⟨ts, hts, rfl⟩ := ih (column + 1)
      exact ⟨ts, .blank hc hts, rfl⟩
    | lexeme hw h ih =>
      obtain ⟨ts, hts, rfl⟩ := ih _
      exact ⟨_, .lexeme hw hts, rfl⟩
  · rintro ⟨ts, h, rfl⟩
    induction h with
    | nil => exact .nil
    | blank hc h ih => exact .blank hc ih
    | lexeme hw h ih => exact .lexeme hw ih

theorem Laid.segmented_iff (h : Laid line column text ts) {pieces : List (TokenKind × String)} :
    Segmented text pieces ↔ pieces = ts.map Token.piece := by
  rw [segmented_iff_laid line column]
  constructor
  · rintro ⟨ts', h', rfl⟩
    rw [h'.unique h]
  · intro hp
    exact ⟨ts, h, hp⟩

end Line

section Lines
variable {line : Nat} {texts : List (List Char)} {lines : List TokenLine}

theorem scanLines_eq_iff : scanLines line texts = ⟨lines, none⟩ ↔ LaidLines line texts lines := by
  constructor
  · intro h
    induction texts generalizing line lines with
    | nil =>
      cases h
      exact .nil
    | cons text texts ih =>
      rw [scanLines] at h
      dsimp only at h
      split at h
      · cases h
      · rename_i hnone
        obtain ⟨rfl, hd⟩ := Scan.mk.inj h
        exact .cons (scanLine_eq_iff.mp (by rw [← hnone])) (ih (by rw [← hd]))
  · intro h
    induction h with
    | nil => rfl
    | cons h hs ih => simp only [scanLines, scanLine_eq_iff.mpr h, ih]

theorem LaidLines.length_eq (h : LaidLines line texts lines) : lines.length = texts.length := by
  induction h with
  | nil => rfl
  | cons h hs ih => simp [ih]

/-- Lines have tokens when each of them has. -/
theorem exists_laidLines_iff (line : Nat) (texts : List (List Char)) :
    (∃ lines, LaidLines line texts lines) ↔ ∀ text ∈ texts, ∃ pieces, Segmented text pieces := by
  induction texts generalizing line with
  | nil => simpa using ⟨[], .nil⟩
  | cons text texts ih =>
    rw [List.forall_mem_cons, ← ih (line + 1)]
    constructor
    · rintro ⟨lines, hl⟩
      cases hl with
      | cons h hs => exact ⟨⟨_, h.segmented_iff.mpr rfl⟩, _, hs⟩
    · rintro ⟨⟨pieces, hp⟩, lines, hs⟩
      obtain ⟨ts, h, -⟩ := (segmented_iff_laid line 1).mp hp
      exact ⟨_, .cons h hs⟩

theorem LaidLines.segmented_iff (h : LaidLines line texts lines) :
    ∀ p ∈ texts.zip lines, ∀ pieces, Segmented p.1 pieces ↔ pieces = p.2.tokens.map Token.piece := by
  induction h with
  | nil => simp
  | cons h hs ih =>
    rw [List.zip_cons_cons, List.forall_mem_cons]
    exact ⟨fun pieces => h.segmented_iff, ih⟩

end Lines

/-- A text that is not all white space has the tokens that are laid out on its lines. -/
theorem tokenize_eq_ok_iff {source : String} {lines : List TokenLine} :
    tokenize source = .ok lines ↔ (∃ c ∈ source.toList, isBlank c = false) ∧
      LaidLines 1 (source.toList.splitOn '\n') lines := by
  rw [← splitLines_eq_splitOn, ← scanLines_eq_iff, tokenize, scan]
  by_cases hblank : source.toList.all isBlank = true
  · have hno : ¬ ∃ c ∈ source.toList, isBlank c = false := by
      simpa using hblank
    simp only [hblank, ↓reduceIte, reduceCtorEq, hno, false_and]
  · have hsome : ∃ c ∈ source.toList, isBlank c = false := by simpa using hblank
    simp only [hblank, Bool.false_eq_true, ↓reduceIte, hsome, true_and]
    generalize scanLines 1 (splitLines source.toList) = result
    obtain ⟨found, defect⟩ := result
    cases defect <;> simp

/-- A text has tokens exactly when it is not all white space and each of its lines can be divided into
white space and lexemes by the rules; the kinds and texts of the tokens of each line are then the only
such division of it. -/
theorem tokenize_segments (source : String) :
    ((∃ lines, tokenize source = .ok lines) ↔ (∃ c ∈ source.toList, isBlank c = false) ∧
      ∀ text ∈ source.toList.splitOn '\n', ∃ pieces, Segmented text pieces) ∧
    ∀ lines, tokenize source = .ok lines →
      lines.length = (source.toList.splitOn '\n').length ∧
      ∀ p ∈ (source.toList.splitOn '\n').zip lines, ∀ pieces,
        Segmented p.1 pieces ↔ pieces = p.2.tokens.map Token.piece := by
  constructor
  · simp only [tokenize_eq_ok_iff, exists_and_left, exists_laidLines_iff]
  · intro lines h
    obtain ⟨-, hlines⟩ := tokenize_eq_ok_iff.mp h
    exact ⟨hlines.length_eq, hlines.segmented_iff⟩

/-- The tokens of `spill(x1 >= .5)`. -/
def printedComparison : List Token :=
  [⟨.keyword, "spill", ⟨1, 1, 5⟩⟩, ⟨.bracket .openParen, "(", ⟨1, 6, 1⟩⟩,
    ⟨.identifier, "x1", ⟨1, 7, 2⟩⟩, ⟨.operator .greaterEqual, ">=", ⟨1, 10, 2⟩⟩,
    ⟨.floatNumber, ".5", ⟨1, 13, 2⟩⟩, ⟨.bracket .closeParen, ")", ⟨1, 15, 1⟩⟩]

theorem printedComparison_segments :
    tokenize "spill(x1 >= .5)" = .ok [⟨1, printedComparison⟩] ∧ ∀ pieces,
      Segmented "spill(x1 >= .5)".toList pieces ↔ pieces = printedComparison.map Token.piece := by
  have hscan : scan "spill(x1 >= .5)" = ⟨[⟨1, printedComparison⟩], none⟩ := by decide +kernel
  have h : tokenize "spill(x1 >= .5)" = .ok [⟨1, printedComparison⟩] := by rw [tokenize, hscan]
  have hlines := ((tokenize_segments "spill(x1 >= .5)").2 _ h).2
  exact ⟨h, hlines ("spill(x1 >= .5)".toList, ⟨1, printedComparison⟩) (by decide +kernel)⟩

end SlangScript
