import Mathlib.Data.List.Nodup
import SlangScript.Proofs.CheckedCounterparts
import SlangScript.Proofs.Concatenation
import SlangScript.Proofs.UniformProductions

/-! The layout of a text. Two texts with the same lexemes line by line are accepted or rejected alike,
wherever on its line a lexeme stands and wherever lines without lexemes lie between the others. -/
namespace SlangScript

/-- The lines that have tokens. -/
def TokenLine.filled (lines : List TokenLine) : List TokenLine :=
  lines.filter fun l => !l.tokens.isEmpty

/-- The kinds and texts of tokens, line by line, where there are any on a line. -/
def TokenLine.pieces (lines : List TokenLine) : List (List (TokenKind × String)) :=
  (filled lines).map fun l => l.tokens.map Token.piece

/-- What a rejection says, but for the place in the text. -/
def AnalysisError.complaint : AnalysisError → LexErrorKind ⊕ List (Nat × String)
  | lexical e => .inl e.kind
  | grammatical errors => .inr (errors.map fun e => (e.index, e.message))

/-- The tree of a text that is accepted, or what its rejection says. -/
def verdict (source : String) : Except (LexErrorKind ⊕ List (Nat × String)) Tree :=
  ((analyze source).map Analysis.tree).mapError AnalysisError.complaint

/-! ### Texts that are the same -/

section Same
variable {W : Span → Span → Prop} {t u : Token}

theorem Token.Counterpart.lexeme_eq (h : t.Counterpart Eq W u) : u.lexeme = t.lexeme := by
  cases hfree : t.kind.hasFreeText with
  | true => exact (h.free hfree).symm
  | false => exact h.fixed hfree

theorem Token.Counterpart.display (h : t.Counterpart Eq W u) : u.display = t.display := by
  rw [Token.display, Token.display, h.kind, h.lexeme_eq]

theorem Mismatch.Corresponds.message {m m' : Mismatch} (h : m.Corresponds Eq W m') :
    m'.message = m.message := by
  -- `Mismatch.message` is unfolded by hand, since its equations take long to generate
  cases h with
  | expected kind h | expression h | statement h =>
    cases h with
    | none => rfl
    | some h =>
      delta Mismatch.message
      dsimp only
      rw [h.display]
  | parameterType h | leftover h =>
    delta Mismatch.message
    dsimp only
    rw [h.display]
  | tooDeep | emptyProgram => rfl

theorem LexErrorKind.Corresponds.eq {kind kind' : LexErrorKind} (h : kind.Corresponds Eq kind') :
    kind' = kind := by
  have hsame {s s' : String} (h : Relation.ReflGen Eq s s') : s' = s := by
    cases h with
    | refl => rfl
    | single h => exact h.symm
  cases h with
  | same => rfl
  | invalidFunctionParameter hf h => rw [hsame hf, hsame h]
  | invalidParameter _ _ h | missingSemicolon _ h => rw [hsame h]
  | expectedOpenParen h | missingCloseParen h | expectedBlock h | emptyBlock h | invalidLineEntry h =>
    rw [hsame h]

mutual

theorem Tree.Corresponds.eq : ∀ {t u : Tree}, t.Corresponds Eq u → u = t
  | _, _, .free _ rfl hts => by rw [forall₂_corresponds_eq hts]
  | _, _, .fixed _ hts => by rw [forall₂_corresponds_eq hts]

theorem forall₂_corresponds_eq : ∀ {ts us : List Tree},
    List.Forall₂ (Tree.Corresponds Eq) ts us → us = ts
  | _, _, .nil => rfl
  | _, _, .cons h hts => by rw [h.eq, forall₂_corresponds_eq hts]

end

theorem errors_eq_of_corresponds {es es' : List SyntaxError}
    (h : List.Forall₂ (SyntaxError.Corresponds Eq W) es es') :
    es'.map (fun e => (e.index, e.message)) = es.map fun e => (e.index, e.message) := by
  induction h with
  | nil => rfl
  | cons he h ih =>
    rw [List.map_cons, List.map_cons, ih, he.index, SyntaxError.message, SyntaxError.message,
      he.mismatch.message]

end Same

/-! ### Lines that correspond -/

section Lines
variable {line : Nat} {texts texts' : List (List Char)} {lines lines' : List TokenLine}

theorem flatten_filled (lines : List TokenLine) :
    TokenLine.flatten (TokenLine.filled lines) = TokenLine.flatten lines := by
  induction lines with
  | nil => rfl
  | cons l lines ih =>
    rw [TokenLine.filled, List.filter_cons]
    split
    · exact congrArg (l.tokens ++ ·) ih
    · rename_i hempty
      have hnil : l.tokens = [] := by simpa using hempty
      rw [TokenLine.flatten, TokenLine.flatten, List.flatMap_cons, hnil]
      exact ih

/-- Lines are numbered one after the other. -/
theorem LaidLines.numbered (h : LaidLines line texts lines) :
    lines.map (·.line) = List.range' line lines.length := by
  induction h with
  | nil => rfl
  | cons h hs ih => rw [List.map_cons, ih, List.length_cons, List.range'_succ]

theorem LaidLines.nodup_filled (h : LaidLines line texts lines) :
    ((TokenLine.filled lines).map (·.line)).Nodup := by
  have hnodup : (lines.map (·.line)).Nodup := by
    rw [h.numbered]
    exact List.nodup_range'
  exact hnodup.sublist (List.filter_sublist.map _)

/-- Tokens stand on the line that they belong to. -/
theorem LaidLines.line_eq (h : LaidLines line texts lines) :
    ∀ l ∈ lines, ∀ t ∈ l.tokens, t.span.line = l.line := by
  induction h with
  | nil => nofun
  | cons h hs ih => exact List.forall_mem_cons.mpr ⟨h.positioned.line_eq, ih⟩

/-- Places on lines that come at the same turn among those that have tokens. -/
def AtSameTurn (lines lines' : List TokenLine) (s s' : Span) : Prop :=
  ∃ p ∈ (TokenLine.filled lines).zip (TokenLine.filled lines'), s.line = p.1.line ∧ s'.line = p.2.line

theorem keepsLines_atSameTurn (h : LaidLines line texts lines) (h' : LaidLines line texts' lines')
    (hlength : (TokenLine.filled lines).length = (TokenLine.filled lines').length) :
    KeepsLines (AtSameTurn lines lines') := by
  have hfst : (((TokenLine.filled lines).zip (TokenLine.filled lines')).map (·.1.line)).Nodup := by
    have hzip := List.map_fst_zip (Nat.le_of_eq hlength)
    have hnodup := h.nodup_filled
    rw [← hzip, List.map_map] at hnodup
    exact hnodup
  have hsnd : (((TokenLine.filled lines).zip (TokenLine.filled lines')).map (·.2.line)).Nodup := by
    have hzip := List.map_snd_zip (Nat.le_of_eq hlength.symm)
    have hnodup := h'.nodup_filled
    rw [← hzip, List.map_map] at hnodup
    exact hnodup
  rintro s s' r r' ⟨p, hp, hs, hs'⟩ ⟨q, hq, hr, hr'⟩
  rw [hs, hs', hr, hr']
  constructor
  · intro hline
    rw [List.inj_on_of_nodup_map hsnd hq hp hline]
  · intro hline
    rw [List.inj_on_of_nodup_map hfst hq hp hline]

theorem counterparts_of_pieces {W : Span → Span → Prop} {ts us : List Token}
    (h : us.map Token.piece = ts.map Token.piece) (hW : ∀ t ∈ ts, ∀ u ∈ us, W t.span u.span) :
    Counterparts Eq W ts us := by
  induction ts generalizing us with
  | nil =>
    rw [List.map_nil, List.map_eq_nil_iff] at h
    rw [h]
    exact .nil
  | cons t ts ih =>
    obtain ⟨u, us, rfl, hpiece, h⟩ := List.map_eq_cons_iff.mp h
    obtain ⟨hkind, hlexeme⟩ := Prod.mk.inj hpiece
    refine .cons ?_ (ih h fun t ht u hu => hW t (.tail _ ht) u (.tail _ hu))
    exact {
      kind := hkind
      place := hW t (.head _) u (.head _)
      isLine := by rw [Token.isLine, Token.isLine, hkind, hlexeme]
      free := fun _ => hlexeme.symm
      fixed := fun _ => hlexeme }

/-- Texts with the same lexemes line by line have tokens that correspond. -/
theorem counterparts_of_lines (h : LaidLines line texts lines) (h' : LaidLines line texts' lines')
    (hpieces : TokenLine.pieces lines' = TokenLine.pieces lines) :
    Counterparts Eq (AtSameTurn lines lines') (TokenLine.flatten lines) (TokenLine.flatten lines') := by
  have hsame : List.Forall₂ (fun l l' => l'.tokens.map Token.piece = l.tokens.map Token.piece)
      (TokenLine.filled lines) (TokenLine.filled lines') := by
    rw [TokenLine.pieces, TokenLine.pieces, ← List.forall₂_eq_eq_eq, List.forall₂_map_left_iff,
      List.forall₂_map_right_iff] at hpieces
    exact hpieces.flip
  have hlines : List.Forall₂
      (fun l l' => Counterparts Eq (AtSameTurn lines lines') l.tokens l'.tokens)
      (TokenLine.filled lines) (TokenLine.filled lines') := by
    rw [List.forall₂_iff_zip] at hsame ⊢
    refine ⟨hsame.1, fun {l l'} hp => counterparts_of_pieces (hsame.2 hp) ?_⟩
    obtain ⟨hl, hl'⟩ := List.of_mem_zip hp
    intro t ht u hu
    exact ⟨(l, l'), hp, h.line_eq l (List.mem_of_mem_filter hl) t ht,
      h'.line_eq l' (List.mem_of_mem_filter hl') u hu⟩
  rw [← flatten_filled lines, ← flatten_filled lines']
  exact List.rel_flatMap hlines fun _ _ htokens => htokens

end Lines

/-- The analysis of a text goes on from its tokens. -/
theorem analyze_of_tokenize {source : String} {lines : List TokenLine}
    (h : tokenize source = .ok lines) : analyze source =
      match checkTokens lines.length none (TokenLine.flatten lines) with
      | .ok () => analyzeLines lines
      | .error e => .error (.lexical e) := by
  have hlex : lex source = validate lines := by rw [lex, h]; rfl
  rw [analyze, hlex, validate]
  cases checkTokens lines.length none (TokenLine.flatten lines) <;> rfl

/-- What is said of token lines depends on what the parser makes of them. -/
theorem analyzeLines_corresponds {W : Span → Span → Prop} {lines lines' : List TokenLine}
    (h : (parse (TokenLine.flatten lines)).Corresponds Eq W (parse (TokenLine.flatten lines'))) :
    ((analyzeLines lines').map Analysis.tree).mapError AnalysisError.complaint =
      ((analyzeLines lines).map Analysis.tree).mapError AnalysisError.complaint := by
  have herrors := errors_eq_of_corresponds h.errors
  have hsuccess : (parse (TokenLine.flatten lines')).isSuccess =
      (parse (TokenLine.flatten lines)).isSuccess := by
    rw [ParseOutcome.isSuccess, ParseOutcome.isSuccess, ParseOutcome.errorCount,
      ParseOutcome.errorCount, h.errors.length_eq]
  rw [analyzeLines, analyzeLines, hsuccess, h.tree.eq]
  split
  · rfl
  · exact congrArg (fun es => Except.error (Sum.inr es)) herrors

/-- The layout of a text matters in two respects: which lexemes stand on a line together, and how many
lines there are. With no fewer lines a text is accepted as the other one is, and has the same tree; with
as many lines it is rejected as the other one is, too. -/
theorem analyze_layout {a b : String} {lines lines' : List TokenLine}
    (ha : tokenize a = .ok lines) (hb : tokenize b = .ok lines')
    (hpieces : TokenLine.pieces lines' = TokenLine.pieces lines) :
    (lines.length ≤ lines'.length → ∀ x, analyze a = .ok x →
      ∃ y, analyze b = .ok y ∧ y.tree = x.tree) ∧
    (lines.length = lines'.length → verdict b = verdict a) := by
  have hlaid := (tokenize_eq_ok_iff.mp ha).2
  have hlaid' := (tokenize_eq_ok_iff.mp hb).2
  have hfilled : (TokenLine.filled lines).length = (TokenLine.filled lines').length := by
    simpa [TokenLine.pieces] using (congrArg List.length hpieces).symm
  have hkeeps := keepsLines_atSameTurn hlaid hlaid' hfilled
  have hts := counterparts_of_lines hlaid hlaid' hpieces
  have hparse := parseWithin_corresponds maxNesting hts
  constructor
  · intro hlength x hx
    obtain ⟨hlex, herrors, htree⟩ := analyze_eq_ok_iff.mp hx
    obtain ⟨htokens, hchecks⟩ := lex_eq_ok_iff.mp hlex
    obtain rfl : x.lines = lines := Except.ok.inj (htokens.symm.trans ha)
    -- the other text may have more lines, which its own number admits
    have hverdict := checkTokens_corresponds hkeeps lines'.length .none hts
    rw [checkTokens_mono hchecks hlength] at hverdict
    obtain ⟨_, hchecks', -⟩ := hverdict.of_ok
    refine ⟨⟨lines', (parse (TokenLine.flatten lines')).tree⟩, analyze_eq_ok_iff.mpr
      ⟨lex_eq_ok_iff.mpr ⟨hb, hchecks'⟩, ?_, rfl⟩, ?_⟩
    · have hempty := hparse.errors
      rw [← parse, herrors] at hempty
      exact List.forall₂_nil_left_iff.mp hempty
    · rw [htree]
      exact hparse.tree.eq
  · intro hlength
    rw [verdict, verdict, analyze_of_tokenize ha, analyze_of_tokenize hb, ← hlength]
    have hverdict := checkTokens_corresponds hkeeps lines.length .none hts
    generalize checkTokens _ none (TokenLine.flatten lines) = found at hverdict ⊢
    generalize checkTokens _ none (TokenLine.flatten lines') = found' at hverdict ⊢
    cases hverdict with
    | ok => exact analyzeLines_corresponds hparse
    | error he => exact congrArg (fun kind => Except.error (Sum.inl kind)) he.kind.eq

/-- A name and, two lines below it, a line list. -/
def spreadList : List TokenLine :=
  [⟨1, [⟨.identifier, "x", ⟨1, 1, 1⟩⟩]⟩, ⟨2, []⟩,
    ⟨3, [⟨.identifier, "line", ⟨3, 1, 4⟩⟩, ⟨.operator .assign, "=", ⟨3, 6, 1⟩⟩,
      ⟨.bracket .openBracket, "[", ⟨3, 8, 1⟩⟩, ⟨.integer, "3", ⟨3, 9, 1⟩⟩,
      ⟨.bracket .closeBracket, "]", ⟨3, 10, 1⟩⟩]⟩]

/-- The same with the empty line first, and other white space. -/
def raggedList : List TokenLine :=
  [⟨1, []⟩, ⟨2, [⟨.identifier, "x", ⟨2, 2, 1⟩⟩]⟩,
    ⟨3, [⟨.identifier, "line", ⟨3, 1, 4⟩⟩, ⟨.operator .assign, "=", ⟨3, 5, 1⟩⟩,
      ⟨.bracket .openBracket, "[", ⟨3, 6, 1⟩⟩, ⟨.integer, "3", ⟨3, 8, 1⟩⟩,
      ⟨.bracket .closeBracket, "]", ⟨3, 9, 1⟩⟩]⟩]

theorem spreadList_ragged : tokenize "x\n\nline = [3]" = .ok spreadList ∧
    tokenize "\n x \nline=[ 3]" = .ok raggedList ∧
    TokenLine.pieces raggedList = TokenLine.pieces spreadList ∧
    (∃ x y, analyze "x\n\nline = [3]" = .ok x ∧ analyze "\n x \nline=[ 3]" = .ok y ∧
      y.tree = x.tree) ∧
    verdict "\n x \nline=[ 3]" = verdict "x\n\nline = [3]" := by
  have hscan : scan "x\n\nline = [3]" = ⟨spreadList, none⟩ := by decide +kernel
  have hscan' : scan "\n x \nline=[ 3]" = ⟨raggedList, none⟩ := by decide +kernel
  have h : tokenize "x\n\nline = [3]" = .ok spreadList := by rw [tokenize, hscan]
  have h' : tokenize "\n x \nline=[ 3]" = .ok raggedList := by rw [tokenize, hscan']
  have hpieces : TokenLine.pieces raggedList = TokenLine.pieces spreadList := by decide +kernel
  have haccepted : (analyze "x\n\nline = [3]").toOption.any (fun _ => true) = true := by
    decide +kernel
  obtain ⟨x, hx, -⟩ := exists_ok_of_any haccepted
  obtain ⟨hsame, hverdict⟩ := analyze_layout h h' hpieces
  obtain ⟨y, hy, htree⟩ := hsame (by decide) x hx
  exact ⟨h, h', hpieces, ⟨x, y, hx, hy, htree⟩, hverdict rfl⟩

end SlangScript
