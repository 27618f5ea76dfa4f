import SlangScript.Proofs.EarliestError
import SlangScript.Proofs.LineBreaks
import SlangScript.Proofs.Respelling
import SlangScript.Proofs.Tables

/-! Texts one behind the other. Neither lexemes nor checks nor statements reach from one accepted text
into the next, so that both together are accepted as well. -/
namespace SlangScript

namespace Token

variable (k : Nat) (t : Token)

@[simp] theorem kind_lower : (t.lower k).kind = t.kind := rfl

@[simp] theorem lexeme_lower : (t.lower k).lexeme = t.lexeme := rfl

@[simp] theorem line_lower : (t.lower k).span.line = t.span.line + k := rfl

@[simp] theorem isWord_lower (word : String) : (t.lower k).isWord word = t.isWord word := rfl

@[simp] theorem operator?_lower : (t.lower k).operator? = t.operator? := rfl

@[simp] theorem binaryOperator?_lower : (t.lower k).binaryOperator? = t.binaryOperator? := rfl

@[simp] theorem incDecOperator?_lower : (t.lower k).incDecOperator? = t.incDecOperator? := rfl

@[simp] theorem isLine_lower : (t.lower k).isLine ↔ t.isLine := Iff.rfl

@[simp] theorem declares_lower : (t.lower k).declares ↔ t.declares := Iff.rfl

end Token

/-! ### Lines -/

section Lines
variable {k : Nat} {lines others : List TokenLine}

theorem flatten_append : TokenLine.flatten (lines ++ others) =
    TokenLine.flatten lines ++ TokenLine.flatten others := List.flatMap_append

theorem flatten_lower : TokenLine.flatten (lines.map (.lower k)) =
    (TokenLine.flatten lines).map (.lower k) := by
  simp [TokenLine.flatten, TokenLine.lower, List.map_flatMap, List.flatMap_map]

/-- The tokens of two texts, one behind the other, are those of the first and, further down, those of
the second. -/
theorem tokenize_append {a b : String} (ha : tokenize a = .ok lines) (hb : tokenize b = .ok others) :
    tokenize (a ++ "\n" ++ b) = .ok (lines ++ others.map (.lower lines.length)) := by
  have hcount : lines.length = countLines a := (tokenize_positions ha).1
  obtain ⟨⟨c, hc, hblank⟩, -⟩ := tokenize_eq_ok_iff.mp ha
  rw [tokenize_eq_outcome ⟨c, by simp [hc], hblank⟩, scanLines_below, scanLines_of_tokenize ha,
    scanLines_of_tokenize hb, hcount]
  rfl

end Lines

/-! ### Checks -/

section Checks
variable {k n m : Nat} {before before' : Option Token} {t : Token} {rest us ts : List Token}

theorem Enclosed.append {left right : Bracket} {line : Nat} {inside behind : List Token}
    (h : Enclosed left right line ts inside behind) (us : List Token) :
    Enclosed left right line (ts ++ us) inside (behind ++ us) := by
  obtain ⟨o, c, rfl, h⟩ := h
  exact ⟨o, c, by simp, h⟩

theorem HasBlock.append (h : HasBlock ts) (us : List Token) : HasBlock (ts ++ us) := by
  obtain ⟨o, e, hhead, ho, hends, hsome⟩ := h
  refine ⟨o, e, ?_, ho, hends.append us, ?_⟩
  · rw [List.head?_append, hhead]
    rfl
  · rwa [List.take_append_of_le_length (Nat.le_of_lt hends.lt_length)]

/-- A token meets its rule with more lines and more tokens behind it, as long as these do not turn a
name into the head of a line list. -/
theorem MeetsRule.append (h : MeetsRule n before t rest) (hn : n ≤ m)
    (hus : NoAssign us) : MeetsRule m before t (rest ++ us) where
  shaped c slots ht hword hc := by
    obtain ⟨inside, behind, henclosed, hfits, hblock⟩ := h.shaped c slots ht hword hc
    exact ⟨inside, _, henclosed.append us, hfits, hblock.append us⟩
  shapeless c ht hword hc := by
    obtain ⟨inside, behind, henclosed⟩ := h.shapeless c ht hword hc
    exact ⟨inside, _, henclosed.append us⟩
  otherwise ht hword := by
    rcases h.otherwise ht hword with ⟨s, hs, hsus⟩ | hblock
    · exact .inl ⟨s, by rw [List.head?_append, hs]; rfl, hsus⟩
    · exact .inr (hblock.append us)
  definition ht hword := by
    obtain ⟨f, hf, hfun⟩ := h.definition ht hword
    exact ⟨f, by rw [List.head?_append, hf]; rfl, hfun⟩
  function ht := by
    obtain ⟨inside, behind, henclosed, harguments, hblock⟩ := h.function ht
    exact ⟨inside, _, henclosed.append us, harguments, fun hb => (hblock hb).append us⟩
  lineList ht s hs hassign := by
    cases rest with
    | nil => exact absurd hassign (hus s hs)
    | cons s' list =>
      obtain ⟨inside, behind, henclosed, hentries⟩ := h.lineList ht s hs hassign
      exact ⟨inside, _, henclosed.append us, fun p hp => (hentries p hp).mono hn⟩

theorem checkTokens_append (h : checkTokens n before ts = .ok ()) (hn : n ≤ m)
    (hus : NoAssign us)
    (h' : checkTokens m (ts.getLast?.or before) us = .ok ()) :
    checkTokens m before (ts ++ us) = .ok () := by
  induction ts generalizing before with
  | nil => exact h'
  | cons t ts ih =>
    rw [checkTokens_cons, checkToken_eq_ok_iff] at h
    rw [List.cons_append, checkTokens_cons, checkToken_eq_ok_iff]
    refine ⟨h.1.append hn hus, ih h.2 ?_⟩
    cases hlast : ts.getLast? <;> simpa [List.getLast?_cons, hlast] using h'

theorem respelled_lower (k : Nat) (ts : List Token) : Respelled k ts (ts.map (.lower k)) := by
  induction ts with
  | nil => exact .nil
  | cons t ts ih =>
    refine .cons ⟨rfl, rfl, fun _ => rfl⟩ ?_ ih
    simp [OpensLineList, List.head?_map]

end Checks

/-! ### Statements -/

/-- What tokens are derived as does not depend on where they stand. -/
theorem Derives.lower {part : Part} {n : Nat} {w : List Token} {ts : List Tree}
    (h : Derives part n w ts) (k : Nat) : Derives part n (w.map (.lower k)) ts := by
  induction h with
  | assignedExpression he hw ih => exact .assignedExpression ih (by simpa using hw)
  | _ =>
    grind [Derives, Token.kind_lower, Token.lexeme_lower, Token.isWord_lower, Token.operator?_lower,
      Token.binaryOperator?_lower, Token.incDecOperator?_lower, Token.isLine_lower,
      Token.declares_lower]

/-- The last token of a text that passes its checks announces no definition. -/
theorem not_trend_of_getLast? {lineCount : Nat} {ts : List Token} {t : Token}
    (h : checkTokens lineCount none ts = .ok ()) (hspelled : ∀ t ∈ ts, t.WellSpelled)
    (ht : ts.getLast? = some t) : t.isWord "trend" = false := by
  obtain ⟨us, rfl⟩ := List.getLast?_eq_some_iff.mp ht
  have hrule := heedsAt_length.mp (checkTokens_none_eq_ok_iff.mp h us.length)
  refine Bool.eq_false_iff.mpr fun htrend => ?_
  obtain ⟨hword, hlexeme⟩ : t.kind.isWord = true ∧ t.lexeme = "trend" := by
    simpa [Token.isWord] using htrend
  cases hk : t.kind with
  | keyword =>
    have hkeyword := (hspelled t (by simp)).1 hk
    rw [hlexeme] at hkeyword
    exact absurd hkeyword (by decide)
  | reservedWord =>
    obtain ⟨f, hf, -⟩ := hrule.definition hk hlexeme
    cases hf
  | _ => simp [hk, TokenKind.isWord] at hword

/-- Two accepted texts, one behind the other on a line of its own, are an accepted text, whose
statements are those of the first and then those of the second. -/
theorem analyze_append {a b : String} {x y : Analysis} (ha : analyze a = .ok x)
    (hb : analyze b = .ok y) : ∃ z, analyze (a ++ "\n" ++ b) = .ok z ∧
      z.lines.length = x.lines.length + y.lines.length ∧
      z.tree.statements = x.tree.statements ++ y.tree.statements := by
  obtain ⟨hlexa, herrorsa, htreea⟩ := analyze_eq_ok_iff.mp ha
  obtain ⟨hlexb, herrorsb, htreeb⟩ := analyze_eq_ok_iff.mp hb
  obtain ⟨htokensa, hchecksa⟩ := lex_eq_ok_iff.mp hlexa
  obtain ⟨htokensb, hchecksb⟩ := lex_eq_ok_iff.mp hlexb
  obtain ⟨ss, hss, hda, hprograma⟩ := derives_of_parse herrorsa
  obtain ⟨rs, -, hdb, hprogramb⟩ := derives_of_parse herrorsb
  have hdb := hdb.lower x.lines.length
  have htokens := tokenize_append htokensa htokensb
  have hchecks : checkTokens (x.lines.length + y.lines.length) none (TokenLine.flatten x.lines ++
      (TokenLine.flatten y.lines).map (.lower x.lines.length)) = .ok () := by
    refine checkTokens_append hchecksa (Nat.le_add_right _ _) hdb.statements_noAssign
      (checkTokens_respelled hchecksb (Nat.le_add_left _ _) (fun t ht htrend => ?_)
        (respelled_lower _ _))
    rw [Option.or_none] at ht
    rw [not_trend_of_getLast? hchecksa (tokenize_spelled htokensa) ht] at htrend
    cases htrend
  have hparse := parse_of_derives (hda.statements_append hdb)
    (fun h => hss (List.append_eq_nil_iff.mp h).1)
  refine ⟨⟨x.lines ++ y.lines.map (.lower x.lines.length), Tree.program (ss ++ rs)⟩,
    analyze_eq_ok_iff.mpr ⟨lex_eq_ok_iff.mpr ⟨htokens, ?_⟩, ?_⟩, by simp, ?_⟩
  · simpa [flatten_append, flatten_lower] using hchecks
  · simp [flatten_append, flatten_lower, hparse]
  · rw [htreea, htreeb, hprograma, hprogramb]
    rfl

/-- A conditional, and behind it a line list with a name. -/
theorem analyze_append_conditional : ∃ x y z, analyze "sus (a < 1) \x7b x \x7d" = .ok x ∧
    analyze "line = [2];\ny" = .ok y ∧
    analyze ("sus (a < 1) \x7b x \x7d" ++ "\n" ++ "line = [2];\ny") = .ok z ∧
    z.lines.length = x.lines.length + y.lines.length ∧
    z.tree.statements = x.tree.statements ++ y.tree.statements := by
  have hx : (analyze "sus (a < 1) \x7b x \x7d").toOption.any (fun _ => true) = true := by
    decide +kernel
  have hy : (analyze "line = [2];\ny").toOption.any (fun _ => true) = true := by decide +kernel
  obtain ⟨x, hx, -⟩ := exists_ok_of_any hx
  obtain ⟨y, hy, -⟩ := exists_ok_of_any hy
  obtain ⟨z, hz⟩ := analyze_append hx hy
  exact ⟨x, y, z, hx, hy, hz⟩

end SlangScript
