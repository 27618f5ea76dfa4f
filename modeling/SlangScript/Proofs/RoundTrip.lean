import SlangScript.Proofs.Reprint

/-! Which trees are found again in their canonical tokens: those in which no assignment has a value that
begins with an array literal and goes on behind it. -/
namespace SlangScript
open SlangScript.Token SlangScript.Tree

private theorem length_asOperand (e : Tree) (ts : List Token) :
    ts.length ≤ (e.asOperand ts).length ∧ (e.asOperand ts).length ≤ ts.length + 2 := by
  rw [asOperand]
  split
  · simp [inParens]
    omega
  · simp

/-- The canonical tokens are no more than those that were read, and fewer where array chains are
assigned. Such a chain can only have been read from parentheses, which are not printed. -/
structure Shrinks (part : Part) (w : List Token) (ts : List Tree) : Prop where
  le : (part.print ts).length + part.chains ts ≤ w.length
  lt : part = .operand ∨ part = .expression → ∀ e, ts = [e] → e.leftmost.tag = .arrayLiteral →
    Next (·.kind ≠ .bracket .openBracket) w → e.unparse.length + e.arrayChains < w.length

theorem Shrinks.of_le {part : Part} {w : List Token} {ts : List Tree}
    (h : part ≠ .operand ∧ part ≠ .expression)
    (hle : (part.print ts).length + part.chains ts ≤ w.length) : Shrinks part w ts :=
  ⟨hle, fun hp => by rcases hp with hp | hp <;> simp [hp] at h⟩

private theorem leftmost_leaf (tag : Tag) (value : String) :
    (leaf tag value).leftmost = leaf tag value := by
  cases tag <;> rfl

theorem Derives.shrinks {part : Part} {n : Nat} {w : List Token} {ts : List Tree}
    (h : Derives part n w ts) (hpart : part.occurs = true) : Shrinks part w ts := by
  induction h with
  | literal ht =>
    rename_i n t tag
    refine ⟨by simp [asOperand_leaf ht, unparse_leaf ht], ?_⟩
    rintro - _ ⟨⟩ hleft
    rw [leftmost_leaf] at hleft
    cases (show tag = .arrayLiteral from hleft)
    cases hk : t.kind <;> rw [hk] at ht <;> cases ht
  | stepped ht ho =>
    refine ⟨by simp [asOperand, Tree.tag, unparse_node, Tag.arrange, unparse_leaf ht], ?_⟩
    rintro - _ ⟨⟩ hleft
    cases hleft
  | grouped ho he hc ih =>
    -- The two parentheses pay for those that are printed, and here an operand has room to spare.
    rename_i n o c w e
    have hle := (ih rfl).le
    have hop := length_asOperand e e.unparse
    rw [Part.print_plain rfl] at hle
    simp at hle
    refine ⟨by simp; omega, ?_⟩
    rintro - _ ⟨⟩ - -
    simp
    omega
  | arrayOperand ha ih =>
    have hle := (ih rfl).le
    cases ha with
    | array ho hs hc =>
      rw [Part.print_plain rfl] at hle
      refine ⟨by simpa [asOperand, Tree.tag] using hle, ?_⟩
      rintro - _ ⟨⟩ - hw
      exact absurd ho ((next_cons _ _ _).mp hw)
  | single he ih =>
    rename_i n w e
    have hle := (ih rfl).le
    have hop := length_asOperand e e.unparse
    refine ⟨by rw [Part.print_plain rfl]; simp at hle ⊢; omega, fun _ => (ih rfl).lt (.inl rfl)⟩
  | binary hl ho hr ihl ihr =>
    rename_i n o w v l r op
    have hl' := (ihl rfl).le
    have hr' := (ihr rfl).le
    rw [Part.print_plain rfl] at hl'
    simp at hl' hr'
    refine ⟨by rw [Part.print_plain rfl]; simp; omega, ?_⟩
    rintro - _ ⟨⟩ hleft hw
    have hlt := (ihl rfl).lt (.inr rfl) l rfl hleft (hw.of_append (hl.ne_nil rfl))
    simp
    omega
  | call hf ho hs hc ih =>
    have hle := (ih rfl).le
    refine .of_le (by simp) ?_
    simp [Part.print, unparse_node, Tag.arrange, inParens] at hle ⊢
    omega
  | callElement he ih => exact .of_le (by simp) (by simpa [Part.print] using (ih rfl).le)
  | expressionElement he ih => exact .of_le (by simp) (by simpa [Part.print] using (ih rfl).le)
  | array ho hs hc ih =>
    have hle := (ih rfl).le
    refine .of_le (by simp) ?_
    simp [Part.print, unparse_node, Tag.arrange, inBrackets] at hle ⊢
    omega
  | number ht => exact .of_le (by simp) (by simp [Part.print, unparse_node, Tag.arrange, leaf])
  | parameter ht hx =>
    exact .of_le (by simp) (by simp [Part.print, unparse_node, Tag.arrange, leaf])
  | parameters hs ih => exact .of_le (by simp) (by simpa [Part.print] using (ih rfl).le)
  | trailingComma hs hc ih =>
    have hle := (ih rfl).le
    refine .of_le (by simp) ?_
    simp [Part.print] at hle ⊢
    omega
  | one he ih =>
    have hle := (ih (Part.occurs_of_isItem hpart)).le
    rw [Part.print_plain (Part.isPlain_of_isItem hpart), Part.chains_of_isItem hpart] at hle
    exact .of_le (by simp) (by simpa [Part.print, withCommas] using hle)
  | more he hc hs ihe ihs =>
    have hle := (ihe (Part.occurs_of_isItem hpart)).le
    have hle' := (ihs hpart).le
    rw [Part.print_plain (Part.isPlain_of_isItem hpart), Part.chains_of_isItem hpart] at hle
    refine .of_le (by simp) ?_
    simp [Part.print, withCommas_cons _ hs.unparseEach_ne_nil] at hle hle' ⊢
    omega
  | listed hs ih => exact .of_le (by simp) (by simpa [Part.print] using (ih hpart).le)
  | assignedArray ha ih =>
    have hle := (ih rfl).le
    cases ha
    exact .of_le (by simp) (by simpa [Part.print, Part.chains, isArrayChain, Tree.tag] using hle)
  | assignedExpression he hw ih =>
    rename_i n w e
    have hle := (ih rfl).le
    have hlt := (ih rfl).lt (.inr rfl) e rfl
    refine .of_le (by simp) ?_
    simp [Part.print, Part.chains, isArrayChain] at hle ⊢
    split
    · rename_i hc
      have := hlt hc.2 hw
      omega
    · omega
  | unlisted => exact .of_le (by simp) (by simp [Part.print, withCommas])
  | unbranched => exact .of_le (by simp) (by simp [Part.print])
  | done => exact .of_le (by simp) (by simp [Part.print])
  | alone hx => exact .of_le (by simp) (by simp [Part.print, unparse_node, Tag.arrange, leaf])
  | braces ho hs hc ih =>
    have hle := (ih rfl).le
    refine .of_le (by simp) ?_
    simp [Part.print, unparse_node, Tag.arrange, inBraces] at hle ⊢
    omega
  | guarded ho he hc hb ihe ihb =>
    have hle := (ihe rfl).le
    have hle' := (ihb rfl).le
    refine .of_le (by simp) ?_
    simp [Part.print, unparse_block, Tree.children, withHeader, inParens] at hle hle' ⊢
    omega
  | elseIf he hs hb hbs ihb ihbs =>
    have hle := (ihb rfl).le
    have hle' := (ihbs rfl).le
    refine .of_le (by simp) ?_
    cases hb
    simp [Part.print, unparse_node, Tag.arrange, Tree.children] at hle hle' ⊢
    omega
  | elseBlock he hb ih =>
    have hle := (ih rfl).le
    refine .of_le (by simp) ?_
    simp [Part.print, unparse_node, Tag.arrange] at hle ⊢
    omega
  | declaration hk hx =>
    exact .of_le (by simp) (by simp [Part.print, unparse_node, Tag.arrange, leaf])
  | initialised hk hx ho hop he ih =>
    have hle := (ih rfl).le
    refine .of_le (by simp) ?_
    simp [Part.print, unparse_node, Tag.arrange, leaf, withOperator] at hle ⊢
    omega
  | print hk ho he hc ih =>
    have hle := (ih rfl).le
    refine .of_le (by simp) ?_
    simp [Part.print, unparse_node, Tag.arrange, inParens] at hle ⊢
    omega
  | input hk ho hx hc =>
    exact .of_le (by simp) (by simp [Part.print, unparse_node, Tag.arrange, leaf, inParens])
  | reply hk he ih =>
    have hle := (ih rfl).le
    refine .of_le (by simp) ?_
    simp [Part.print, unparse_node, Tag.arrange] at hle ⊢
    omega
  | called he ih => exact .of_le (by simp) (by simpa [Part.print] using (ih rfl).le)
  | lineList hx hs ho hns hc ih =>
    have hle := (ih rfl).le
    refine .of_le (by simp) ?_
    simp [Part.print, unparse_node, Tag.arrange, inBrackets] at hle ⊢
    omega
  | counted hx ho hop =>
    exact .of_le (by simp) (by simp [Part.print, unparse_node, Tag.arrange, leaf])
  | assignment hx ho hop hline he ih =>
    have hle := (ih rfl).le
    refine .of_le (by simp) ?_
    simp [Part.print, Part.chains, unparse_node, Tag.arrange, leaf, withOperator] at hle ⊢
    omega
  | unterminated hs ih => exact .of_le (by simp) (by simpa [Part.print] using (ih rfl).le)
  | terminated hs ht ih =>
    have hle := (ih rfl).le
    refine .of_le (by simp) ?_
    simp [Part.print] at hle ⊢
    omega
  | ifChain hk hb hbs ihb ihbs =>
    have hle := (ihb rfl).le
    have hle' := (ihbs rfl).le
    refine .of_le (by simp) ?_
    cases hb
    simp [Part.print, unparse_node, Tag.arrange, Tree.children] at hle hle' ⊢
    omega
  | forLoop hk ho hu hs₁ hv hs₂ hw hc hb ihu ihv ihw ihb =>
    have hleu := (ihu rfl).le
    have hlev := (ihv rfl).le
    have hlew := (ihw rfl).le
    have hleb := (ihb rfl).le
    refine .of_le (by simp) ?_
    simp [Part.print, unparse_node, Tag.arrange, withLoopHeader, inParens]
      at hleu hlev hlew hleb ⊢
    omega
  | whileLoop hk hs ih =>
    have hle := (ih rfl).le
    refine .of_le (by simp) ?_
    cases hs
    simp [Part.print, unparse_node, Tag.arrange, Tree.children] at hle ⊢
    omega
  | switch hk hs ih =>
    have hle := (ih rfl).le
    refine .of_le (by simp) ?_
    cases hs
    simp [Part.print, unparse_node, Tag.arrange, Tree.children] at hle ⊢
    omega
  | definition hk hf ho hps hc hb ihps ihb =>
    have hle := (ihps rfl).le
    have hle' := (ihb rfl).le
    refine .of_le (by simp) ?_
    simp [Part.print, unparse_node, Tag.arrange, withHeader, inParens] at hle hle' ⊢
    omega
  | block hb ih =>
    exact .of_le (by simp) (by simpa [Part.print, unparse_block] using (ih rfl).le)
  | next hs hss ihs ihss =>
    have hle := (ihs rfl).le
    have hle' := (ihss rfl).le
    refine .of_le (by simp) ?_
    simp [Part.print] at hle hle' ⊢
    omega

theorem arrayChains_eq_zero_iff (t : Tree) :
    t.arrayChains = 0 ↔ ∀ s ∈ t.subtrees, s.assignsArrayChain = false := by
  simp [arrayChains, List.countP_eq_zero]

theorem unparse_program (ss : List Tree) :
    (Tree.program ss).unparse = Part.statements.print ss := by
  simp [Tree.program, unparse_node, Tag.arrange, Part.print]

@[simp] theorem arrayChains_program (ss : List Tree) :
    (Tree.program ss).arrayChains = arrayChainsOfAll ss := by
  simp [Tree.program]

private theorem program_inj {ss ss' : List Tree} (h : Tree.program ss = Tree.program ss') : ss = ss' := by
  simpa [Tree.program] using h

/-- The tree of an accepted program is found again in its canonical tokens exactly when no assignment
in it has a chain of operators as its value whose first operand is an array literal. -/
theorem parse_unparse_iff {ts : List Token} (h : (parse ts).errorCount = 0) :
    ((parse (parse ts).tree.unparse).errorCount = 0 ∧
      (parse (parse ts).tree.unparse).tree = (parse ts).tree) ↔
    ∀ s ∈ (parse ts).tree.subtrees, s.assignsArrayChain = false := by
  obtain ⟨ss, hss, hd, htree⟩ := derives_of_parse (List.length_eq_zero_iff.mp h)
  rw [htree, ← arrayChains_eq_zero_iff, arrayChains_program, unparse_program]
  constructor
  · rintro ⟨hacc, hsame⟩
    obtain ⟨ss', -, hd', htree'⟩ := derives_of_parse (List.length_eq_zero_iff.mp hacc)
    obtain rfl := program_inj (htree'.symm.trans hsame)
    have hle := (hd'.shrinks rfl).le
    simp at hle
    omega
  · intro hzero
    have hd' := hd.reprint rfl (by simpa using hzero)
    rw [parse_of_derives hd' hss]
    exact ⟨rfl, rfl⟩

/-- `x = 1 - (2 + 3);`. -/
def groupedRight : List Token :=
  [ofName "x", ofOperator .assign, ⟨.integer, "1", .origin⟩, ofOperator .sub, ofBracket .openParen,
    ⟨.integer, "2", .origin⟩, ofOperator .add, ⟨.integer, "3", .origin⟩, ofBracket .closeParen,
    ofDelimiter .semicolon]

theorem groupedRight_reparsed :
    (parse (parse groupedRight).tree.unparse).errorCount = 0 ∧
      (parse (parse groupedRight).tree.unparse).tree = (parse groupedRight).tree := by
  have hacc : (parse groupedRight).errorCount = 0 := by decide +kernel
  exact (parse_unparse_iff hacc).mpr (by decide +kernel)

/-- `x = ([1] + 2)`. -/
def groupedArrayChain : List Token :=
  [ofName "x", ofOperator .assign, ofBracket .openParen, ofBracket .openBracket,
    ⟨.integer, "1", .origin⟩, ofBracket .closeBracket, ofOperator .add, ⟨.integer, "2", .origin⟩,
    ofBracket .closeParen]

theorem groupedArrayChain_not_reparsed :
    (parse groupedArrayChain).errorCount = 0 ∧
      (parse (parse groupedArrayChain).tree.unparse).errorCount = 1 := by
  constructor <;> decide +kernel

end SlangScript
