import SlangScript.Proofs.Acceptance
import SlangScript.Proofs.Unparse

/-! What the canonical tokens of a tree are derived as. They lose the parentheses around the value of an
assignment, which are needed where the value begins with an array literal and goes on behind it. -/
namespace SlangScript

namespace Tree

/-- The operand that stands first in a chain of operators. -/
def leftmost : Tree → Tree
  | node .binaryOp _ (left :: _) => leftmost left
  | t => t

/-- A chain of operators whose first operand is an array literal. -/
def isArrayChain (t : Tree) : Bool := t.tag = .binaryOp && t.leftmost.tag = .arrayLiteral

/-- An assignment of such a chain. -/
def assignsArrayChain : Tree → Bool
  | node .assignmentOp _ [_, value] => value.isArrayChain
  | _ => false

/-- The number of such assignments in a tree. -/
def arrayChains (t : Tree) : Nat := t.subtrees.countP assignsArrayChain

def arrayChainsOfAll (ts : List Tree) : Nat := (subtreesOfAll ts).countP assignsArrayChain

@[simp] theorem arrayChainsOfAll_nil : arrayChainsOfAll [] = 0 := rfl

@[simp] theorem arrayChainsOfAll_cons (t : Tree) (ts : List Tree) :
    arrayChainsOfAll (t :: ts) = t.arrayChains + arrayChainsOfAll ts := List.countP_append

private theorem arrayChains_node (tag : Tag) (value : Option String) (children : List Tree) :
    (node tag value children).arrayChains = arrayChainsOfAll children +
      if assignsArrayChain (node tag value children) = true then 1 else 0 := List.countP_cons

@[simp] theorem arrayChains_of_ne {tag : Tag} (h : tag ≠ .assignmentOp) (value : Option String)
    (children : List Tree) : (node tag value children).arrayChains = arrayChainsOfAll children := by
  rw [arrayChains_node]
  cases tag <;> first | rfl | exact absurd rfl h

@[simp] theorem arrayChains_assignment (value : Option String) (target e : Tree) :
    (node .assignmentOp value [target, e]).arrayChains =
      target.arrayChains + e.arrayChains + if e.isArrayChain = true then 1 else 0 := by
  simp only [arrayChains_node, arrayChainsOfAll_cons, arrayChainsOfAll_nil, Nat.add_zero]
  rfl

@[simp] theorem arrayChains_leaf (tag : Tag) (value : String) : (leaf tag value).arrayChains = 0 := by
  cases tag <;> rfl

@[simp] theorem arrayChains_binary (op : Operator) (left right : Tree) :
    (binary op left right).arrayChains = left.arrayChains + right.arrayChains := by
  simp [binary]

@[simp] theorem arrayChains_guarded (tag : Tag) (value : Option String) (header list : Tree) :
    (node tag value [header, node .block none [list]]).arrayChains =
      header.arrayChains + list.arrayChains := by
  rw [arrayChains_node]
  cases tag <;> simp [assignsArrayChain, isArrayChain, Tree.tag]

end Tree

open SlangScript.Token SlangScript.Tree

namespace Token

@[simp] theorem ofWord_isWord (word word' : String) :
    (ofWord word).isWord word' = decide (word = word') := by
  rw [isWord, ofWord]
  split <;> simp [TokenKind.isWord]

@[simp] theorem ofWord_kind (word : String) : (ofWord word).kind.isWord = true := by
  rw [ofWord]
  split <;> rfl

@[simp] theorem ofWord_lexeme (word : String) : (ofWord word).lexeme = word := rfl

@[simp] theorem ofName_lexeme (name : String) : (ofName name).lexeme = name := rfl

@[simp] theorem ofSymbol_symbol (op : Operator) : ofSymbol op.symbol = [ofOperator op] := by
  cases op <;> rfl

theorem ofOperator_operator? (op : Operator) : (ofOperator op).operator? = some op := rfl

theorem ofOperator_binaryOperator? {op : Operator} {t : Token} (h : t.binaryOperator? = some op) :
    (ofOperator op).binaryOperator? = some op :=
  Option.filter_eq_some_iff.mpr ⟨rfl, (Option.filter_eq_some_iff.mp h).2⟩

theorem ofOperator_incDecOperator? {op : Operator} {t : Token} (h : t.incDecOperator? = some op) :
    (ofOperator op).incDecOperator? = some op :=
  Option.filter_eq_some_iff.mpr ⟨rfl, (Option.filter_eq_some_iff.mp h).2⟩

end Token

/-- The parts of which lists are made. -/
def Part.isItem : Part → Bool
  | .expression | .element | .number | .parameter => true
  | _ => false

/-- The parts that occur in programs: lists are made of items only. -/
def Part.occurs : Part → Bool
  | .separated item | .listed item => item.isItem
  | _ => true

/-- The canonical tokens of a part that stands for these trees. -/
def Part.print : Part → List Tree → List Token
  | .operand, ts => ts.flatMap fun t => t.asOperand t.unparse
  | .separated _, ts | .listed _, ts | .parameters, ts => withCommas (unparseEach ts)
  | .braces, ts => inBraces (unparseEach ts).flatten
  | .guarded _, ts => ts.flatMap fun t => withHeader (unparseEach t.children)
  | _, ts => (unparseEach ts).flatten

/-- The assignments of array chains in a part, where a chain that is to be assigned counts as well. -/
def Part.chains (part : Part) (ts : List Tree) : Nat :=
  arrayChainsOfAll ts + if part = .assigned then ts.countP isArrayChain else 0

@[simp] theorem Part.chains_of_ne {part : Part} (h : part ≠ .assigned) (ts : List Tree) :
    part.chains ts = arrayChainsOfAll ts := by
  simp [chains, h]

theorem Part.chains_of_isItem {item : Part} (h : item.isItem = true) (ts : List Tree) :
    item.chains ts = arrayChainsOfAll ts := by
  cases item <;> first | simp | cases h

/-- An expression that no operator ends is an operand. -/
theorem Derives.operand_of_tag_ne {n : Nat} {w : List Token} {e : Tree}
    (h : Derives .expression n w [e]) (he : e.tag ≠ .binaryOp) : Derives .operand n w [e] := by
  cases h with
  | single h => exact h
  | binary => exact absurd rfl he

@[simp] theorem unparseEach_nil : unparseEach [] = [] := rfl

@[simp] theorem unparseEach_cons (t : Tree) (ts : List Tree) :
    unparseEach (t :: ts) = t.unparse :: unparseEach ts := rfl

/-- The parts that stand for one tree and print nothing around it. -/
def Part.isPlain : Part → Bool
  | .expression | .call | .element | .array | .number | .parameter | .assigned | .simple
  | .statement => true
  | _ => false

theorem Part.print_plain {part : Part} (h : part.isPlain = true) (e : Tree) :
    part.print [e] = e.unparse := by
  cases part <;> simp_all [Part.isPlain, Part.print]

theorem Part.isPlain_of_isItem {item : Part} (h : item.isItem = true) : item.isPlain = true := by
  cases item <;> first | rfl | cases h

theorem Part.occurs_of_isItem {item : Part} (h : item.isItem = true) : item.occurs = true := by
  cases item <;> first | rfl | cases h

theorem Derives.unparseEach_ne_nil {item : Part} {n : Nat} {w : List Token} {ts : List Tree}
    (h : Derives (.separated item) n w ts) : unparseEach ts ≠ [] := by
  cases h <;> simp

@[simp] theorem unparse_binary (op : Operator) (left right : Tree) :
    (binary op left right).unparse =
      left.unparse ++ ofOperator op :: right.asOperand right.unparse := by
  simp [binary, unparse, Tag.groupRight, Tag.arrange, withOperator]

theorem unparse_node {tag : Tag} (h : tag ≠ .binaryOp) (value : Option String)
    (children : List Tree) : (node tag value children).unparse =
      tag.arrange (value.getD "") (unparseEach children) := by
  rw [unparse]
  cases tag <;> first | rfl | exact absurd rfl h

theorem withCommas_cons (p : List Token) {ps : List (List Token)} (h : ps ≠ []) :
    withCommas (p :: ps) = p ++ ofDelimiter .comma :: withCommas ps := by
  cases ps with
  | nil => exact absurd rfl h
  | cons q ps => rfl

/-- What can only be an operand in parentheses is an expression without them. -/
private theorem Derives.expression_of_parens {n : Nat} {w : List Token} {e : Tree} (he : e.tag = .binaryOp)
    (h : Derives .operand n (inParens w) [e]) : Derives .expression n w [e] := by
  generalize hv : inParens w = v at h
  cases h with
  | literal ht =>
    rename_i t tag
    cases hk : t.kind <;> rw [hk] at ht <;> cases ht <;> cases he
  | stepped => cases he
  | grouped ho hd hc =>
    obtain ⟨-, hw⟩ := List.cons.inj hv
    obtain ⟨rfl, -⟩ := List.append_inj' hw rfl
    exact hd.mono (Nat.le_succ _)
  | arrayOperand ha => cases ha; cases he

@[simp] theorem Part.print_operand (e : Tree) :
    Part.operand.print [e] = e.asOperand e.unparse := by
  simp [Part.print]

@[simp] theorem Part.print_braces (list : Tree) : Part.braces.print [list] = inBraces list.unparse := by
  simp [Part.print]

@[simp] theorem Part.print_guarded (tag : Tag) (t : Tree) :
    (Part.guarded tag).print [t] = withHeader (unparseEach t.children) := by
  simp [Part.print]

theorem unparse_block (list : Tree) :
    (node .block none [list]).unparse = inBraces list.unparse := by
  simp [unparse_node, Tag.arrange]

theorem unparse_leaf {t : Token} {tag : Tag} (h : Tag.ofOperand? t.kind = some tag) :
    (leaf tag t.lexeme).unparse = [⟨t.kind, t.lexeme, .origin⟩] := by
  cases hk : t.kind <;> rw [hk] at h <;> cases h <;> rfl

theorem asOperand_leaf {t : Token} {tag : Tag} (h : Tag.ofOperand? t.kind = some tag)
    (ts : List Token) : (leaf tag t.lexeme).asOperand ts = ts := by
  cases hk : t.kind <;> rw [hk] at h <;> cases h <;> rfl

/-- Only an array literal puts a square bracket at the front of an operand. -/
theorem Derives.operand_bracket {n : Nat} {w : List Token} {e : Tree} (h : Derives .operand n w [e]) :
    Next (·.kind ≠ .bracket .openBracket) w ∨ Derives .array n w [e] := by
  cases h with
  | literal ht => exact .inl (by rw [next_cons]; intro hk; rw [hk] at ht; cases ht)
  | stepped ht ho => exact .inl (by rw [next_cons]; intro hk; rw [hk] at ht; cases ht)
  | grouped ho he hc => exact .inl (by rw [next_cons, ho]; simp)
  | arrayOperand ha => exact .inr ha

theorem Derives.expression_bracket {n : Nat} {w : List Token} {e : Tree}
    (h : Derives .expression n w [e]) :
    Next (·.kind ≠ .bracket .openBracket) w ∨ e.leftmost.tag = .arrayLiteral := by
  refine h.expression_induction (P := fun w e =>
    Next (·.kind ≠ .bracket .openBracket) w ∨ e.leftmost.tag = .arrayLiteral) ?_ ?_
  · intro w e he
    refine he.operand_bracket.imp_right fun ha => ?_
    cases ha
    rfl
  · intro w v o op l r hl ih ho hr
    exact ih.imp_left fun hw => hw.append (hl.ne_nil rfl)

/-- Only a chain that begins with an array literal is an expression and cannot be assigned. -/
theorem Derives.assigned_of_expression {n : Nat} {w : List Token} {e : Tree}
    (h : Derives .expression n w [e]) (he : e.isArrayChain = false) : Derives .assigned n w [e] := by
  rcases h.expression_bracket with hw | hleft
  · exact .assignedExpression h hw
  · have htag : e.tag ≠ .binaryOp := by rintro ht; simp [isArrayChain, ht, hleft] at he
    rcases (h.operand_of_tag_ne htag).operand_bracket with hw | ha
    · exact .assignedExpression h hw
    · exact .assignedArray ha

/-- The canonical tokens of what the grammar derives are derived as the same part again. -/
theorem Derives.reprint {part : Part} {n : Nat} {w : List Token} {ts : List Tree}
    (h : Derives part n w ts) (hpart : part.occurs = true) (hts : part.chains ts = 0) :
    Derives part n (part.print ts) ts := by
  induction h with
  | literal ht =>
    rw [Part.print_operand, asOperand_leaf ht, unparse_leaf ht]
    exact .literal ht
  | stepped ht ho =>
    simpa [asOperand, Tree.tag, unparse_node, Tag.arrange, unparse_leaf ht] using
      Derives.stepped (t := ⟨_, _, .origin⟩) ht (ofOperator_incDecOperator? ho)
  | grouped ho he hc ih =>
    have he := ih rfl (by simpa using hts)
    rw [Part.print_plain rfl] at he
    rw [Part.print_operand, asOperand]
    -- Without an operator inside, the parentheses are left out and one level of nesting is spared.
    split
    · exact .grouped rfl he rfl
    · exact (he.operand_of_tag_ne ‹_›).mono (Nat.le_succ _)
  | arrayOperand ha ih =>
    have ha' := ih rfl (by simpa using hts)
    cases ha
    rw [Part.print_plain rfl] at ha'
    rw [Part.print_operand]
    exact .arrayOperand ha'
  | single he ih =>
    have he := ih rfl (by simpa using hts)
    rw [Part.print_operand, asOperand] at he
    rw [Part.print_plain rfl]
    -- The same tree prints its parentheses as an operand, and none where it is all of an expression.
    split at he
    · exact he.expression_of_parens ‹_›
    · exact .single he
  | binary hl ho hr ihl ihr =>
    simp at hts
    have hl := ihl rfl (by simp [hts])
    have hr := ihr rfl (by simp [hts])
    rw [Part.print_plain rfl] at hl
    rw [Part.print_operand] at hr
    rw [Part.print_plain rfl, unparse_binary]
    exact .binary hl (ofOperator_binaryOperator? ho) hr
  | call hf ho hs hc ih =>
    rw [Part.print_plain rfl]
    exact .call rfl rfl (ih rfl (by simpa using hts)) rfl
  | callElement he ih => exact .callElement (ih rfl (by simpa using hts))
  | expressionElement he ih => exact .expressionElement (ih rfl (by simpa using hts))
  | array ho hs hc ih =>
    rw [Part.print_plain rfl]
    exact .array rfl (ih rfl (by simpa using hts)) rfl
  | number ht =>
    rw [Part.print_plain rfl]
    exact .number rfl
  | parameter ht hx =>
    rw [Part.print_plain rfl]
    exact .parameter (ofWord_kind _) rfl
  | parameters hs ih => exact .parameters (ih rfl (by simpa using hts))
  | trailingComma hs hc ih => exact .parameters (.listed (ih rfl (by simpa using hts)))
  | one he ih =>
    have he := ih (Part.occurs_of_isItem hpart) (by simpa [Part.chains_of_isItem hpart] using hts)
    rw [Part.print_plain (Part.isPlain_of_isItem hpart)] at he
    exact .one he
  | more he hc hs ihe ihs =>
    simp at hts
    have he := ihe (Part.occurs_of_isItem hpart) (by simp [Part.chains_of_isItem hpart, hts])
    have hs' := ihs hpart (by simp [hts])
    rw [Part.print_plain (Part.isPlain_of_isItem hpart)] at he
    rw [Part.print, unparseEach_cons, withCommas_cons _ hs.unparseEach_ne_nil]
    exact .more he rfl hs'
  | unlisted => exact .unlisted
  | listed hs ih => exact .listed (ih hpart (by simpa using hts))
  | braces ho hs hc ih =>
    rw [Part.print_braces]
    exact .braces rfl (ih rfl (by simpa using hts)) rfl
  | guarded ho he hc hb ihe ihb =>
    simp at hts
    have he := ihe rfl (by simp [hts])
    have hb := ihb rfl (by simp [hts])
    rw [Part.print_plain rfl] at he
    rw [Part.print_braces] at hb
    rw [Part.print_guarded]
    simpa [Tree.children, withHeader, inParens, unparse_block] using Derives.guarded rfl he rfl hb
  | unbranched => exact .unbranched
  | elseIf he hs hb hbs ihb ihbs =>
    simp at hts
    have hb' := ihb rfl (by simp [hts])
    have hbs := ihbs rfl (by simp [hts])
    rw [Part.print_guarded] at hb'
    cases hb
    exact .elseIf (by simp) (by simp) hb' hbs
  | elseBlock he hb ih =>
    have hb := ih rfl (by simpa using hts)
    rw [Part.print_braces] at hb
    simpa [Part.print, unparse_node, Tag.arrange] using
      Derives.elseBlock (e := ofWord "else") (by simp) hb
  | assignedArray ha ih =>
    have ha' := ih rfl (by simp [Part.chains] at hts; simp [hts])
    exact .assignedArray ha'
  | assignedExpression he hw ih =>
    simp [Part.chains] at hts
    have he := ih rfl (by simp [hts])
    rw [Part.print_plain rfl] at he ⊢
    exact he.assigned_of_expression hts.2
  | declaration hk hx =>
    rw [Part.print_plain rfl]
    exact .declaration ⟨ofWord_kind _, hk.2⟩ rfl
  | initialised hk hx ho hop he ih =>
    rename_i n k x o op w e
    have he := ih rfl (by simpa using hts)
    rw [Part.print_plain rfl] at he ⊢
    simpa [unparse_node, Tag.arrange, withOperator, leaf] using
      Derives.initialised (k := ofWord k.lexeme) (x := ofName x.lexeme) ⟨ofWord_kind _, hk.2⟩ rfl
        (ofOperator_operator? _) hop he
  | print hk ho he hc ih =>
    have he := ih rfl (by simpa using hts)
    rw [Part.print_plain rfl] at he ⊢
    simpa [unparse_node, Tag.arrange, inParens] using
      Derives.print (k := ofWord "spill") (by simp) rfl he rfl
  | input hk ho hx hc =>
    rw [Part.print_plain rfl]
    exact .input (by simp) rfl rfl rfl
  | reply hk he ih =>
    have he := ih rfl (by simpa using hts)
    rw [Part.print_plain rfl] at he ⊢
    simpa [unparse_node, Tag.arrange] using
      Derives.reply (k := ofWord "reply") (by simp) he
  | called he ih => exact .called (ih rfl (by simpa using hts))
  | lineList hx hs ho hns hc ih =>
    rw [Part.print_plain rfl]
    exact .lineList ⟨rfl, rfl⟩ rfl rfl (ih rfl (by simpa using hts)) rfl
  | alone hx =>
    rw [Part.print_plain rfl]
    exact .alone rfl
  | counted hx ho hop =>
    rw [Part.print_plain rfl]
    simpa [unparse_node, Tag.arrange, leaf] using
      Derives.counted (x := ofName _) rfl (ofOperator_operator? _) hop
  | assignment hx ho hop hline he ih =>
    rename_i n x o op w e
    have he := ih rfl (by simpa [Part.chains] using hts)
    rw [Part.print_plain rfl] at he ⊢
    simpa [unparse_node, Tag.arrange, withOperator, leaf] using
      Derives.assignment (x := ofName x.lexeme) rfl (ofOperator_operator? _) hop
        (fun hl => hline ⟨hx, hl.2⟩) he
  | unterminated hs ih => exact .unterminated (ih rfl (by simpa using hts))
  | terminated hs ht ih => exact .unterminated (ih rfl (by simpa using hts))
  | ifChain hk hb hbs ihb ihbs =>
    simp at hts
    have hb' := ihb rfl (by simp [hts])
    have hbs := ihbs rfl (by simp [hts])
    rw [Part.print_guarded] at hb'
    cases hb
    rw [Part.print_plain rfl]
    exact .ifChain (by simp) hb' hbs
  | forLoop hk ho hu hs₁ hv hs₂ hw hc hb ihu ihv ihw ihb =>
    simp at hts
    have hu := ihu rfl (by simp [hts])
    have hv := ihv rfl (by simp [hts])
    have hw := ihw rfl (by simp [hts])
    have hb := ihb rfl (by simp [hts])
    rw [Part.print_plain rfl] at hu hv hw
    rw [Part.print_braces] at hb
    simpa [Part.print, unparse_node, Tag.arrange, withLoopHeader, inParens] using
      Derives.forLoop (k := ofWord "forreal") (by simp) rfl hu rfl hv rfl hw rfl hb
  | whileLoop hk hs ih =>
    have hs' := ih rfl (by simpa using hts)
    rw [Part.print_guarded] at hs'
    rw [Part.print_plain rfl]
    cases hs
    exact .whileLoop (by simp) hs'
  | switch hk hs ih =>
    have hs' := ih rfl (by simpa using hts)
    rw [Part.print_guarded] at hs'
    rw [Part.print_plain rfl]
    cases hs
    exact .switch (by simp) hs'
  | definition hk hf ho hps hc hb ihps ihb =>
    simp at hts
    have hps := ihps rfl (by simp [hts])
    have hb := ihb rfl (by simp [hts])
    rw [Part.print_braces] at hb
    simpa [Part.print, unparse_node, Tag.arrange, withHeader, inParens] using
      Derives.definition (k := ofWord "trend") (f := ⟨.function, _, .origin⟩) (by simp) rfl rfl
        hps rfl hb
  | block hb ih =>
    have hb := ih rfl (by simpa using hts)
    rw [Part.print_braces] at hb
    rw [Part.print_plain rfl, unparse_block]
    exact .block hb
  | done => exact .done
  | next hs hss ihs ihss =>
    simp at hts
    have hs := ihs rfl (by simp [hts])
    rw [Part.print_plain rfl] at hs
    exact .next hs (ihss rfl (by simp [hts]))

end SlangScript
