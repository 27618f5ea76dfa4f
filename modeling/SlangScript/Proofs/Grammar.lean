import SlangScript.Program

/-! The grammar of the language: which sequences of tokens each part of a program may be, and which
trees they stand for. The rules name no order of reading and look nothing up ahead. -/
namespace SlangScript

/-- The parts of a program that the grammar tells apart. -/
inductive Part where
  | operand | expression | call | element | array
  | number | parameter | parameters
  /-- One or more of a part, with commas between them. -/
  | separated (item : Part)
  /-- Any number of a part, with commas between them. -/
  | listed (item : Part)
  /-- Statements in braces. -/
  | braces
  /-- A condition in parentheses and the block that it governs. -/
  | guarded (tag : Tag)
  /-- What may follow the first branch of a conditional. -/
  | branches
  /-- The right side of an assignment statement. -/
  | assigned
  /-- A statement that one semicolon may follow. -/
  | simple
  | statement | statements
  deriving DecidableEq

theorem Token.operator?_eq_some_iff {t : Token} {op : Operator} :
    t.operator? = some op ↔ t.kind = .operator op := by
  rw [Token.operator?]
  cases t.kind <;> simp

/-- No operand is a word. -/
theorem Tag.not_isWord_of_ofOperand? {kind : TokenKind} {tag : Tag} (h : ofOperand? kind = some tag) :
    kind.isWord = false := by
  cases kind with
  | keyword | reservedWord => cases h
  | _ => rfl

/-- A word that begins a declaration. -/
def Token.declares (t : Token) : Prop := t.kind.isWord = true ∧ isDeclarationWord t.lexeme = true

/-- The name `line`, after which `=` begins a line list and no assignment. -/
def Token.isLine (t : Token) : Prop := t.kind = .identifier ∧ t.lexeme = "line"

instance (t : Token) : Decidable t.isLine := inferInstanceAs (Decidable (_ ∧ _))

theorem ne_identifier_of_isWord {t : Token} (h : t.kind.isWord = true) : t.kind ≠ .identifier := by
  intro hname
  rw [hname] at h
  cases h

theorem Token.declares.ne_identifier {t : Token} (h : t.declares) : t.kind ≠ .identifier :=
  ne_identifier_of_isWord h.1

/-- `Derives part n tokens trees`: the tokens are such a part, stand for the trees, and open braced
lists, array literals and grouping parentheses at most `n` deep. -/
inductive Derives : Part → Nat → List Token → List Tree → Prop
  | literal {n : Nat} {t : Token} {tag : Tag} (ht : Tag.ofOperand? t.kind = some tag) :
    Derives .operand n [t] [.leaf tag t.lexeme]
  | stepped {n : Nat} {t o : Token} {tag : Tag} {op : Operator}
    (ht : Tag.ofOperand? t.kind = some tag) (ho : o.incDecOperator? = some op) :
    Derives .operand n [t, o] [.node .postfixOp (some op.symbol) [.leaf tag t.lexeme]]
  | grouped {n : Nat} {o c : Token} {w : List Token} {e : Tree}
    (ho : o.kind = .bracket .openParen) (he : Derives .expression n w [e])
    (hc : c.kind = .bracket .closeParen) :
    Derives .operand (n + 1) (o :: (w ++ [c])) [e]
  | arrayOperand {n : Nat} {w : List Token} {a : Tree} (ha : Derives .array n w [a]) :
    Derives .operand n w [a]
  | single {n : Nat} {w : List Token} {e : Tree} (he : Derives .operand n w [e]) :
    Derives .expression n w [e]
  | binary {n : Nat} {o : Token} {w v : List Token} {l r : Tree} {op : Operator}
    (hl : Derives .expression n w [l]) (ho : o.binaryOperator? = some op)
    (hr : Derives .operand n v [r]) :
    Derives .expression n (w ++ o :: v) [.binary op l r]
  | call {n : Nat} {f o c : Token} {w : List Token} {es : List Tree}
    (hf : f.kind = .function) (ho : o.kind = .bracket .openParen)
    (hs : Derives (.listed .expression) n w es) (hc : c.kind = .bracket .closeParen) :
    Derives .call n (f :: o :: (w ++ [c])) [.node .functionCall (some f.lexeme) es]
  | callElement {n : Nat} {w : List Token} {e : Tree} (he : Derives .call n w [e]) :
    Derives .element n w [e]
  | expressionElement {n : Nat} {w : List Token} {e : Tree} (he : Derives .expression n w [e]) :
    Derives .element n w [e]
  | array {n : Nat} {o c : Token} {w : List Token} {es : List Tree}
    (ho : o.kind = .bracket .openBracket) (hs : Derives (.listed .element) n w es)
    (hc : c.kind = .bracket .closeBracket) :
    Derives .array (n + 1) (o :: (w ++ [c])) [.node .arrayLiteral none es]
  | number {n : Nat} {t : Token} (ht : t.kind = .integer) :
    Derives .number n [t] [.leaf .integer t.lexeme]
  | parameter {n : Nat} {t x : Token} (ht : t.kind.isWord = true) (hx : x.kind = .identifier) :
    Derives .parameter n [t, x]
      [.node .param none [.leaf .type t.lexeme, .leaf .identifier x.lexeme]]
  | parameters {n : Nat} {w : List Token} {ps : List Tree}
    (hs : Derives (.listed .parameter) n w ps) : Derives .parameters n w ps
  | trailingComma {n : Nat} {c : Token} {w : List Token} {ps : List Tree}
    (hs : Derives (.separated .parameter) n w ps) (hc : c.kind = .delimiter .comma) :
    Derives .parameters n (w ++ [c]) ps
  | one {n : Nat} {item : Part} {w : List Token} {e : Tree} (he : Derives item n w [e]) :
    Derives (.separated item) n w [e]
  | more {n : Nat} {item : Part} {c : Token} {w v : List Token} {e : Tree} {es : List Tree}
    (he : Derives item n w [e]) (hc : c.kind = .delimiter .comma)
    (hs : Derives (.separated item) n v es) :
    Derives (.separated item) n (w ++ c :: v) (e :: es)
  | unlisted {n : Nat} {item : Part} : Derives (.listed item) n [] []
  | listed {n : Nat} {item : Part} {w : List Token} {es : List Tree}
    (hs : Derives (.separated item) n w es) : Derives (.listed item) n w es
  | braces {n : Nat} {o c : Token} {w : List Token} {ss : List Tree}
    (ho : o.kind = .bracket .openBrace) (hs : Derives .statements n w ss)
    (hc : c.kind = .bracket .closeBrace) :
    Derives .braces (n + 1) (o :: (w ++ [c])) [.node .statementList none ss]
  | guarded {n : Nat} {tag : Tag} {o c : Token} {w b : List Token} {e list : Tree}
    (ho : o.kind = .bracket .openParen) (he : Derives .expression n w [e])
    (hc : c.kind = .bracket .closeParen) (hb : Derives .braces n b [list]) :
    Derives (.guarded tag) n (o :: (w ++ c :: b)) [.node tag none [e, .node .block none [list]]]
  | unbranched {n : Nat} : Derives .branches n [] []
  | elseIf {n : Nat} {e s : Token} {w v : List Token} {b : Tree} {bs : List Tree}
    (he : e.isWord "else" = true) (hs : s.isWord "sus" = true)
    (hb : Derives (.guarded .elseIfBlock) n w [b]) (hbs : Derives .branches n v bs) :
    Derives .branches n (e :: s :: (w ++ v)) (b :: bs)
  | elseBlock {n : Nat} {e : Token} {w : List Token} {list : Tree}
    (he : e.isWord "else" = true) (hb : Derives .braces n w [list]) :
    Derives .branches n (e :: w) [.node .elseBlock none [list]]
  | assignedArray {n : Nat} {w : List Token} {a : Tree} (ha : Derives .array n w [a]) :
    Derives .assigned n w [a]
  | assignedExpression {n : Nat} {w : List Token} {e : Tree} (he : Derives .expression n w [e])
    (hw : ∀ t ∈ w.head?, t.kind ≠ .bracket .openBracket) : Derives .assigned n w [e]
  | declaration {n : Nat} {k x : Token} (hk : k.declares) (hx : x.kind = .identifier) :
    Derives .simple n [k, x]
      [.node .declaration (some k.lexeme) [.leaf .identifier x.lexeme]]
  | initialised {n : Nat} {k x o : Token} {op : Operator} {w : List Token} {e : Tree}
    (hk : k.declares) (hx : x.kind = .identifier) (ho : o.operator? = some op)
    (hop : op.isAssignment = true) (he : Derives .expression n w [e]) :
    Derives .simple n (k :: x :: o :: w)
      [.node .declaration (some k.lexeme)
        [.node .assignOp (some op.symbol) [.leaf .identifier x.lexeme, e]]]
  | print {n : Nat} {k o c : Token} {w : List Token} {e : Tree} (hk : k.isWord "spill" = true)
    (ho : o.kind = .bracket .openParen) (he : Derives .expression n w [e])
    (hc : c.kind = .bracket .closeParen) :
    Derives .simple n (k :: o :: (w ++ [c])) [.node .printStmt none [e]]
  | input {n : Nat} {k o x c : Token} (hk : k.isWord "post" = true)
    (ho : o.kind = .bracket .openParen) (hx : x.kind = .identifier)
    (hc : c.kind = .bracket .closeParen) :
    Derives .simple n [k, o, x, c] [.node .inputStmt none [.leaf .identifier x.lexeme]]
  | reply {n : Nat} {k : Token} {w : List Token} {e : Tree} (hk : k.isWord "reply" = true)
    (he : Derives .expression n w [e]) :
    Derives .simple n (k :: w) [.node .returnStmt none [e]]
  | called {n : Nat} {w : List Token} {e : Tree} (he : Derives .call n w [e]) :
    Derives .simple n w [e]
  | lineList {n : Nat} {x s o c : Token} {w : List Token} {ns : List Tree} (hx : x.isLine)
    (hs : s.operator? = some .assign) (ho : o.kind = .bracket .openBracket)
    (hns : Derives (.listed .number) n w ns) (hc : c.kind = .bracket .closeBracket) :
    Derives .simple n (x :: s :: o :: (w ++ [c])) [.node .lineStmt none ns]
  | alone {n : Nat} {x : Token} (hx : x.kind = .identifier) :
    Derives .simple n [x] [.node .exprStmt none [.node .expr none [.leaf .identifier x.lexeme]]]
  | counted {n : Nat} {x o : Token} {op : Operator} (hx : x.kind = .identifier)
    (ho : o.operator? = some op) (hop : op.isIncDec = true) :
    Derives .simple n [x, o]
      [.node .exprStmt none [.node .incDecOp (some op.symbol) [.leaf .identifier x.lexeme]]]
  | assignment {n : Nat} {x o : Token} {op : Operator} {w : List Token} {e : Tree}
    (hx : x.kind = .identifier) (ho : o.operator? = some op) (hop : op.isAssignment = true)
    (hline : x.isLine → op ≠ .assign) (he : Derives .assigned n w [e]) :
    Derives .simple n (x :: o :: w)
      [.node .exprStmt none [.node .assignmentOp (some op.symbol) [.leaf .identifier x.lexeme, e]]]
  | unterminated {n : Nat} {w : List Token} {s : Tree} (hs : Derives .simple n w [s]) :
    Derives .statement n w [s]
  | terminated {n : Nat} {t : Token} {w : List Token} {s : Tree} (hs : Derives .simple n w [s])
    (ht : t.kind = .delimiter .semicolon) : Derives .statement n (w ++ [t]) [s]
  | ifChain {n : Nat} {k : Token} {w v : List Token} {b : Tree} {bs : List Tree}
    (hk : k.isWord "sus" = true) (hb : Derives (.guarded .ifBlock) n w [b])
    (hbs : Derives .branches n v bs) :
    Derives .statement n (k :: (w ++ v)) [.node .ifChain none (b :: bs)]
  | forLoop {n : Nat} {k o s₁ s₂ c : Token} {u v w b : List Token} {start test step list : Tree}
    (hk : k.isWord "forreal" = true) (ho : o.kind = .bracket .openParen)
    (hu : Derives .expression n u [start]) (hs₁ : s₁.kind = .delimiter .semicolon)
    (hv : Derives .expression n v [test]) (hs₂ : s₂.kind = .delimiter .semicolon)
    (hw : Derives .expression n w [step]) (hc : c.kind = .bracket .closeParen)
    (hb : Derives .braces n b [list]) :
    Derives .statement n (k :: o :: (u ++ s₁ :: (v ++ s₂ :: (w ++ c :: b))))
      [.node .forStmt none [start, test, step, .node .block none [list]]]
  | whileLoop {n : Nat} {k : Token} {w : List Token} {s : Tree} (hk : k.isWord "talk" = true)
    (hs : Derives (.guarded .whileStmt) n w [s]) : Derives .statement n (k :: w) [s]
  | switch {n : Nat} {k : Token} {w : List Token} {s : Tree} (hk : k.isWord "mood" = true)
    (hs : Derives (.guarded .switchStmt) n w [s]) : Derives .statement n (k :: w) [s]
  | definition {n : Nat} {k f o c : Token} {w b : List Token} {ps : List Tree} {list : Tree}
    (hk : k.isWord "trend" = true) (hf : f.kind = .function) (ho : o.kind = .bracket .openParen)
    (hps : Derives .parameters n w ps) (hc : c.kind = .bracket .closeParen)
    (hb : Derives .braces n b [list]) :
    Derives .statement n (k :: f :: o :: (w ++ c :: b))
      [.node .functionDef (some f.lexeme) [.node .paramList none ps, .node .block none [list]]]
  | block {n : Nat} {w : List Token} {list : Tree} (hb : Derives .braces n w [list]) :
    Derives .statement n w [.node .block none [list]]
  | done {n : Nat} : Derives .statements n [] []
  | next {n : Nat} {w v : List Token} {s : Tree} {ss : List Tree}
    (hs : Derives .statement n w [s]) (hss : Derives .statements n v ss) :
    Derives .statements n (w ++ v) (s :: ss)

/-- Whether a part is never empty. -/
def Part.takesToken : Part → Bool
  | .parameters | .listed _ | .branches | .statements => false
  | .separated item => item.takesToken
  | _ => true

namespace Derives
variable {n m : Nat} {part item : Part} {w v : List Token} {t : Tree} {ts : List Tree}

/-- What nests `n` deep also nests less than any greater bound. -/
theorem mono (h : Derives part n w ts) (hn : n ≤ m) : Derives part m w ts := by
  induction h generalizing m with
  | literal ht => exact .literal ht
  | grouped ho _ hc ih =>
    obtain ⟨m, rfl⟩ := Nat.exists_eq_add_of_le' (Nat.le_trans (Nat.le_add_left 1 _) hn)
    exact .grouped ho (ih (by omega)) hc
  | array ho _ hc ih =>
    obtain ⟨m, rfl⟩ := Nat.exists_eq_add_of_le' (Nat.le_trans (Nat.le_add_left 1 _) hn)
    exact .array ho (ih (by omega)) hc
  | braces ho _ hc ih =>
    obtain ⟨m, rfl⟩ := Nat.exists_eq_add_of_le' (Nat.le_trans (Nat.le_add_left 1 _) hn)
    exact .braces ho (ih (by omega)) hc
  | _ => grind [Derives]

/-- Every part takes a token, but for lists and repetitions. -/
theorem ne_nil (h : Derives part n w ts) (hp : part.takesToken = true) : w ≠ [] := by
  induction h <;> simp_all [Part.takesToken]

/-- Expressions grow at their right end. -/
theorem expression_induction {P : List Token → Tree → Prop}
    (single : ∀ {w e}, Derives .operand n w [e] → P w e)
    (binary : ∀ {w v o op l r}, Derives .expression n w [l] → P w l →
      o.binaryOperator? = some op → Derives .operand n v [r] → P (w ++ o :: v) (.binary op l r))
    (h : Derives .expression n w [t]) : P w t := by
  generalize hp : Part.expression = part at h
  generalize ht : [t] = ts at h
  induction h generalizing t with
  | single he => cases ht; exact single he
  | binary hl ho hr ih => cases ht; exact binary hl (ih single binary hp rfl) ho hr
  | _ => cases hp

theorem separated_induction {P : List Token → List Tree → Prop}
    (one : ∀ {w e}, Derives item n w [e] → P w [e])
    (more : ∀ {w v c e es}, Derives item n w [e] → c.kind = .delimiter .comma →
      Derives (.separated item) n v es → P v es → P (w ++ c :: v) (e :: es))
    (h : Derives (.separated item) n w ts) : P w ts := by
  generalize hp : Part.separated item = part at h
  induction h with
  | one he => cases hp; exact one he
  | more he hc hs _ ih => cases hp; exact more he hc hs (ih one more rfl)
  | _ => cases hp

theorem branches_induction {P : List Token → List Tree → Prop} (unbranched : P [] [])
    (elseIf : ∀ {w v e s b bs}, e.isWord "else" = true → s.isWord "sus" = true →
      Derives (.guarded .elseIfBlock) n w [b] → Derives .branches n v bs → P v bs →
      P (e :: s :: (w ++ v)) (b :: bs))
    (elseBlock : ∀ {w e list}, e.isWord "else" = true → Derives .braces n w [list] →
      P (e :: w) [.node .elseBlock none [list]])
    (h : Derives .branches n w ts) : P w ts := by
  generalize hp : Part.branches = part at h
  induction h with
  | unbranched => exact unbranched
  | elseIf he hs hb hbs _ ih => exact elseIf he hs hb hbs (ih elseIf elseBlock hp)
  | elseBlock he hb => exact elseBlock he hb
  | _ => cases hp

theorem statements_induction {P : List Token → List Tree → Prop} (done : P [] [])
    (next : ∀ {w v s ss}, Derives .statement n w [s] → Derives .statements n v ss → P v ss →
      P (w ++ v) (s :: ss))
    (h : Derives .statements n w ts) : P w ts := by
  generalize hp : Part.statements = part at h
  induction h with
  | done => exact done
  | next hs hss _ ih => exact next hs hss (ih next hp)
  | _ => cases hp

/-- One more parameter in front of others. -/
theorem parameters_cons {c : Token} {p : Tree} {ps : List Tree}
    (hp : Derives .parameter n w [p]) (hc : c.kind = .delimiter .comma)
    (hps : Derives .parameters n v (t :: ps)) :
    Derives .parameters n (w ++ c :: v) (p :: t :: ps) := by
  cases hps with
  | parameters hs =>
    cases hs with
    | listed hs => exact .parameters (.listed (.more hp hc hs))
  | trailingComma hs hc' => simpa using Derives.trailingComma (.more hp hc hs) hc'

end Derives

end SlangScript
