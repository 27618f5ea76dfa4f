import SlangScript.Proofs.Acceptance
import SlangScript.Proofs.Subtree

/-! The shapes of trees. Whatever the tokens are, and wherever a program is given up, each node of its
tree holds the children that its sort calls for, and braces and array literals nest to the limit at
most. -/
namespace SlangScript

namespace Tag

/-- The sorts of node that stand as statements. -/
def statements : List Tag :=
  [declaration, ifChain, forStmt, whileStmt, switchStmt, printStmt, inputStmt, functionDef,
    functionCall, returnStmt, lineStmt, block, exprStmt]

/-- The sorts of leaf that stand as operands. -/
def literals : List Tag := [integer, floatNumber, string, identifier]

/-- The sorts of node that stand as expressions. -/
def expressions : List Tag := literals ++ [postfixOp, binaryOp, arrayLiteral]

/-- The sorts of node that hold a condition and the block that it governs. -/
def guards : List Tag := [ifBlock, elseIfBlock, whileStmt, switchStmt]

/-- `Shape tag value tags`: a node of sort `tag` may have the text `value` and children of the sorts
`tags`. -/
inductive Shape : Tag → Option String → List Tag → Prop
  | program : Shape program none [statementList]
  | statementList {tags : List Tag} (h : ∀ t ∈ tags, t ∈ statements) :
    Shape statementList none tags
  | declaration {word : String} (hw : isDeclarationWord word = true) :
    Shape declaration (some word) [identifier]
  | initialised {word : String} (hw : isDeclarationWord word = true) :
    Shape declaration (some word) [assignOp]
  | assignOp {op : Operator} {e : Tag} (hop : op.isAssignment = true) (he : e ∈ expressions) :
    Shape assignOp (some op.symbol) [identifier, e]
  | ifChain {further : Nat} {last : List Tag} (hlast : last = [] ∨ last = [elseBlock]) :
    Shape ifChain none (ifBlock :: (List.replicate further elseIfBlock ++ last))
  | guarded {tag e : Tag} (htag : tag ∈ Tag.guards)
    (he : e ∈ expressions) : Shape tag none [e, block]
  | forStmt {start test step : Tag} (hstart : start ∈ expressions) (htest : test ∈ expressions)
    (hstep : step ∈ expressions) : Shape forStmt none [start, test, step, block]
  | functionDef {name : String} : Shape functionDef (some name) [paramList, block]
  | paramList {tags : List Tag} (h : ∀ t ∈ tags, t = param) : Shape paramList none tags
  | param : Shape param none [type, identifier]
  | braces {tag : Tag} (htag : tag ∈ [block, elseBlock]) : Shape tag none [statementList]
  | shown {tag e : Tag} (htag : tag ∈ [printStmt, returnStmt]) (he : e ∈ expressions) :
    Shape tag none [e]
  | inputStmt : Shape inputStmt none [identifier]
  | lineStmt {tags : List Tag} (h : ∀ t ∈ tags, t = integer) : Shape lineStmt none tags
  | functionCall {name : String} {tags : List Tag} (h : ∀ t ∈ tags, t ∈ expressions) :
    Shape functionCall (some name) tags
  | exprStmt {tag : Tag} (htag : tag ∈ [assignmentOp, incDecOp, expr]) : Shape exprStmt none [tag]
  | assignmentOp {op : Operator} {e : Tag} (hop : op.isAssignment = true) (he : e ∈ expressions) :
    Shape assignmentOp (some op.symbol) [identifier, e]
  | incDecOp {op : Operator} (hop : op.isIncDec = true) :
    Shape incDecOp (some op.symbol) [identifier]
  | expr : Shape expr none [identifier]
  | arrayLiteral {tags : List Tag} (h : ∀ t ∈ tags, t ∈ functionCall :: expressions) :
    Shape arrayLiteral none tags
  | binaryOp {op : Operator} {left right : Tag} (hop : op.isBinary = true)
    (hleft : left ∈ expressions) (hright : right ∈ expressions) :
    Shape binaryOp (some op.symbol) [left, right]
  | postfixOp {op : Operator} {tag : Tag} (hop : op.isIncDec = true) (htag : tag ∈ literals) :
    Shape postfixOp (some op.symbol) [tag]
  | leaf {tag : Tag} {text : String} (htag : tag ∈ type :: literals) : Shape tag (some text) []

/-- Whether a node stands for braces or an array literal, which take up a level of nesting. -/
def nests : Tag → Bool
  | block | elseBlock | arrayLiteral => true
  | _ => false

theorem ofOperand?_mem_literals {kind : TokenKind} {tag : Tag} (h : ofOperand? kind = some tag) :
    tag ∈ literals := by
  cases kind <;> cases h <;> decide

theorem nests_of_guards {tag : Tag} (h : tag ∈ Tag.guards) : tag.nests = false := by
  revert tag
  decide

theorem mem_expressions {tag : Tag} (h : tag ∈ literals) : tag ∈ expressions :=
  List.mem_append_left _ h

end Tag

namespace Tree

/-- Every node of the tree has a shape that its sort allows. -/
def WellShaped (t : Tree) : Prop := ∀ s ∈ t.subtrees, s.tag.Shape s.value? (s.children.map tag)

mutual

/-- How many braces and array literals lie inside each other at most. -/
def nesting : Tree → Nat
  | node tag _ children => nestingOfAll children + tag.nests.toNat

def nestingOfAll : List Tree → Nat
  | [] => 0
  | t :: ts => max (nesting t) (nestingOfAll ts)

end

@[simp] theorem tag_node (tag : Tag) (value : Option String) (children : List Tree) :
    (node tag value children).tag = tag := rfl

@[simp] theorem tag_leaf (tag : Tag) (text : String) : (leaf tag text).tag = tag := rfl

@[simp] theorem wellShaped_node (tag : Tag) (value : Option String) (children : List Tree) :
    (node tag value children).WellShaped ↔
      tag.Shape value (children.map Tree.tag) ∧ ∀ c ∈ children, c.WellShaped :=
  forall_mem_subtrees_node

theorem wellShaped_leaf {tag : Tag} (text : String) (h : tag ∈ Tag.type :: Tag.literals) :
    (leaf tag text).WellShaped := (wellShaped_node _ _ _).mpr ⟨.leaf h, nofun⟩

theorem nesting_operand {kind : TokenKind} {tag : Tag} (text : String)
    (h : Tag.ofOperand? kind = some tag) : (leaf tag text).nesting = 0 := by
  cases kind <;> cases h <;> rfl

theorem nestingOfAll_le {n : Nat} {ts : List Tree} :
    nestingOfAll ts ≤ n ↔ ∀ t ∈ ts, t.nesting ≤ n := by
  induction ts with
  | nil => simp [nestingOfAll]
  | cons t ts ih => simp [nestingOfAll, Nat.max_le, ih]

end Tree

/-- The sorts of node that a part stands for. -/
def Part.sorts : Part → List Tag
  | .operand | .expression | .assigned => Tag.expressions
  | .call => [.functionCall]
  | .element => .functionCall :: Tag.expressions
  | .array => [.arrayLiteral]
  | .number => [.integer]
  | .parameter | .parameters => [.param]
  | .separated item | .listed item => item.sorts
  | .braces => [.statementList]
  | .guarded tag => [tag]
  | .branches => [.elseIfBlock, .elseBlock]
  | .simple | .statement | .statements => Tag.statements

/-- The parts that the grammar uses: only four sorts of node hold a condition and its block. -/
def Part.isUsed : Part → Bool
  | .guarded tag => tag ∈ Tag.guards
  | .separated item | .listed item => item.isUsed
  | _ => true

/-- The levels that a part takes up and its trees do not show: a list in braces becomes the child of a
block. -/
def Part.frames : Part → Nat
  | .braces => 1
  | _ => 0

open SlangScript.Tree

namespace Derives
variable {n : Nat} {part : Part} {w : List Token} {ts : List Tree}

/-- The trees of a part are of the sorts that it stands for. -/
theorem sorts (h : Derives part n w ts) : ∀ tag ∈ ts.map Tree.tag, tag ∈ part.sorts := by
  induction h with
  | literal ht =>
    exact List.forall_mem_singleton.mpr (Tag.mem_expressions (Tag.ofOperand?_mem_literals ht))
  | _ => simp_all [Part.sorts, Tag.statements, Tag.expressions, Tree.binary]

theorem sort {t : Tree} (h : Derives part n w [t]) : t.tag ∈ part.sorts :=
  h.sorts t.tag (List.mem_singleton_self _)

theorem braces_shape {tag : Tag} {list : Tree} (h : Derives .braces n w [list])
    (htag : tag ∈ [Tag.block, .elseBlock]) : tag.Shape none [list.tag] := by
  have hlist : list.tag = .statementList := List.mem_singleton.mp h.sort
  rw [hlist]
  exact .braces htag

/-- Further conditions come before the `else` without one. -/
theorem branches_sorts (h : Derives .branches n w ts) : ∃ (further : Nat) (last : List Tag),
    (last = [] ∨ last = [.elseBlock]) ∧
      ts.map Tree.tag = List.replicate further .elseIfBlock ++ last := by
  refine h.branches_induction (P := fun _ ts => ∃ (further : Nat) (last : List Tag),
    (last = [] ∨ last = [.elseBlock]) ∧
      ts.map Tree.tag = List.replicate further .elseIfBlock ++ last) ⟨0, [], .inl rfl, rfl⟩ ?_ ?_
  · rintro w v e s b bs - - hb - ⟨further, last, hlast, hbs⟩
    have hb : b.tag = .elseIfBlock := List.mem_singleton.mp hb.sort
    exact ⟨further + 1, last, hlast, by rw [List.map_cons, hb, hbs]; rfl⟩
  · intro w e list _ _
    exact ⟨0, [.elseBlock], .inr rfl, rfl⟩

/-- Every tree that the grammar derives is well shaped. -/
theorem wellShaped (h : Derives part n w ts) (hpart : part.isUsed = true) :
    ∀ t ∈ ts, t.WellShaped := by
  induction h with
  | literal ht =>
    have htag := Tag.ofOperand?_mem_literals ht
    simpa using wellShaped_leaf _ (List.mem_cons_of_mem _ htag)
  | stepped ht ho =>
    have htag := Tag.ofOperand?_mem_literals ht
    have hop := (Option.filter_eq_some_iff.mp ho).2
    simpa using ⟨.postfixOp hop htag, wellShaped_leaf _ (List.mem_cons_of_mem _ htag)⟩
  | binary hl ho hr ihl ihr =>
    have hop := (Option.filter_eq_some_iff.mp ho).2
    simpa [Tree.binary] using
      ⟨.binaryOp hop hl.sort hr.sort, by simpa using ihl rfl, by simpa using ihr rfl⟩
  | call hf ho hs hc ih => simpa using ⟨.functionCall hs.sorts, ih rfl⟩
  | array ho hs hc ih => simpa using ⟨.arrayLiteral hs.sorts, ih rfl⟩
  | number ht => simpa using wellShaped_leaf _ (by decide)
  | parameter ht hx =>
    simpa using ⟨.param, wellShaped_leaf _ (by decide), wellShaped_leaf _ (by decide)⟩
  | braces ho hs hc ih => simpa using ⟨.statementList hs.sorts, ih rfl⟩
  | guarded ho he hc hb ihe ihb =>
    simp only [Part.isUsed, decide_eq_true_eq] at hpart
    simpa using ⟨.guarded hpart he.sort, ihe rfl _ (.head _), hb.braces_shape (by decide),
      ihb rfl _ (.head _)⟩
  | elseBlock he hb ih => simpa using ⟨hb.braces_shape (by decide), ih rfl _ (.head _)⟩
  | declaration hk hx =>
    simpa using ⟨.declaration hk.2, wellShaped_leaf _ (by decide)⟩
  | initialised hk hx ho hop he ih =>
    simpa using ⟨.initialised hk.2, .assignOp hop he.sort, wellShaped_leaf _ (by decide),
      ih rfl _ (.head _)⟩
  | print hk ho he hc ih => simpa using ⟨.shown (by decide) he.sort, ih rfl _ (.head _)⟩
  | input hk ho hx hc => simpa using ⟨.inputStmt, wellShaped_leaf _ (by decide)⟩
  | reply hk he ih => simpa using ⟨.shown (by decide) he.sort, ih rfl _ (.head _)⟩
  | lineList hx hs ho hns hc ih =>
    simpa using ⟨.lineStmt (by simpa [Part.sorts] using hns.sorts), ih rfl⟩
  | alone hx => simpa using ⟨.exprStmt (by decide), .expr, wellShaped_leaf _ (by decide)⟩
  | counted hx ho hop =>
    simpa using ⟨.exprStmt (by decide), .incDecOp hop, wellShaped_leaf _ (by decide)⟩
  | assignment hx ho hop hline he ih =>
    simpa using ⟨.exprStmt (by decide), .assignmentOp hop he.sort, wellShaped_leaf _ (by decide),
      ih rfl _ (.head _)⟩
  | ifChain hk hb hbs ihb ihbs =>
    have hfirst := List.mem_singleton.mp hb.sort
    obtain ⟨further, last, hlast, htags⟩ := hbs.branches_sorts
    simpa [hfirst, htags] using ⟨.ifChain hlast, ihb rfl _ (.head _), ihbs rfl⟩
  | forLoop hk ho hu hs₁ hv hs₂ hw hc hb ihu ihv ihw ihb =>
    simpa using ⟨.forStmt hu.sort hv.sort hw.sort, ihu rfl _ (.head _), ihv rfl _ (.head _),
      ihw rfl _ (.head _), hb.braces_shape (by decide), ihb rfl _ (.head _)⟩
  | definition hk hf ho hps hc hb ihps ihb =>
    simpa using ⟨.functionDef, ⟨.paramList (by simpa [Part.sorts] using hps.sorts), ihps rfl⟩,
      hb.braces_shape (by decide), ihb rfl _ (.head _)⟩
  | block hb ih => simpa using ⟨hb.braces_shape (by decide), ih rfl _ (.head _)⟩
  | _ => simp_all [Part.isUsed, Tag.guards]

/-- A level of the limit for each of the braces and array literals inside each other. What stands in
braces leaves one level for the block. -/
theorem nesting_le (h : Derives part n w ts) (hpart : part.isUsed = true) :
    ∀ t ∈ ts, t.nesting + part.frames ≤ n := by
  induction h with
  | literal ht => simp [nesting_operand _ ht, Part.frames]
  | stepped ht ho => simp [nesting, nestingOfAll, nesting_operand _ ht, Part.frames, Tag.nests]
  | one he ih =>
    have he := ih hpart
    simp only [List.forall_mem_singleton] at he ⊢
    exact Nat.le_of_add_right_le he
  | more he hc hs ihe ihs =>
    have he := List.forall_mem_singleton.mp (ihe hpart)
    exact List.forall_mem_cons.mpr ⟨Nat.le_of_add_right_le he, ihs hpart⟩
  | guarded ho he hc hb ihe ihb =>
    simp only [Part.isUsed, decide_eq_true_eq] at hpart
    have htag := Tag.nests_of_guards hpart
    simp_all [Part.isUsed, Part.frames, nesting, nestingOfAll, Nat.max_le, Tag.nests]
  | _ =>
    simp_all [Part.isUsed, Part.frames, nesting, nestingOfAll, nestingOfAll_le, Nat.max_le,
      Nat.le_succ_of_le, Tag.guards, Tag.nests, Tree.leaf, Tree.binary]

end Derives

/-- Whatever the tokens are, and wherever the program is given up, the tree is a list of statements,
every node has a shape that its sort allows, and braces and array literals nest no deeper than the
limit. -/
theorem parse_wellShaped (ts : List Token) :
    (∃ ss, (parse ts).tree = .node .program none [.node .statementList none ss]) ∧
      (parse ts).tree.WellShaped ∧ (parse ts).tree.nesting ≤ maxNesting := by
  obtain ⟨w, rest, ss, -, hd, htree⟩ := exists_derives_tree maxNesting ts
  have hnesting : nestingOfAll ss ≤ maxNesting := nestingOfAll_le.mpr (hd.nesting_le rfl)
  rw [parse, htree]
  refine ⟨⟨ss, rfl⟩, ?_, ?_⟩
  · simpa [Tree.program] using ⟨.program, .statementList hd.sorts, hd.wellShaped rfl⟩
  · simpa [Tree.program, nesting, nestingOfAll, Tag.nests] using hnesting

end SlangScript
