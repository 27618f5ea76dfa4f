import SlangScript.Grammar.Word
import SlangScript.Production.Expression
import SlangScript.Proofs.Subtree

/-! What the tables of the checks allow a node of a tree to hold. -/
namespace SlangScript

namespace Tree

/-- A number or a name. -/
def IsValue (t : Tree) : Prop := ∃ tag text, t = leaf tag text ∧
  (tag = .integer ∨ tag = .floatNumber ∨ tag = .identifier)

/-- Two values with an operator of the sort `p` between them. -/
def IsJoined (p : Operator → Bool) (t : Tree) : Prop := ∃ op left right, p op = true ∧
  t = binary op left right ∧ left.IsValue ∧ right.IsValue

/-- A value that is counted up or down. -/
def IsCounted (t : Tree) : Prop := ∃ (op : Operator) (v : Tree), op.isIncDec = true ∧
  t = node .postfixOp (some op.symbol) [v] ∧ v.IsValue

/-- Some node is more than a frame of braces. -/
def HoldsMore (t : Tree) : Prop := ∃ s ∈ t.subtrees,
  s.tag ≠ .block ∧ s.tag ≠ .elseBlock ∧ s.tag ≠ .statementList

/-- A block that holds more than braces. -/
def IsBody (t : Tree) : Prop := t.tag = .block ∧ t.HoldsMore

/-- What the tables allow a node to hold. -/
def Conforms : Tree → Prop
  | node .ifBlock _ cs | node .elseIfBlock _ cs | node .whileStmt _ cs =>
    ∃ condition body, cs = [condition, body] ∧ condition.IsJoined Operator.isComparison ∧ body.IsBody
  | node .switchStmt _ cs => ∃ subject body, cs = [subject, body] ∧ subject.IsValue ∧ body.IsBody
  | node .forStmt _ cs => ∃ start test step body, cs = [start, test, step, body] ∧
    start.IsJoined Operator.isAssignment ∧ test.IsJoined Operator.isComparison ∧ step.IsCounted ∧
    body.IsBody
  | node .functionCall _ cs => ∀ c ∈ cs, c.IsValue
  | node .type value _ => ∃ word ∈ reservedWords, value = some word
  | node .functionDef _ cs => ∃ params body, cs = [params, body] ∧ body.IsBody
  | node .elseBlock value cs => (node .elseBlock value cs).HoldsMore
  | _ => True

/-- Every node of the tree conforms. -/
def Conforming (t : Tree) : Prop := ∀ s ∈ t.subtrees, s.Conforms

@[simp] theorem conforming_node (tag : Tag) (value : Option String) (children : List Tree) :
    (node tag value children).Conforming ↔
      (node tag value children).Conforms ∧ ∀ c ∈ children, c.Conforming :=
  forall_mem_subtrees_node

@[simp] theorem holdsMore_node (tag : Tag) (value : Option String) (children : List Tree) :
    (node tag value children).HoldsMore ↔
      (tag ≠ .block ∧ tag ≠ .elseBlock ∧ tag ≠ .statementList) ∨ ∃ c ∈ children, c.HoldsMore := by
  simp only [HoldsMore, subtrees_node, List.mem_cons, mem_subtreesOfAll]
  constructor
  · rintro ⟨s, rfl | ⟨c, hc, hs⟩, hmore⟩
    · exact .inl hmore
    · exact .inr ⟨c, hc, s, hs, hmore⟩
  · rintro (hmore | ⟨c, hc, s, hs, hmore⟩)
    · exact ⟨_, .inl rfl, hmore⟩
    · exact ⟨s, .inr ⟨c, hc, hs⟩, hmore⟩

theorem IsValue.conforming {t : Tree} (h : t.IsValue) : t.Conforming := by
  obtain ⟨tag, text, rfl, rfl | rfl | rfl⟩ := h <;> simp [leaf, Conforms]

end Tree

end SlangScript
