import SlangScript.Tree.Basic

/-! A tree written out one node a row, a node before its children. -/
namespace SlangScript

/-- One node of a written tree: how deep it lies, its sort and its text. -/
structure TreeRow where
  depth : Nat
  tag : Tag
  value : Option String
  deriving DecidableEq, Repr

namespace Tree

mutual

/-- The nodes in the order in which they are written, the root at `depth`. -/
def rows (depth : Nat) : Tree → List TreeRow
  | node tag value children => ⟨depth, tag, value⟩ :: rowsOfAll (depth + 1) children

def rowsOfAll (depth : Nat) : List Tree → List TreeRow
  | [] => []
  | t :: ts => rows depth t ++ rowsOfAll depth ts

end

end Tree

/-- Two blanks a level, the sort, the text in parentheses, and a line feed. -/
def TreeRow.text (row : TreeRow) : List Char :=
  let shown := match row.value with
    | none => []
    | some v => '(' :: v.toList ++ [')']
  List.replicate (2 * row.depth) ' ' ++ row.tag.name.toList ++ shown ++ ['\n']

/-- The printed form of a tree. -/
def Tree.render (t : Tree) : String := String.ofList ((t.rows 0).flatMap TreeRow.text)

end SlangScript
