import SlangScript.Tree.Tag

/-! Parse trees: a sort, a text where the node stands for one, and children in order. -/
namespace SlangScript

inductive Tree where
  | node (tag : Tag) (value : Option String) (children : List Tree)
  deriving Repr

namespace Tree

def leaf (tag : Tag) (value : String) : Tree := node tag (some value) []

def tag : Tree → Tag
  | node tag _ _ => tag

def value? : Tree → Option String
  | node _ value _ => value

def children : Tree → List Tree
  | node _ _ children => children

/-- The tree with one more child behind the others. -/
def addChild : Tree → Tree → Tree
  | node tag value children, child => node tag value (children ++ [child])

def child? (t : Tree) (index : Nat) : Option Tree := t.children[index]?

mutual

/-- Trees are equal when their sorts, texts and children are. -/
def decEq : (s t : Tree) → Decidable (s = t)
  | node tag value children, node tag' value' children' =>
    if h : tag = tag' ∧ value = value' then
      match decEqAll children children' with
      | .isTrue hc => .isTrue (by rw [h.1, h.2, hc])
      | .isFalse hc => .isFalse fun e => hc (by injection e)
    else .isFalse fun e => h (by injection e with ht hv; exact ⟨ht, hv⟩)

def decEqAll : (ss ts : List Tree) → Decidable (ss = ts)
  | [], [] => .isTrue rfl
  | [], _ :: _ => .isFalse nofun
  | _ :: _, [] => .isFalse nofun
  | s :: ss, t :: ts =>
    match decEq s t with
    | .isTrue h =>
      match decEqAll ss ts with
      | .isTrue hs => .isTrue (by rw [h, hs])
      | .isFalse hs => .isFalse fun e => hs (by injection e)
    | .isFalse h => .isFalse fun e => h (by injection e)

end

instance : DecidableEq Tree := decEq

mutual

/-- The first node of a sort, a node before its children and these from left to right. -/
def find? (sort : Tag) : Tree → Option Tree
  | node tag value children =>
    if tag = sort then some (node tag value children) else findAmong? sort children

def findAmong? (sort : Tag) : List Tree → Option Tree
  | [] => none
  | t :: ts => (find? sort t).or (findAmong? sort ts)

end

mutual

/-- The number of nodes. -/
def count : Tree → Nat
  | node _ _ children => countAll children + 1

def countAll : List Tree → Nat
  | [] => 0
  | t :: ts => count t + countAll ts

end

end Tree

end SlangScript
