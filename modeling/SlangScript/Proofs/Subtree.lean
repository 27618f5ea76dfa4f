import SlangScript.Tree.Basic

/-! The nodes of a tree, each with what lies below it. -/
namespace SlangScript.Tree

mutual

/-- The tree itself and every tree below it. -/
def subtrees : Tree → List Tree
  | node tag value children => node tag value children :: subtreesOfAll children

def subtreesOfAll : List Tree → List Tree
  | [] => []
  | t :: ts => subtrees t ++ subtreesOfAll ts

end

@[simp] theorem subtrees_node (tag : Tag) (value : Option String) (children : List Tree) :
    subtrees (node tag value children) = node tag value children :: subtreesOfAll children := rfl

@[simp] theorem subtreesOfAll_nil : subtreesOfAll [] = [] := rfl

@[simp] theorem subtreesOfAll_cons (t : Tree) (ts : List Tree) :
    subtreesOfAll (t :: ts) = subtrees t ++ subtreesOfAll ts := rfl

theorem subtreesOfAll_append (ts us : List Tree) :
    subtreesOfAll (ts ++ us) = subtreesOfAll ts ++ subtreesOfAll us := by
  induction ts with
  | nil => rfl
  | cons t ts ih => simp [ih]

theorem mem_subtreesOfAll {s : Tree} {ts : List Tree} :
    s ∈ subtreesOfAll ts ↔ ∃ t ∈ ts, s ∈ t.subtrees := by
  induction ts with
  | nil => simp
  | cons t ts ih => simp [ih]

/-- What holds at every node holds at the root and at every node of the children. -/
theorem forall_mem_subtrees_node {P : Tree → Prop} {tag : Tag} {value : Option String}
    {children : List Tree} :
    (∀ s ∈ (node tag value children).subtrees, P s) ↔
      P (node tag value children) ∧ ∀ c ∈ children, ∀ s ∈ c.subtrees, P s := by
  simp only [subtrees_node, List.forall_mem_cons, mem_subtreesOfAll]
  refine and_congr_right fun _ => ⟨fun h c hc s hs => h s ⟨c, hc, hs⟩, ?_⟩
  rintro h s ⟨c, hc, hs⟩
  exact h c hc s hs

end SlangScript.Tree
