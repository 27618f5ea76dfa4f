import Mathlib.Data.List.Lex
import Mathlib.Order.Bounds.Basic
import SlangScript.Proofs.Subtree

/-! The nodes of a tree by their addresses, which tell the children to go down to, from the root on. In
pre-order the nodes stand in the lexicographic order of their addresses, and a search finds the first of a
sort there. -/
namespace SlangScript.Tree

/-- The tree at an address. -/
def at? : Tree → List Nat → Option Tree
  | t, [] => some t
  | t, i :: address => (t.child? i).bind (·.at? address)

mutual

/-- The nodes in pre-order, each with its address and what lies below it. -/
def preOrder : Tree → List (List Nat × Tree)
  | node tag value children => ([], node tag value children) :: preOrderFrom 0 children

/-- The nodes of trees that are children in a row, the first of them with this index. -/
def preOrderFrom (index : Nat) : List Tree → List (List Nat × Tree)
  | [] => []
  | t :: ts => (preOrder t).map (Prod.map (index :: ·) id) ++ preOrderFrom (index + 1) ts

end

variable {index : Nat} {address : List Nat} {s t : Tree} {ts : List Tree} {sort : Tag}

section Listing

theorem mem_map_below {l : List (List Nat × Tree)} :
    (address, s) ∈ l.map (Prod.map (index :: ·) id) ↔
      ∃ below, address = index :: below ∧ (below, s) ∈ l := by
  simp only [List.mem_map, Prod.exists, Prod.map_apply, id_eq, Prod.mk.injEq]
  constructor
  · rintro ⟨below, u, hmem, rfl, rfl⟩
    exact ⟨below, rfl, hmem⟩
  · rintro ⟨below, rfl, hmem⟩
    exact ⟨below, s, hmem, rfl, rfl⟩

mutual

/-- The listing holds what lies at the addresses of the tree. -/
theorem mem_preOrder : ∀ {address : List Nat} {s : Tree} (t : Tree),
    (address, s) ∈ t.preOrder ↔ t.at? address = some s
  | [], s, node tag value children => by
    rw [preOrder, List.mem_cons, mem_preOrderFrom]
    simp [at?, eq_comm]
  | i :: address, s, node tag value children => by
    rw [preOrder, List.mem_cons, mem_preOrderFrom]
    simp [at?, child?, Tree.children]

theorem mem_preOrderFrom {index : Nat} {address : List Nat} {s : Tree} : ∀ ts : List Tree,
    (address, s) ∈ preOrderFrom index ts ↔
      ∃ i below, address = (index + i) :: below ∧ ts[i]?.bind (·.at? below) = some s
  | [] => by simp [preOrderFrom]
  | t :: ts => by
    rw [preOrderFrom, List.mem_append, mem_map_below, mem_preOrderFrom ts]
    simp only [mem_preOrder t]
    conv_rhs => rw [← Nat.or_exists_add_one]
    simp [Nat.add_assoc, Nat.add_comm 1]

end

mutual

/-- A node comes in front of another where its address does. -/
theorem sorted_preOrder : ∀ t : Tree, t.preOrder.Pairwise fun a b => a.1 < b.1
  | node tag value children => by
    rw [preOrder, List.pairwise_cons]
    refine ⟨?_, sorted_preOrderFrom 0 children⟩
    rintro ⟨address, s⟩ hs
    obtain ⟨i, below, rfl, -⟩ := (mem_preOrderFrom children).mp hs
    exact List.nil_lt_cons _ _

theorem sorted_preOrderFrom (index : Nat) : ∀ ts : List Tree,
    (preOrderFrom index ts).Pairwise fun a b => a.1 < b.1
  | [] => .nil
  | t :: ts => by
    rw [preOrderFrom, List.pairwise_append]
    refine ⟨?_, sorted_preOrderFrom (index + 1) ts, ?_⟩
    · rw [List.pairwise_map]
      refine (sorted_preOrder t).imp fun hlt => ?_
      exact List.cons_lt_cons_iff.mpr (.inr ⟨rfl, hlt⟩)
    · rintro ⟨a, s⟩ hs ⟨b, u⟩ hu
      obtain ⟨below, rfl, -⟩ := mem_map_below.mp hs
      obtain ⟨i, below', rfl, -⟩ := (mem_preOrderFrom ts).mp hu
      exact List.cons_lt_cons_iff.mpr (.inl (by omega))

end

mutual

theorem map_snd_preOrder : ∀ t : Tree, t.preOrder.map (·.2) = t.subtrees
  | node tag value children => by
    rw [preOrder, subtrees, List.map_cons, map_snd_preOrderFrom]

theorem map_snd_preOrderFrom (index : Nat) : ∀ ts : List Tree,
    (preOrderFrom index ts).map (·.2) = subtreesOfAll ts
  | [] => rfl
  | t :: ts => by
    rw [preOrderFrom, subtreesOfAll, List.map_append, List.map_map, map_snd_preOrderFrom,
      ← map_snd_preOrder t]
    rfl

end

mutual

theorem count_eq_length : ∀ t : Tree, t.count = t.subtrees.length
  | node tag value children => by
    rw [count, subtrees, List.length_cons, countAll_eq_length]

theorem countAll_eq_length : ∀ ts : List Tree, countAll ts = (subtreesOfAll ts).length
  | [] => rfl
  | t :: ts => by
    rw [countAll, subtreesOfAll, List.length_append, count_eq_length, countAll_eq_length]

end

mutual

/-- The search stops at the first node of the sort in the listing. -/
theorem find?_eq_find?_subtrees (sort : Tag) : ∀ t : Tree,
    t.find? sort = t.subtrees.find? (·.tag = sort)
  | node tag value children => by
    rw [find?, subtrees, List.find?_cons, findAmong?_eq_find?_subtrees]
    by_cases h : tag = sort <;> simp [h, Tree.tag]

theorem findAmong?_eq_find?_subtrees (sort : Tag) : ∀ ts : List Tree,
    findAmong? sort ts = (subtreesOfAll ts).find? (·.tag = sort)
  | [] => rfl
  | t :: ts => by
    rw [findAmong?, subtreesOfAll, List.find?_append, find?_eq_find?_subtrees,
      findAmong?_eq_find?_subtrees]

end

end Listing

/-- Among entries in the order of their addresses, the first one that passes a test is the one with the
least address. -/
theorem find?_eq_some_iff_least {l : List (List Nat × Tree)} (h : l.Pairwise fun a b => a.1 < b.1)
    {p : Tree → Bool} : l.find? (fun entry => p entry.2) = some (address, s) ↔
      (address, s) ∈ l ∧ p s = true ∧ ∀ b u, (b, u) ∈ l → p u = true → address ≤ b := by
  rw [List.find?_eq_some_iff_append]
  constructor
  · rintro ⟨hs, before, behind, rfl, hbefore⟩
    refine ⟨by simp, hs, fun b u hmem hu => ?_⟩
    rcases List.mem_append.mp hmem with hb | hb
    · simpa [hu] using hbefore _ hb
    · rcases List.mem_cons.mp hb with heq | hb
      · exact (congrArg Prod.fst heq).ge
      · exact ((List.pairwise_cons.mp (List.pairwise_append.mp h).2.1).1 _ hb).le
  · rintro ⟨hmem, hs, hleast⟩
    obtain ⟨before, behind, rfl⟩ := List.append_of_mem hmem
    refine ⟨hs, before, behind, rfl, fun e he => ?_⟩
    have hlt := (List.pairwise_append.mp h).2.2 e he _ List.mem_cons_self
    rw [Bool.not_eq_true', Bool.eq_false_iff]
    intro hu
    exact absurd hlt (hleast e.1 e.2 (List.mem_append_left _ he) hu).not_gt

/-- The addresses of the nodes of a sort. -/
def addressesOf (t : Tree) (sort : Tag) : Set (List Nat) := {a | ∃ u, t.at? a = some u ∧ u.tag = sort}

theorem find?_eq_map_preOrder (t : Tree) (sort : Tag) :
    t.find? sort = (t.preOrder.find? fun entry => entry.2.tag = sort).map (·.2) := by
  rw [find?_eq_find?_subtrees, ← map_snd_preOrder, List.find?_map]
  rfl

/-- What is found lies at the least address of the sort. -/
theorem find?_eq_some_iff_isLeast : t.find? sort = some s ↔
    ∃ a, IsLeast (t.addressesOf sort) a ∧ t.at? a = some s := by
  have hfirst (a : List Nat) : t.preOrder.find? (fun entry => entry.2.tag = sort) = some (a, s) ↔
      t.at? a = some s ∧ s.tag = sort ∧ ∀ b u, t.at? b = some u → u.tag = sort → a ≤ b := by
    rw [find?_eq_some_iff_least (p := fun u => u.tag = sort) (sorted_preOrder t)]
    simp only [mem_preOrder, decide_eq_true_eq]
  rw [find?_eq_map_preOrder, Option.map_eq_some_iff, Prod.exists]
  simp only [exists_eq_right, hfirst]
  refine exists_congr fun a => ⟨fun ⟨hs, htag, hleast⟩ => ?_, fun ⟨⟨⟨u, hu, htag⟩, hleast⟩, hs⟩ => ?_⟩
  · refine ⟨⟨⟨s, hs, htag⟩, ?_⟩, hs⟩
    rintro b ⟨u, hu, hsort⟩
    exact hleast b u hu hsort
  · obtain rfl : u = s := Option.some.inj (hu.symm.trans hs)
    exact ⟨hs, htag, fun b v hv hsort => hleast ⟨v, hv, hsort⟩⟩

theorem find?_eq_none_iff : t.find? sort = none ↔ ∀ s ∈ t.subtrees, s.tag ≠ sort := by
  simp [find?_eq_find?_subtrees]

/-- A child more stands, with all that lies below it, behind the other nodes. -/
theorem subtrees_addChild (t child : Tree) :
    (t.addChild child).subtrees = t.addChild child :: (t.subtrees.tail ++ child.subtrees) := by
  obtain ⟨tag, value, children⟩ := t
  simp [addChild, subtreesOfAll_append]

/-- Children added one after the other stand there in the order in which they were added. -/
theorem subtrees_foldl_addChild (t : Tree) (added : List Tree) :
    (added.foldl addChild t).subtrees =
      added.foldl addChild t :: (t.subtrees.tail ++ subtreesOfAll added) := by
  induction added generalizing t with
  | nil =>
    obtain ⟨tag, value, children⟩ := t
    simp
  | cons child added ih =>
    rw [List.foldl_cons, ih, subtrees_addChild, List.tail_cons, subtreesOfAll_cons, List.append_assoc]

/-- A listing of a tree in pre-order: what lies at each address, in the order of the addresses. -/
structure ListedBy (t : Tree) (listing : List (List Nat × Tree)) : Prop where
  sorted : listing.Pairwise fun a b => a.1 < b.1
  mem_iff : ∀ a s, (a, s) ∈ listing ↔ t.at? a = some s

/-- A search finds the first node of a sort in pre-order, with all that lies below it, and finds nothing
only where there is none. There are as many nodes as the pre-order lists, and as many more when children
have been added, which come last in the order in which they were added. -/
theorem preOrder_search (t : Tree) (sort : Tag) :
    t.ListedBy t.preOrder ∧ t.preOrder.map (·.2) = t.subtrees ∧
    t.find? sort = t.subtrees.find? (·.tag = sort) ∧
    (∀ s, t.find? sort = some s ↔ ∃ a, IsLeast (t.addressesOf sort) a ∧ t.at? a = some s) ∧
    (t.find? sort = none ↔ ∀ s ∈ t.subtrees, s.tag ≠ sort) ∧
    t.count = t.subtrees.length ∧
    ∀ added : List Tree, (added.foldl addChild t).count = (added.foldl addChild t).subtrees.length ∧
      (added.foldl addChild t).subtrees =
        added.foldl addChild t :: (t.subtrees.tail ++ subtreesOfAll added) :=
  ⟨⟨sorted_preOrder t, fun _ _ => mem_preOrder t⟩, map_snd_preOrder t, find?_eq_find?_subtrees sort t,
    fun _ => find?_eq_some_iff_isLeast, find?_eq_none_iff, count_eq_length t,
    fun added => ⟨count_eq_length _, subtrees_foldl_addChild t added⟩⟩

/-- A name in the first of two blocks comes before the one that stands beside them, nearer to the root. -/
example : (node .block none [node .block none [leaf .identifier "x"], leaf .identifier "y"]).find?
    .identifier = some (leaf .identifier "x") := by decide

end SlangScript.Tree
