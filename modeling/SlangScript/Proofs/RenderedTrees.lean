import SlangScript.Tree.Rows
import SlangScript.Proofs.Acceptance
import SlangScript.Proofs.JoinedLexemes
import SlangScript.Proofs.Subtree

/-! What a written tree tells. Each row shows how deep a node lies, its sort and its text, and what lies
below a node are the rows behind it that lie deeper, so that the tree can be put together again. -/
namespace SlangScript

namespace Tree

/-- Every text in the tree is of this sort. -/
def AllTexts (P : String → Prop) (t : Tree) : Prop := ∀ s ∈ t.subtrees, ∀ v ∈ s.value?, P v

/-- No text in the tree goes on to another line. -/
abbrev OneLine : Tree → Prop := AllTexts fun v => '\n' ∉ v.toList

@[simp] theorem allTexts_node {P : String → Prop} {tag : Tag} {value : Option String}
    {children : List Tree} : (node tag value children).AllTexts P ↔
      (∀ v ∈ value, P v) ∧ ∀ c ∈ children, c.AllTexts P := forall_mem_subtrees_node

@[simp] theorem allTexts_leaf {P : String → Prop} {tag : Tag} {text : String} :
    (leaf tag text).AllTexts P ↔ P text := by
  simp [leaf]

end Tree

/-- The texts of a tree are lexemes and the signs of operators. -/
theorem Derives.allTexts {P : String → Prop} (hsymbol : ∀ op : Operator, P op.symbol) {part : Part}
    {n : Nat} {w : List Token} {ts : List Tree} (h : Derives part n w ts)
    (hw : ∀ t ∈ w, P t.lexeme) : ∀ t ∈ ts, t.AllTexts P := by
  induction h with
  | _ => simp_all [Tree.binary]

/-- The tree of a source text shows each of its texts on one line. -/
theorem oneLine_of_tokenize {source : String} {lines : List TokenLine}
    (h : tokenize source = .ok lines) : (parse (TokenLine.flatten lines)).tree.OneLine := by
  obtain ⟨w, rest, ss, hw, hstatements, htree⟩ :=
    exists_derives_tree maxNesting (TokenLine.flatten lines)
  have hlexeme (t : Token) (ht : t ∈ w) : '\n' ∉ t.lexeme.toList :=
    tokenize_lexeme_lineFeed h t (hw ▸ List.mem_append_left rest ht)
  have hsymbol (op : Operator) : '\n' ∉ op.symbol.toList := by cases op <;> decide
  have hss : ∀ s ∈ ss, s.OneLine := hstatements.allTexts hsymbol hlexeme
  rw [parse, htree]
  simpa [Tree.program] using hss

/-! ### Rows -/

theorem Tag.ofName?_name (tag : Tag) : Tag.ofName? tag.name = some tag := by
  cases tag <;> decide

theorem Tag.name_chars (tag : Tag) :
    ∀ c ∈ tag.name.toList, c ≠ ' ' ∧ c ≠ '(' ∧ c ≠ '\n' := by
  have hall : (tag.name.toList.all fun c => c ≠ ' ' ∧ c ≠ '(' ∧ c ≠ '\n') = true := by
    cases tag <;> decide
  simpa using hall

theorem Tag.name_ne_nil (tag : Tag) : tag.name.toList ≠ [] := by
  cases tag <;> decide

namespace TreeRow

/-- The text of the row without its line feed. -/
def line (row : TreeRow) : List Char := row.text.dropLast

/-- The row that a line shows, if the name of a sort stands behind its blanks. -/
def ofLine? (line : List Char) : Option TreeRow :=
  let word := line.dropWhile (· = ' ')
  (Tag.ofName? (String.ofList (word.takeWhile (· ≠ '(')))).map fun tag =>
    { depth := (line.takeWhile (· = ' ')).length / 2
      tag := tag
      value := match word.dropWhile (· ≠ '(') with
        | [] => none
        | _ :: shown => some (String.ofList shown.dropLast) }

theorem text_eq (row : TreeRow) : row.text = row.line ++ ['\n'] := by
  rw [line, text, List.dropLast_concat]

/-- What a row shows behind the name of its sort. -/
def shown (row : TreeRow) : List Char :=
  match row.value with
  | none => []
  | some v => '(' :: v.toList ++ [')']

theorem line_eq (row : TreeRow) :
    row.line = List.replicate (2 * row.depth) ' ' ++ (row.tag.name.toList ++ row.shown) := by
  rw [line, text, List.dropLast_concat, List.append_assoc]
  rfl

/-- A line tells its row. -/
theorem ofLine?_line (row : TreeRow) : ofLine? row.line = some row := by
  have hblanks : ∀ c ∈ List.replicate (2 * row.depth) ' ', decide (c = ' ') = true := by
    simp
  have hword : ∀ c ∈ (row.tag.name.toList ++ row.shown).head?, decide (c = ' ') = false := by
    intro c hc
    rw [List.head?_append_of_ne_nil _ row.tag.name_ne_nil] at hc
    simpa using (row.tag.name_chars c (List.mem_of_mem_head? hc)).1
  have hname : ∀ c ∈ row.tag.name.toList, decide (c ≠ '(') = true := by
    intro c hc
    simpa using (row.tag.name_chars c hc).2.1
  have hparen : ∀ c ∈ row.shown.head?, decide (c ≠ '(') = false := by
    rw [shown]
    cases row.value <;> simp
  rw [ofLine?, line_eq, dropWhile_run hblanks hword, takeWhile_run hblanks hword,
    takeWhile_run hname hparen, dropWhile_run hname hparen, String.ofList_toList, Tag.ofName?_name,
    Option.map_some, List.length_replicate, Nat.mul_div_cancel_left _ Nat.two_pos]
  obtain ⟨depth, tag, value⟩ := row
  cases value with
  | none => rfl
  | some v => simp [shown]

theorem lineFeed_not_mem_line {row : TreeRow} (h : ∀ v ∈ row.value, '\n' ∉ v.toList) :
    '\n' ∉ row.line := by
  have hname : '\n' ∉ row.tag.name.toList := fun hfeed => (row.tag.name_chars _ hfeed).2.2 rfl
  have hshown : '\n' ∉ row.shown := by
    rw [shown]
    cases hvalue : row.value with
    | none => simp
    | some v => simp [h v hvalue]
  rw [line_eq]
  simp [hname, hshown]

/-- The row in front of trees, each with the depth of its root: the first of them, as far as they lie
deeper, come below it. -/
def above (row : TreeRow) (trees : List (Nat × Tree)) : List (Nat × Tree) :=
  (row.depth, .node row.tag row.value ((trees.takeWhile (row.depth < ·.1)).map (·.2))) ::
    trees.dropWhile (row.depth < ·.1)

end TreeRow

/-- Lines of rows, each ended by a line feed, with nothing behind the last one. -/
theorem splitOn_flatMap_text {rows : List TreeRow}
    (h : ∀ row ∈ rows, ∀ v ∈ row.value, '\n' ∉ v.toList) :
    (rows.flatMap TreeRow.text).splitOn '\n' = rows.map TreeRow.line ++ [[]] := by
  induction rows with
  | nil => rfl
  | cons row rows ih =>
    rw [List.forall_mem_cons] at h
    have hline : ∀ c ∈ row.line, (c == '\n') = false := by
      rintro c hc
      rw [beq_eq_false_iff_ne]
      rintro rfl
      exact TreeRow.lineFeed_not_mem_line h.1 hc
    rw [List.flatMap_cons, TreeRow.text_eq, List.append_assoc, List.singleton_append, List.map_cons,
      List.cons_append, ← ih h.2]
    exact List.splitOnP_append_cons_of_forall_mem hline '\n' (beq_self_eq_true '\n') _

namespace Tree

mutual

/-- The rows of a tree are its nodes. -/
theorem rows_eq_subtrees (depth : Nat) : ∀ t : Tree,
    (t.rows depth).map (fun row => (row.tag, row.value)) = t.subtrees.map fun s => (s.tag, s.value?)
  | node tag value children => by
    rw [rows, subtrees, List.map_cons, List.map_cons, rowsOfAll_eq_subtrees]
    rfl

theorem rowsOfAll_eq_subtrees (depth : Nat) : ∀ ts : List Tree,
    (rowsOfAll depth ts).map (fun row => (row.tag, row.value)) =
      (subtreesOfAll ts).map fun s => (s.tag, s.value?)
  | [] => rfl
  | t :: ts => by
    rw [rowsOfAll, subtreesOfAll, List.map_append, List.map_append, rows_eq_subtrees,
      rowsOfAll_eq_subtrees]

end

mutual

theorem length_rows (depth : Nat) : ∀ t : Tree, (t.rows depth).length = t.count
  | node tag value children => by
    rw [rows, count, List.length_cons, length_rowsOfAll]

theorem length_rowsOfAll (depth : Nat) : ∀ ts : List Tree, (rowsOfAll depth ts).length = countAll ts
  | [] => rfl
  | t :: ts => by
    rw [rowsOfAll, countAll, List.length_append, length_rows, length_rowsOfAll]

end

mutual

/-- Put together from its rows, a tree stands in front of what does not lie deeper than its root. -/
theorem foldr_above_rows {depth : Nat} {trees : List (Nat × Tree)}
    (h : ∀ e ∈ trees.head?, e.1 ≤ depth) : ∀ t : Tree,
    (t.rows depth).foldr TreeRow.above trees = (depth, t) :: trees
  | node tag value children => by
    have hdeeper : ∀ e ∈ children.map fun c => (depth + 1, c), decide (depth < e.1) = true := by
      simp
    have hrest : ∀ e ∈ trees.head?, decide (depth < e.1) = false := by
      simpa using h
    rw [rows, List.foldr_cons, foldr_above_rowsOfAll (fun e he => Nat.le_succ_of_le (h e he)),
      TreeRow.above, takeWhile_run hdeeper hrest, dropWhile_run hdeeper hrest]
    simp

theorem foldr_above_rowsOfAll {depth : Nat} {trees : List (Nat × Tree)}
    (h : ∀ e ∈ trees.head?, e.1 ≤ depth) : ∀ ts : List Tree,
    (rowsOfAll depth ts).foldr TreeRow.above trees = ts.map (fun t => (depth, t)) ++ trees
  | [] => rfl
  | t :: ts => by
    have hmore : ∀ e ∈ (ts.map (fun t => (depth, t)) ++ trees).head?, e.1 ≤ depth := by
      cases ts with
      | nil => exact h
      | cons t ts => simp
    rw [rowsOfAll, List.foldr_append, foldr_above_rowsOfAll h, foldr_above_rows hmore,
      List.map_cons, List.cons_append]

end

/-- The trees that a text shows, put together from its last line to its first. -/
def ofText (text : String) : List Tree :=
  (((text.toList.splitOn '\n').filterMap TreeRow.ofLine?).foldr TreeRow.above []).map (·.2)

variable {t : Tree}

theorem OneLine.splitOn_render (h : t.OneLine) :
    t.render.toList.splitOn '\n' = (t.rows 0).map TreeRow.line ++ [[]] := by
  rw [render, String.toList_ofList]
  refine splitOn_flatMap_text fun row hrow v hv => ?_
  have hmem := List.mem_map_of_mem (f := fun row : TreeRow => (row.tag, row.value)) hrow
  rw [rows_eq_subtrees, List.mem_map] at hmem
  obtain ⟨s, hs, heq⟩ := hmem
  exact h s hs v ((congrArg Prod.snd heq).trans hv)

/-- A written tree is all that its text shows. -/
theorem OneLine.ofText_render (h : t.OneLine) : ofText t.render = [t] := by
  have hlines : ((t.rows 0).map TreeRow.line ++ [[]]).filterMap TreeRow.ofLine? = t.rows 0 := by
    have hline : TreeRow.ofLine? ∘ TreeRow.line = some := funext TreeRow.ofLine?_line
    rw [List.filterMap_append, List.filterMap_map, hline, List.filterMap_some]
    exact List.append_nil _
  rw [ofText, h.splitOn_render, hlines, foldr_above_rows (by simp), List.map_singleton]

end Tree

/-- Trees with the same printed form are the same, where no text goes on to another line. The printed
form then has a line for each node, a node before what lies below it, and nothing behind the last line
feed. No text in the tree of a source text goes on to another line. -/
theorem render_faithful :
    (∀ s t : Tree, s.OneLine → t.OneLine → s.render = t.render → s = t) ∧
    (∀ t : Tree, t.OneLine → t.render.toList.splitOn '\n' = (t.rows 0).map TreeRow.line ++ [[]] ∧
      (t.rows 0).length = t.count ∧
      (t.rows 0).map (fun row => (row.tag, row.value)) = t.subtrees.map fun s => (s.tag, s.value?)) ∧
    (∀ source lines, tokenize source = .ok lines →
      (parse (TokenLine.flatten lines)).tree.OneLine) := by
  refine ⟨fun s t hs ht heq => ?_, fun t ht => ?_, fun source lines => oneLine_of_tokenize⟩
  · have hread := hs.ofText_render
    rw [heq, ht.ofText_render] at hread
    exact (List.singleton_injective hread).symm
  · exact ⟨ht.splitOn_render, t.length_rows 0, t.rows_eq_subtrees 0⟩

/-- A block over `EXPR`, below which a name lies, where the text of the block looks like another row. -/
def nestedName : Tree :=
  .node .block (some "EXPR)(\r  EXPR") [.node .expr none [.leaf .identifier "x"]]

/-- The same nodes in the same order, with the name beside `EXPR`. -/
def besideName : Tree :=
  .node .block (some "EXPR)(\r  EXPR") [.node .expr none [], .leaf .identifier "x"]

theorem nestedName_apart : nestedName.render ≠ besideName.render ∧
    nestedName.render.toList.splitOn '\n' = ["BLOCK(EXPR)(\r  EXPR)".toList, "  EXPR".toList,
      "    IDENTIFIER(x)".toList, []] ∧
    ∃ lines, tokenize "x" = .ok lines ∧ (parse (TokenLine.flatten lines)).tree.OneLine := by
  have hnested : nestedName.OneLine := by simp [nestedName]
  have hbeside : besideName.OneLine := by simp [besideName]
  have htokens : tokenize "x" = .ok [⟨1, [⟨.identifier, "x", ⟨1, 1, 1⟩⟩]⟩] := by decide +kernel
  refine ⟨fun h => ?_, ?_, _, htokens, render_faithful.2.2 _ _ htokens⟩
  · exact absurd (render_faithful.1 nestedName besideName hnested hbeside h) (by decide)
  · exact (render_faithful.2.1 nestedName hnested).1.trans (by decide)

end SlangScript
