import SlangScript.Proofs.Positions
import SlangScript.Proofs.Tables
import SlangScript.Proofs.ValidityRules

/-! The numbers in the line lists of accepted texts: each names a line of the text. -/
namespace SlangScript

/-- The tree is that of a line list among these tokens. -/
def FromLineList (w : List Token) (t : Tree) : Prop :=
  ∃ x s o c inside m, (x :: s :: o :: (inside ++ [c])) <:+: w ∧ x.isLine ∧
    s.operator? = some .assign ∧ o.kind = .bracket .openBracket ∧ c.kind = .bracket .closeBracket ∧
    Derives (.listed .number) m inside t.children

/-- Every line list in the tree is one among these tokens. -/
def Tree.LineListsFrom (w : List Token) (t : Tree) : Prop :=
  ∀ s ∈ t.subtrees, s.tag = .lineStmt → FromLineList w s

section Closure
variable {w v : List Token} {t : Tree}

theorem Tree.LineListsFrom.of_infix (h : t.LineListsFrom w) (hw : w <:+: v) :
    t.LineListsFrom v := by
  intro s hs htag
  obtain ⟨x, e, o, c, inside, m, hin, hlist⟩ := h s hs htag
  exact ⟨x, e, o, c, inside, m, hin.trans hw, hlist⟩

theorem Tree.LineListsFrom.append_left (h : t.LineListsFrom w) : t.LineListsFrom (w ++ v) :=
  h.of_infix (List.prefix_append w v).isInfix

theorem Tree.LineListsFrom.append_right (h : t.LineListsFrom w) : t.LineListsFrom (v ++ w) :=
  h.of_infix (List.suffix_append v w).isInfix

theorem Tree.LineListsFrom.cons {k : Token} (h : t.LineListsFrom w) : t.LineListsFrom (k :: w) :=
  h.of_infix (List.suffix_cons k w).isInfix

/-- A node of another sort holds the line lists of its children. -/
theorem Tree.lineListsFrom_node {tag : Tag} {value : Option String} {children : List Tree}
    (htag : tag ≠ .lineStmt) : (node tag value children).LineListsFrom w ↔
      ∀ c ∈ children, c.LineListsFrom w := by
  simp only [LineListsFrom, subtrees_node, List.forall_mem_cons, mem_subtreesOfAll, Tree.tag, htag,
    false_imp_iff, true_and]
  constructor
  · exact fun h c hc s hs => h s ⟨c, hc, hs⟩
  · intro h s hs
    obtain ⟨c, hc, hs⟩ := hs
    exact h c hc s hs

end Closure

/-- Whether nothing of the part stands under the name of a line list without being one. -/
def Part.isNamed : Part → Bool
  | .guarded tag => tag ≠ .lineStmt
  | .separated item | .listed item => item.isNamed
  | _ => true

/-- The entries of a line list are its integer tokens. -/
theorem Derives.numbers {n : Nat} {w : List Token} {ns : List Tree}
    (h : Derives (.listed .number) n w ns) :
    ∀ e ∈ ns, ∃ t ∈ w, t.kind = .integer ∧ e = .leaf .integer t.lexeme := by
  cases h with
  | unlisted => nofun
  | listed h =>
    refine h.separated_induction (P := fun w ns => ∀ e ∈ ns, ∃ t ∈ w, t.kind = .integer ∧
      e = .leaf .integer t.lexeme) (fun he => ?_) (fun he _ _ ih => ?_)
    · cases he with
      | number ht => exact List.forall_mem_singleton.mpr ⟨_, .head _, ht, rfl⟩
    · cases he with
      | number ht =>
        refine List.forall_mem_cons.mpr ⟨⟨_, .head _, ht, rfl⟩, fun e he => ?_⟩
        obtain ⟨t, htv, htoken⟩ := ih e he
        exact ⟨t, List.mem_append_right _ (.tail _ htv), htoken⟩

/-- An operand of one token is no line list. -/
theorem lineListsFrom_operand {w : List Token} {kind : TokenKind} {tag : Tag} {text : String}
    (h : Tag.ofOperand? kind = some tag) : (Tree.leaf tag text).LineListsFrom w := by
  refine (Tree.lineListsFrom_node ?_).mpr nofun
  rintro rfl
  cases kind <;> cases h

/-- A line list of a derived tree is read from one among the tokens. -/
theorem Derives.lineListsFrom {part : Part} {n : Nat} {w : List Token} {ts : List Tree}
    (h : Derives part n w ts) (hpart : part.isNamed = true) : ∀ t ∈ ts, t.LineListsFrom w := by
  induction h with
  | literal ht => exact List.forall_mem_singleton.mpr (lineListsFrom_operand ht)
  | stepped ht ho => simpa [Tree.lineListsFrom_node] using lineListsFrom_operand ht
  | binary hl ho hr ihl ihr =>
    rw [List.forall_mem_singleton, Tree.binary, Tree.lineListsFrom_node (by decide),
      List.forall_mem_cons, List.forall_mem_singleton]
    constructor
    · exact (ihl rfl _ (.head _)).append_left
    · exact (ihr rfl _ (.head _)).cons.append_right
  | lineList hx hs ho hns hc ih =>
    rename_i n x s o c w ns
    refine List.forall_mem_singleton.mpr fun t ht htag => ?_
    rw [Tree.subtrees_node, List.mem_cons, Tree.mem_subtreesOfAll] at ht
    rcases ht with rfl | ⟨e, he, ht⟩
    · exact ⟨x, s, o, c, w, n, List.infix_rfl, hx, hs, ho, hc, hns⟩
    · exact (ih rfl e he).append_left.cons.cons.cons t ht htag
  | _ =>
    grind [Part.isNamed, Tree.lineListsFrom_node, Tree.LineListsFrom.cons,
      Tree.LineListsFrom.append_left, Tree.LineListsFrom.append_right, Tree.leaf]

/-- No bracket closes among the entries of a line list. -/
theorem Derives.numbers_open {n : Nat} {w : List Token} {ns : List Tree}
    (h : Derives (.listed .number) n w ns) : ∀ t ∈ w, t.kind ≠ .bracket .closeBracket := by
  cases h with
  | unlisted => nofun
  | listed h =>
    refine h.separated_induction (P := fun w _ => ∀ t ∈ w, t.kind ≠ .bracket .closeBracket)
      (fun he => ?_) (fun he hc _ ih => ?_)
    · cases he with
      | number ht => simp [ht]
    · cases he with
      | number ht => simpa [ht, hc] using ih

/-- In a program that passes its checks, what a line list holds is entries. -/
theorem entries_of_checkTokens {lineCount : Nat} {ts inside : List Token} {x s o c : Token}
    (h : checkTokens lineCount none ts = .ok ()) (hin : (x :: s :: o :: (inside ++ [c])) <:+: ts)
    (hx : x.isLine) (hs : s.operator? = some .assign)
    (hinside : ∀ t ∈ inside, t.kind ≠ .bracket .closeBracket) :
    ∀ t ∈ inside, IsEntry lineCount t := by
  obtain ⟨pre, post, rfl⟩ := hin
  have hheed := checkTokens_none_eq_ok_iff.mp h pre.length
  simp only [List.append_assoc, List.cons_append] at hheed
  obtain ⟨inside', behind, ⟨o', c', hlist, -, hc', -, -⟩, hentries⟩ :=
    (heedsAt_length.mp hheed).lineList hx s rfl hs
  obtain ⟨-, hsplit⟩ := List.cons.inj hlist
  rcases List.append_eq_append_iff.mp hsplit with ⟨more, rfl, -⟩ | ⟨more, rfl, hmore⟩
  · exact fun t ht => hentries t (List.mem_append_left more ht)
  · cases more with
    | nil => simpa using hentries
    | cons t more =>
      obtain ⟨rfl, -⟩ := List.cons.inj hmore
      exact absurd hc' (hinside c' (by simp))

theorem tokenize_length {source : String} {lines : List TokenLine} (h : tokenize source = .ok lines) :
    lines.length = source.toList.count '\n' + 1 := by
  rw [(tokenize_eq_ok_iff.mp h).2.length_eq, length_splitOn_lineFeed]

/-- An integer token is written with digits only. -/
theorem IsLexeme.integer_digits {w rest : List Char} (h : IsLexeme .integer w rest) :
    w ≠ [] ∧ ∀ c ∈ w, c.isDigit = true := by
  cases h with
  | integer hw hp =>
    refine ⟨?_, fun c hc => (hw.chars c hc).resolve_right ?_⟩
    · rintro rfl
      obtain ⟨_, hmem, -⟩ := hw.hasDigit
      cases hmem
    · rintro rfl
      exact hp hc

/-- Every number in a line list of an accepted text is that of a line of the text. -/
theorem analyze_lineNumbers {source : String} {a : Analysis} (h : analyze source = .ok a) :
    ∀ t ∈ a.tree.subtrees, t.tag = .lineStmt → ∀ c ∈ t.children, c.tag = .integer →
      ∃ digits, c.value? = some (String.ofList digits) ∧ digits ≠ [] ∧
        (∀ d ∈ digits, d.isDigit = true) ∧ 1 ≤ decimalValue digits ∧
        decimalValue digits ≤ source.toList.count '\n' + 1 := by
  intro t ht htag e he _
  obtain ⟨hlex, herrors, htree⟩ := analyze_eq_ok_iff.mp h
  obtain ⟨htokens, hchecks⟩ := lex_eq_ok_iff.mp hlex
  obtain ⟨ss, -, hd, hprogram⟩ := derives_of_parse herrors
  have hfrom : (Tree.program ss).LineListsFrom (TokenLine.flatten a.lines) := by
    simpa [Tree.program, Tree.lineListsFrom_node] using hd.lineListsFrom rfl
  rw [htree, hprogram] at ht
  obtain ⟨x, s, o, c, inside, m, hin, hx, hs, -, -, hnumbers⟩ := hfrom t ht htag
  obtain ⟨n, hn, hkind, rfl⟩ := hnumbers.numbers e he
  have hmem : n ∈ TokenLine.flatten a.lines := hin.subset (by simp [hn])
  obtain ⟨rest, hlexeme⟩ := tokenize_isLexeme htokens n hmem
  rw [hkind] at hlexeme
  obtain ⟨hne, hdigits⟩ := hlexeme.integer_digits
  rcases entries_of_checkTokens hchecks hin hx hs hnumbers.numbers_open n hn with
    hcomma | ⟨-, value, ⟨digits, htext, -, -, rfl⟩, -, hpos, hle⟩
  · rw [hkind] at hcomma
    cases hcomma
  · rw [tokenize_length htokens] at hle
    rcases htext with rfl | hplus
    · exact ⟨n.lexeme.toList, by simp [Tree.leaf, Tree.value?], hne, hdigits, hpos, hle⟩
    · exact absurd (hdigits '+' (by simp [hplus])) (by decide)

/-- The second of two lines is named by `002`. -/
theorem analyze_lineNumbers_secondLine : ∃ a t c, analyze "line = [002];\nx" = .ok a ∧
    t ∈ a.tree.subtrees ∧ t.tag = .lineStmt ∧ c ∈ t.children ∧ c.tag = .integer ∧
    ∃ digits, c.value? = some (String.ofList digits) ∧ digits ≠ [] ∧
      (∀ d ∈ digits, d.isDigit = true) ∧ 1 ≤ decimalValue digits ∧
      decimalValue digits ≤ "line = [002];\nx".toList.count '\n' + 1 := by
  have hok : (analyze "line = [002];\nx").toOption.any (fun a =>
      .node .lineStmt none [.leaf .integer "002"] ∈ a.tree.subtrees) = true := by decide +kernel
  obtain ⟨a, ha, hmem⟩ := exists_ok_of_any hok
  have ht := of_decide_eq_true hmem
  exact ⟨a, _, _, ha, ht, rfl, .head _, rfl, analyze_lineNumbers ha _ ht rfl _ (.head _) rfl⟩

end SlangScript
