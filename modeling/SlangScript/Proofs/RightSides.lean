import SlangScript.Proofs.Reprint

/-! The two ways to give a name its value: by assigning to it, and where it is declared. Both take an
expression, but for an array literal: what is assigned ends behind it, even where an operator follows. -/
namespace SlangScript

/-- What may stand behind a simple statement: a semicolon, if there is one, and further statements. -/
def Trailing (n : Nat) (v : List Token) (more : List Tree) : Prop :=
  Derives .statements n v more ∨
    ∃ c rest, v = c :: rest ∧ c.kind = .delimiter .semicolon ∧ Derives .statements n rest more

/-- The statement that assigns a value to a name. -/
def Tree.assignment (name : String) (op : Operator) (value : Tree) : Tree :=
  node .exprStmt none [node .assignmentOp (some op.symbol) [leaf .identifier name, value]]

/-- The declaration of a name with a value. -/
def Tree.initialised (word name : String) (op : Operator) (value : Tree) : Tree :=
  node .declaration (some word) [node .assignOp (some op.symbol) [leaf .identifier name, value]]

section Statements
variable {n : Nat} {d x o t : Token} {op : Operator} {w v e : List Token} {s : Tree}
  {ss more : List Tree}

/-- Neither a semicolon nor a statement begins with an operator. -/
theorem Trailing.noOperator (h : Trailing n v more) : NoOperator v := by
  rcases h with hd | ⟨c, rest, rfl, hc, -⟩
  · cases hd with
    | done => exact next_nil _
    | next hs hss =>
      refine ((hs.begins rfl).append (hs.ne_nil rfl)).mono fun t ht => ?_
      cases hk : t.kind <;> simp_all [Token.begins, Token.operator?]
  · exact noOperator_of_delimiter hc

theorem Derives.statements_of_simple (h : Derives .simple n w [s]) (hv : Trailing n v more) :
    Derives .statements n (w ++ v) (s :: more) := by
  rcases hv with hd | ⟨c, rest, rfl, hc, hd⟩
  · exact .next (.unterminated h) hd
  · simpa using Derives.next (.terminated h hc) hd

/-- The word of a declaration opens nothing else. -/
theorem Token.declares.isDeclarationWord {word : String} (h : t.declares)
    (hword : t.isWord word = true) : isDeclarationWord word = true :=
  of_decide_eq_true (Bool.and_eq_true_iff.mp hword).2 ▸ h.2

/-- Statements that begin with a name or with the word of a declaration begin with a simple one. -/
theorem Derives.exists_simple (h : Derives .statements n (t :: w) ss)
    (ht : t.kind = .identifier ∨ t.declares) : ∃ u v s more, t :: w = u ++ v ∧ ss = s :: more ∧
      Derives .simple n u [s] ∧ Trailing n v more := by
  have hword {word : String} (hk : t.isWord word = true) (hno : isDeclarationWord word = false) :
      False := by
    rcases ht with ht | ht
    · exact ne_identifier_of_isWord (Bool.and_eq_true_iff.mp hk).1 ht
    · exact Bool.false_ne_true (hno.symm.trans (ht.isDeclarationWord hk))
  generalize hw : t :: w = tokens at h
  cases h with
  | done => cases hw
  | next hs hss =>
    rename_i u v s more
    cases hs with
    | unterminated hs => exact ⟨u, v, s, more, rfl, rfl, hs, .inl hss⟩
    | terminated hs hc =>
      rename_i c u
      exact ⟨u, c :: v, s, more, by simp, rfl, hs, .inr ⟨c, v, rfl, hc, hss⟩⟩
    | ifChain hk | forLoop hk | whileLoop hk | switch hk | definition hk =>
      cases hw
      exact (hword hk rfl).elim
    | block hb =>
      cases hb with
      | braces ho =>
        cases hw
        rcases ht with ht | ht
        · rw [ho] at ht
          cases ht
        · have hkind := ht.1
          rw [ho] at hkind
          cases hkind

/-- Nothing that ends in front of an operator is a complete statement. -/
theorem Trailing.not_operator (h : Trailing n (o :: e) more) (ho : o.operator? = some op) : False := by
  have hnone := (next_cons _ _ _).mp h.noOperator
  rw [ho] at hnone
  cases hnone

/-- A name with an assignment operator behind it begins an assignment. -/
theorem Derives.exists_assigned (h : Derives .statements n (x :: o :: e) ss)
    (hx : x.kind = .identifier) (hline : x.isLine → op ≠ .assign) (ho : o.operator? = some op)
    (hop : op.isAssignment = true) : ∃ w v value more, e = w ++ v ∧
      ss = .assignment x.lexeme op value :: more ∧ Derives .assigned n w [value] ∧
      Trailing n v more := by
  obtain ⟨u, v, s, more, htokens, rfl, hs, hv⟩ := h.exists_simple (.inl hx)
  cases hs with
  | alone =>
    cases htokens
    exact (hv.not_operator ho).elim
  | counted _ ho' hop' =>
    cases htokens
    cases ho.symm.trans ho'
    rw [Operator.isAssignment_eq_false hop'] at hop
    cases hop
  | assignment _ ho' _ _ he =>
    cases htokens
    cases ho.symm.trans ho'
    exact ⟨_, v, _, more, rfl, rfl, he, hv⟩
  | lineList hx' hs =>
    cases htokens
    cases ho.symm.trans hs
    exact absurd rfl (hline hx')
  | called he =>
    cases he with
    | call hf =>
      cases htokens
      rw [hx] at hf
      cases hf
  | declaration hk | initialised hk =>
    cases htokens
    exact absurd hx hk.ne_identifier
  | print hk | input hk | reply hk =>
    rw [← List.head_eq_of_cons_eq htokens] at hk
    exact absurd hx (ne_identifier_of_isWord (Bool.and_eq_true_iff.mp hk).1)

/-- So it does behind the word of a declaration, where its value may be any expression. -/
theorem Derives.exists_initialised (h : Derives .statements n (d :: x :: o :: e) ss)
    (hd : d.declares) (ho : o.operator? = some op) : ∃ w v value more, e = w ++ v ∧
      ss = .initialised d.lexeme x.lexeme op value :: more ∧ Derives .expression n w [value] ∧
      Trailing n v more := by
  obtain ⟨u, v, s, more, htokens, rfl, hs, hv⟩ := h.exists_simple (.inr hd)
  cases hs with
  | declaration =>
    cases htokens
    exact (hv.not_operator ho).elim
  | initialised _ _ ho' _ he =>
    cases htokens
    cases ho.symm.trans ho'
    exact ⟨_, v, _, more, rfl, rfl, he, hv⟩
  | print hk | input hk | reply hk =>
    rw [← List.head_eq_of_cons_eq htokens] at hk
    cases hd.isDeclarationWord hk
  | called he =>
    cases he with
    | call hf =>
      rw [← List.head_eq_of_cons_eq htokens] at hf
      exact absurd hd.1 (by rw [hf]; nofun)
  | lineList hx' =>
    rw [← List.head_eq_of_cons_eq htokens] at hx'
    exact absurd hx'.1 hd.ne_identifier
  | alone hx' | counted hx' | assignment hx' =>
    rw [← List.head_eq_of_cons_eq htokens] at hx'
    exact absurd hx' hd.ne_identifier

/-- What may be assigned is an expression, and no chain of operators where it begins with a bracket. -/
theorem Derives.assigned_iff {value : Tree} : Derives .assigned n w [value] ↔
    Derives .expression n w [value] ∧
      (Next (·.kind ≠ .bracket .openBracket) w ∨ value.tag ≠ .binaryOp) := by
  constructor
  · intro h
    cases h with
    | assignedArray ha =>
      refine ⟨.single (.arrayOperand ha), .inr ?_⟩
      cases ha
      nofun
    | assignedExpression he hw => exact ⟨he, .inl hw⟩
  · rintro ⟨he, hw | htag⟩
    · exact .assignedExpression he hw
    · rcases (he.operand_of_tag_ne htag).operand_bracket with hw | ha
      · exact .assignedExpression he hw
      · exact .assignedArray ha

end Statements

section Programs
variable {d x o : Token} {op : Operator} {w v e : List Token} {value : Tree} {more : List Tree}

theorem parse_assignment (hx : x.kind = .identifier) (hline : x.isLine → op ≠ .assign)
    (ho : o.operator? = some op) (hop : op.isAssignment = true)
    (hw : Derives .assigned maxNesting w [value]) (hv : Trailing maxNesting v more) :
    parse (x :: o :: (w ++ v)) =
      ⟨Tree.program (.assignment x.lexeme op value :: more), []⟩ :=
  parse_of_derives (Derives.statements_of_simple (.assignment hx ho hop hline hw) hv)
    (List.cons_ne_nil _ _)

theorem parse_initialised (hd : d.declares) (hx : x.kind = .identifier)
    (ho : o.operator? = some op) (hop : op.isAssignment = true)
    (hw : Derives .expression maxNesting w [value]) (hv : Trailing maxNesting v more) :
    parse (d :: x :: o :: (w ++ v)) =
      ⟨Tree.program (.initialised d.lexeme x.lexeme op value :: more), []⟩ :=
  parse_of_derives (Derives.statements_of_simple (.initialised hd hx ho hop hw) hv)
    (List.cons_ne_nil _ _)

/-- What may be assigned to a name it may be declared with, to the same effect. The converse holds
unless an array literal begins a chain of operators there: this may be declared, but not assigned. -/
theorem rightSides_agree_iff (hd : d.declares) (hx : x.kind = .identifier)
    (hline : x.isLine → op ≠ .assign) (ho : o.operator? = some op) (hop : op.isAssignment = true) :
    ((parse (x :: o :: e)).errorCount = 0 → (parse (d :: x :: o :: e)).errorCount = 0) ∧
    ((parse (d :: x :: o :: e)).errorCount = 0 → ∃ value more,
      (parse (d :: x :: o :: e)).tree =
        Tree.program (.initialised d.lexeme x.lexeme op value :: more) ∧
      ((parse (x :: o :: e)).errorCount = 0 ↔
        Next (·.kind ≠ .bracket .openBracket) e ∨ value.tag ≠ .binaryOp) ∧
      ((parse (x :: o :: e)).errorCount = 0 →
        (parse (x :: o :: e)).tree = Tree.program (.assignment x.lexeme op value :: more))) := by
  constructor
  · intro hacc
    obtain ⟨ss, -, hss, -⟩ := derives_of_parse (List.length_eq_zero_iff.mp hacc)
    obtain ⟨w, v, value, more, rfl, -, hw, hv⟩ := hss.exists_assigned hx hline ho hop
    rw [parse_initialised hd hx ho hop (Derives.assigned_iff.mp hw).1 hv]
    rfl
  · intro hacc
    obtain ⟨ss, -, hss, -⟩ := derives_of_parse (List.length_eq_zero_iff.mp hacc)
    obtain ⟨w, v, value, more, rfl, -, hw, hv⟩ := hss.exists_initialised hd ho
    have hinitialised := parse_initialised hd hx ho hop hw hv
    have hassign (h : Next (·.kind ≠ .bracket .openBracket) (w ++ v) ∨ value.tag ≠ .binaryOp) :
        parse (x :: o :: (w ++ v)) =
          ⟨Tree.program (.assignment x.lexeme op value :: more), []⟩ :=
      parse_assignment hx hline ho hop (Derives.assigned_iff.mpr
        ⟨hw, h.imp_left fun hnext => hnext.of_append (hw.ne_nil rfl)⟩) hv
    have hallowed (hacc : (parse (x :: o :: (w ++ v))).errorCount = 0) :
        Next (·.kind ≠ .bracket .openBracket) (w ++ v) ∨ value.tag ≠ .binaryOp := by
      obtain ⟨ss', -, hss', -⟩ := derives_of_parse (List.length_eq_zero_iff.mp hacc)
      obtain ⟨w', v', value', more', htokens, -, hw', hv'⟩ := hss'.exists_assigned hx hline ho hop
      obtain ⟨hexpression, hkind⟩ := Derives.assigned_iff.mp hw'
      -- the declaration with the value that was assigned is the one that was read
      rw [htokens, parse_initialised hd hx ho hop hexpression hv'] at hinitialised
      obtain ⟨rfl, -⟩ : value' = value ∧ more' = more := by
        simpa [Tree.program, Tree.initialised] using hinitialised
      rw [htokens]
      exact hkind.imp_left fun hnext => hnext.append (hexpression.ne_nil rfl)
    refine ⟨value, more, by rw [hinitialised], ⟨hallowed, fun h => ?_⟩, fun hacc => ?_⟩
    · rw [hassign h]
      rfl
    · rw [hassign (hallowed hacc)]

end Programs

open Token

/-- `[1]; y`. -/
def arrayThenName : List Token :=
  [ofBracket .openBracket, ⟨.integer, "1", .origin⟩, ofBracket .closeBracket,
    ofDelimiter .semicolon, ofName "y"]

theorem rightSides_agree_array :
    (parse (ofName "x" :: ofOperator .assign :: arrayThenName)).errorCount = 0 ∧
    ∃ value more, (parse (ofWord "flex" :: ofName "x" :: ofOperator .assign :: arrayThenName)).tree =
        Tree.program (.initialised "flex" "x" .assign value :: more) ∧
      (parse (ofName "x" :: ofOperator .assign :: arrayThenName)).tree =
        Tree.program (.assignment "x" .assign value :: more) := by
  have hacc : (parse (ofName "x" :: ofOperator .assign :: arrayThenName)).errorCount = 0 := by
    decide +kernel
  have hassign : (ofOperator .assign).operator? = some .assign := rfl
  obtain ⟨hdeclared, hsame⟩ := rightSides_agree_iff (d := ofWord "flex") (x := ofName "x")
    (e := arrayThenName) ⟨rfl, rfl⟩ rfl (fun hline => absurd hline.2 (by decide)) hassign rfl
  obtain ⟨value, more, htree, -, hassigned⟩ := hsame (hdeclared hacc)
  exact ⟨hacc, value, more, htree, hassigned hacc⟩

/-- `[1] + 2`. -/
def arrayChain : List Token :=
  [ofBracket .openBracket, ⟨.integer, "1", .origin⟩, ofBracket .closeBracket, ofOperator .add,
    ⟨.integer, "2", .origin⟩]

theorem arrayChain_only_declared :
    (parse (ofWord "flex" :: ofName "x" :: ofOperator .assign :: arrayChain)).errorCount = 0 ∧
      (parse (ofName "x" :: ofOperator .assign :: arrayChain)).errorCount = 1 := by
  constructor <;> decide +kernel

end SlangScript
