import Mathlib.Data.List.Chain
import SlangScript.Proofs.Tables
import SlangScript.Proofs.UnnamedTrees

/-! The name `line`. For the checks it opens a line list wherever `=` follows, for the grammar at the
front of a statement. They disagree where a program gives the name a value or takes it as an operand
before `=`, and everywhere else it is a name like any other. -/
namespace SlangScript

namespace Tree

/-- The name `line`, or a chain of operands that ends in it. -/
def EndsInLine (t : Tree) : Prop :=
  t = leaf .identifier "line" ∨ ∃ op l, t = binary op l (leaf .identifier "line")

/-- A value for the name `line` where it is declared, or `=` behind `line` as an operand. -/
def AssignsLine (t : Tree) : Prop :=
  (∃ e, t = node .assignOp (some Operator.assign.symbol) [leaf .identifier "line", e]) ∨
    ∃ l r, t = binary .assign l r ∧ l.EndsInLine

/-- Neither a line list nor a value for the name `line`. -/
def Lineless (t : Tree) : Prop := ∀ s ∈ t.subtrees, s.tag ≠ .lineStmt ∧ ¬ s.AssignsLine

@[simp] theorem lineless_node (tag : Tag) (value : Option String) (children : List Tree) :
    (node tag value children).Lineless ↔
      (tag ≠ .lineStmt ∧ ¬ (node tag value children).AssignsLine) ∧ ∀ c ∈ children, c.Lineless :=
  forall_mem_subtrees_node

theorem lineless_children {tag : Tag} {value : Option String} {children : List Tree}
    (h : ∀ t ∈ [node tag value children], t.Lineless) : ∀ c ∈ children, c.Lineless :=
  ((lineless_node tag value children).mp (h _ (.head _))).2

theorem lineless_cons {t : Tree} {ts : List Tree} (h : ∀ s ∈ t :: ts, s.Lineless) :
    (∀ s ∈ [t], s.Lineless) ∧ ∀ s ∈ ts, s.Lineless := by
  rw [List.forall_mem_cons] at h
  exact ⟨List.forall_mem_singleton.mpr h.1, h.2⟩

end Tree

/-- Nowhere does `=` follow the name `line`. -/
def Listless (w : List Token) : Prop :=
  w.IsChain fun t s => t.isLine → s.operator? ≠ some .assign

open SlangScript.Tree

section Tokens
variable {t o c : Token} {w v : List Token} {b : Bracket} {d : Delimiter}

theorem NoOperator.noAssign (h : NoOperator w) : NoAssign w :=
  h.mono fun t ht hassign => by simp [ht] at hassign

namespace Listless

theorem nil : Listless [] := List.IsChain.nil

theorem singleton (t : Token) : Listless [t] := List.isChain_singleton t

/-- Only behind the name `line` it matters what comes next. -/
theorem name (h : Listless w) (hnext : t.isLine → NoAssign w) : Listless (t :: w) := by
  rw [Listless, List.isChain_cons]
  exact ⟨fun s hs hline => hnext hline s hs, h⟩

theorem join (h : Listless w) (hv : Listless v)
    (hnext : ∀ t, w.getLast? = some t → t.isLine → NoAssign v) : Listless (w ++ v) := by
  rw [Listless, List.isChain_append]
  exact ⟨h, hv, fun t ht s hs hline => hnext t ht hline s hs⟩

theorem cons (ht : t.kind ≠ .identifier) (h : Listless w) : Listless (t :: w) :=
  h.name fun hline => absurd hline.1 ht

theorem append (h : Listless w) (hv : Listless v) (hnext : NoAssign v) : Listless (w ++ v) :=
  h.join hv fun _ _ _ => hnext

theorem word (hk : t.kind.isWord = true) (h : Listless w) : Listless (t :: w) :=
  .cons (ne_identifier_of_isWord hk) h

theorem operator {op : Operator} (ho : o.operator? = some op) (h : Listless w) :
    Listless (o :: w) := .cons (by rw [Token.operator?_eq_some_iff.mp ho]; nofun) h

theorem bracket (hc : c.kind = .bracket b) (h : Listless w) : Listless (c :: w) :=
  .cons (by rw [hc]; nofun) h

theorem behind_bracket (h : Listless w) (hc : c.kind = .bracket b) (hv : Listless v) :
    Listless (w ++ c :: v) :=
  h.append (.bracket hc hv) (noOperator_of_bracket hc).noAssign

theorem behind_delimiter (h : Listless w) (hc : c.kind = .delimiter d) (hv : Listless v) :
    Listless (w ++ c :: v) :=
  h.append (.cons (by rw [hc]; nofun) hv) (noOperator_of_delimiter hc).noAssign

theorem enclosed {b' : Bracket} (ho : o.kind = .bracket b) (h : Listless w)
    (hc : c.kind = .bracket b') : Listless (o :: (w ++ [c])) :=
  .bracket ho (h.behind_bracket hc .nil)

theorem pair {op : Operator} (ho : o.operator? = some op) (hop : op ≠ .assign) :
    Listless [t, o] := by
  refine .name (.singleton o) fun _ => ?_
  rw [NoAssign, next_cons, ho]
  simpa using hop

theorem not_opens {before rest : List Token} (h : Listless (before ++ t :: rest)) :
    ¬ OpensLineList t rest := by
  rintro ⟨hline, s, hs, hassign⟩
  have hchain := (List.isChain_append.mp h).2.1
  exact (List.isChain_cons.mp hchain).1 s hs hline hassign

end Listless

end Tokens

section Derivations
variable {n : Nat} {part : Part} {t o c : Token} {w : List Token} {ts : List Tree} {e : Tree}

/-- Brackets end in no name. -/
theorem not_isLine_of_enclosed {b : Bracket} (hc : c.kind = .bracket b)
    (ht : (o :: (w ++ [c])).getLast? = some t) : ¬ t.isLine := by
  rw [← List.cons_append, List.getLast?_concat, Option.some.injEq] at ht
  rintro ⟨hname, -⟩
  rw [← ht, hc] at hname
  cases hname

/-- An operand that ends in the name `line` is this name. -/
theorem Derives.operand_line (h : Derives .operand n w [e]) (ht : w.getLast? = some t)
    (hline : t.isLine) : e = leaf .identifier "line" := by
  cases h with
  | literal hoperand =>
    rw [List.getLast?_singleton, Option.some.injEq] at ht
    rw [ht, hline.1] at hoperand
    cases hoperand
    rw [ht, hline.2]
  | stepped hoperand ho =>
    rw [List.getLast?_cons_cons, List.getLast?_singleton, Option.some.injEq] at ht
    have ho := Token.operator?_eq_some_iff.mp (Option.filter_eq_some_iff.mp ho).1
    rw [ht, hline.1] at ho
    cases ho
  | grouped ho he hc => exact absurd hline (not_isLine_of_enclosed hc ht)
  | arrayOperand ha =>
    cases ha with
    | array ho hs hc => exact absurd hline (not_isLine_of_enclosed hc ht)

theorem Derives.endsInLine (h : Derives .expression n w [e]) (ht : w.getLast? = some t)
    (hline : t.isLine) : e.EndsInLine := by
  cases h with
  | single he => exact .inl (he.operand_line ht hline)
  | binary hl ho hr =>
    rename_i o w v l r op
    have hv : v.getLast? = some t := by
      simpa [List.getLast?_append, List.getLast?_cons, List.getLast?_eq_some_getLast (hr.ne_nil rfl)]
        using ht
    exact .inr ⟨op, l, by rw [hr.operand_line hv hline]⟩

theorem ne_assign_of_incDec {op : Operator} (h : op.isIncDec = true) : op ≠ .assign := by
  rintro rfl
  cases h

theorem kind_isWord {word : String} (h : t.isWord word = true) : t.kind.isWord = true :=
  (Bool.and_eq_true_iff.mp h).1

theorem Derives.branches_noAssign (h : Derives .branches n w ts) : NoAssign w := by
  have hword {e : Token} {v : List Token} (he : e.isWord "else" = true) : NoAssign (e :: v) :=
    noAssign_of_begins ((next_cons _ _ _).mpr (Token.begins_of_isWord (kind_isWord he)))
  cases h with
  | unbranched => exact next_nil _
  | elseIf he hs hb hbs => exact hword he
  | elseBlock he hb => exact hword he

/-- Where a derivation holds no line list and no value for the name `line`, `=` nowhere follows this
name. -/
theorem Derives.listless (h : Derives part n w ts) (hts : ∀ t ∈ ts, t.Lineless) : Listless w := by
  induction h with
  | literal | number | alone => exact .singleton _
  | unlisted | unbranched | done => exact .nil
  | stepped ht ho =>
    obtain ⟨ho, hop⟩ := Option.filter_eq_some_iff.mp ho
    exact .pair ho (ne_assign_of_incDec hop)
  | counted hx ho hop => exact .pair ho (ne_assign_of_incDec hop)
  | arrayOperand _ ih | single _ ih | callElement _ ih | expressionElement _ ih | parameters _ ih
  | one _ ih | listed _ ih | assignedArray _ ih | assignedExpression _ _ ih | called _ ih
  | unterminated _ ih => exact ih hts
  | grouped ho he hc ih => exact .enclosed ho (ih hts) hc
  | array ho hs hc ih | braces ho hs hc ih => exact .enclosed ho (ih (lineless_children hts)) hc
  | call hf ho hs hc ih =>
    exact .cons (by simp [hf]) (.enclosed ho (ih (lineless_children hts)) hc)
  | binary hl ho hr ihl ihr =>
    have hno := ((lineless_node _ _ _).mp (List.forall_mem_singleton.mp hts)).1.2
    obtain ⟨hl', hr'⟩ := lineless_cons (lineless_children hts)
    have ho := (Option.filter_eq_some_iff.mp ho).1
    refine (ihl hl').join (.operator ho (ihr hr')) fun t ht hline => ?_
    rw [NoAssign, next_cons, ho]
    rintro ⟨⟩
    exact hno (.inr ⟨_, _, rfl, hl.endsInLine ht hline⟩)
  | parameter ht hx => exact .word ht (.singleton _)
  | trailingComma hs hc ih => exact (ih hts).behind_delimiter hc .nil
  | more he hc hs ihe ihs =>
    obtain ⟨he', hs'⟩ := lineless_cons hts
    exact (ihe he').behind_delimiter hc (ihs hs')
  | guarded ho he hc hb ihe ihb =>
    obtain ⟨he', hb'⟩ := lineless_cons (lineless_children hts)
    exact .bracket ho ((ihe he').behind_bracket hc (ihb (lineless_children hb')))
  | elseIf he hs hb hbs ihb ihbs =>
    obtain ⟨hb', hbs'⟩ := lineless_cons hts
    exact .word (kind_isWord he) (.word (kind_isWord hs)
      ((ihb hb').append (ihbs hbs') hbs.branches_noAssign))
  | elseBlock he hb ih => exact .word (kind_isWord he) (ih (lineless_children hts))
  | declaration hk hx => exact .word hk.1 (.singleton _)
  | initialised hk hx ho hop he ih =>
    have hts := lineless_children hts
    have hassign := ((lineless_node _ _ _).mp (List.forall_mem_singleton.mp hts)).1.2
    have he' := (lineless_cons (lineless_children hts)).2
    refine .word hk.1 (.name (.operator ho (ih he')) fun hline => ?_)
    rw [NoAssign, next_cons, ho]
    rintro ⟨⟩
    exact hassign (.inl ⟨_, by rw [hline.2]⟩)
  | print hk ho he hc ih =>
    exact .word (kind_isWord hk) (.enclosed ho (ih (lineless_children hts)) hc)
  | input hk ho hx hc =>
    exact .word (kind_isWord hk) (.enclosed (w := [_]) ho (.singleton _) hc)
  | reply hk he ih => exact .word (kind_isWord hk) (ih (lineless_children hts))
  | lineList hx hs ho hns hc ih =>
    have htag := ((lineless_node _ _ _).mp (List.forall_mem_singleton.mp hts)).1.1
    exact absurd rfl htag
  | assignment hx ho hop hno he ih =>
    have he' := (lineless_cons (lineless_children (lineless_children hts))).2
    refine .name (.operator ho (ih he')) fun hline => ?_
    rw [NoAssign, next_cons, ho]
    simpa using hno hline
  | terminated hs ht ih => exact (ih hts).behind_delimiter ht .nil
  | ifChain hk hb hbs ihb ihbs =>
    obtain ⟨hb', hbs'⟩ := lineless_cons (lineless_children hts)
    exact .word (kind_isWord hk) ((ihb hb').append (ihbs hbs') hbs.branches_noAssign)
  | forLoop hk ho hu hs₁ hv hs₂ hw hc hb ihu ihv ihw ihb =>
    obtain ⟨hstart, hts⟩ := lineless_cons (lineless_children hts)
    obtain ⟨htest, hts⟩ := lineless_cons hts
    obtain ⟨hstep, hblock⟩ := lineless_cons hts
    have hfurther := (ihw hstep).behind_bracket hc (ihb (lineless_children hblock))
    exact .word (kind_isWord hk) (.bracket ho
      ((ihu hstart).behind_delimiter hs₁ ((ihv htest).behind_delimiter hs₂ hfurther)))
  | whileLoop hk hs ih | switch hk hs ih => exact .word (kind_isWord hk) (ih hts)
  | definition hk hf ho hps hc hb ihps ihb =>
    obtain ⟨hparameters, hblock⟩ := lineless_cons (lineless_children hts)
    exact .word (kind_isWord hk) (.cons (by simp [hf]) (.bracket ho
      ((ihps (lineless_children hparameters)).behind_bracket hc (ihb (lineless_children hblock)))))
  | block hb ih => exact ih (lineless_children hts)
  | next hs hss ihs ihss =>
    obtain ⟨hs', hss'⟩ := lineless_cons hts
    exact (ihs hs').append (ihss hss') hss.statements_noAssign

end Derivations

section Programs
variable {ts us : List Token} {lines lines' : List TokenLine} {e : LexError}

theorem listless_of_parse (h : (parse ts).errors = []) (hno : (parse ts).tree.Lineless) :
    Listless ts := by
  obtain ⟨ss, -, hd, htree⟩ := derives_of_parse h
  rw [htree, Tree.program, lineless_node] at hno
  exact hd.listless (lineless_children hno.2)

/-- A line list at fault in a program that holds none is a value for the name `line`. -/
theorem assignsLine_of_fault (hparse : (parse (TokenLine.flatten lines)).errors = [])
    (hno : ∀ s ∈ (parse (TokenLine.flatten lines)).tree.subtrees, s.tag ≠ .lineStmt)
    (h : validate lines = .error e) (hfault : e.kind.isLineFault = true) :
    (∃ before t rest, TokenLine.flatten lines = before ++ t :: rest ∧ OpensLineList t rest) ∧
      ∃ s ∈ (parse (TokenLine.flatten lines)).tree.subtrees, s.AssignsLine := by
  obtain ⟨i, t, ht, -, herror⟩ := exists_of_validate_eq_error h
  have hopens := (checkToken_fault herror).2 hfault
  obtain ⟨hi, rfl⟩ := List.getElem?_eq_some_iff.mp ht
  have hsplit := (List.take_append_drop i (TokenLine.flatten lines)).symm
  rw [List.drop_eq_getElem_cons hi] at hsplit
  refine ⟨⟨_, _, _, hsplit, hopens⟩, ?_⟩
  by_contra hnone
  have hlineless : (parse (TokenLine.flatten lines)).tree.Lineless :=
    fun s hs => ⟨hno s hs, fun hassigns => hnone ⟨s, hs, hassigns⟩⟩
  have hlistless := listless_of_parse hparse hlineless
  rw [hsplit] at hlistless
  exact hlistless.not_opens hopens

theorem validate_respelled (h : Respelled 0 (TokenLine.flatten lines) (TokenLine.flatten lines'))
    (hlength : lines'.length = lines.length) (hvalid : validate lines = .ok lines) :
    validate lines' = .ok lines' := by
  rw [validate, except_bind_eq_ok] at hvalid ⊢
  obtain ⟨⟨⟩, hchecks, -⟩ := hvalid
  exact ⟨(), checkTokens_respelled hchecks hlength.ge (by simp) h, rfl⟩

theorem parse_respelled (h : Respelled 0 ts us) (hparse : (parse ts).errors = []) :
    (parse us).errors = [] ∧ (parse us).tree.unnamed = (parse ts).tree.unnamed := by
  obtain ⟨ss, hss, hd, htree⟩ := derives_of_parse hparse
  obtain ⟨ss', hd', hunnamed⟩ := hd.respelled h
  have hss' : ss' ≠ [] := by
    rintro rfl
    exact hss (List.map_eq_nil_iff.mp hunnamed.symm)
  rw [parse_of_derives hd' hss', htree]
  exact ⟨rfl, by simp [Tree.program, hunnamed]⟩

/-- In a program without line lists only a value for the name `line` is faulted as one, that is `=`
directly behind the name where it is declared or is an operand. Elsewhere `line` is a name like any
other: names that open no line list may be exchanged, and neither the verdict of the checks changes, nor
that of the grammar, nor the tree but for the names. -/
theorem lineWord_agreement (lines : List TokenLine) :
    ((parse (TokenLine.flatten lines)).errors = [] →
      (∀ s ∈ (parse (TokenLine.flatten lines)).tree.subtrees, s.tag ≠ .lineStmt) →
      ∀ e, validate lines = .error e → e.kind.isLineFault = true →
        (∃ before t rest, TokenLine.flatten lines = before ++ t :: rest ∧ OpensLineList t rest) ∧
          ∃ s ∈ (parse (TokenLine.flatten lines)).tree.subtrees, s.AssignsLine) ∧
    ∀ lines' : List TokenLine, lines'.length = lines.length →
      Respelled 0 (TokenLine.flatten lines) (TokenLine.flatten lines') →
      (validate lines' = .ok lines' ↔ validate lines = .ok lines) ∧
      ((parse (TokenLine.flatten lines')).errors = [] ↔ (parse (TokenLine.flatten lines)).errors = []) ∧
      ((parse (TokenLine.flatten lines)).errors = [] →
        (parse (TokenLine.flatten lines')).tree.unnamed =
          (parse (TokenLine.flatten lines)).tree.unnamed) := by
  refine ⟨fun hparse hno e h hfault => assignsLine_of_fault hparse hno h hfault, ?_⟩
  intro lines' hlength h
  refine ⟨⟨?_, validate_respelled h hlength⟩, ⟨?_, fun hparse => (parse_respelled h hparse).1⟩,
    fun hparse => (parse_respelled h hparse).2⟩
  · exact validate_respelled h.symm hlength.symm
  · exact fun hparse => (parse_respelled h.symm hparse).1

end Programs

/-- The declaration `flex line = name`. -/
def declaredLine (name : String) : List TokenLine :=
  [⟨1, [⟨.keyword, "flex", ⟨1, 1, 4⟩⟩, ⟨.identifier, "line", ⟨1, 6, 4⟩⟩,
    ⟨.operator .assign, "=", ⟨1, 11, 1⟩⟩, ⟨.identifier, name, ⟨1, 13, name.length⟩⟩]⟩]

theorem declaredLine_respelled (name name' : String) : Respelled 0
    (TokenLine.flatten (declaredLine name)) (TokenLine.flatten (declaredLine name')) := by
  refine .cons ⟨rfl, rfl, fun _ => rfl⟩ (by simp [OpensLineList, Token.isLine]) ?_
  refine .cons ⟨rfl, rfl, fun _ => rfl⟩ (by simp [OpensLineList]) ?_
  refine .cons ⟨rfl, rfl, fun _ => rfl⟩ (by simp [OpensLineList, Token.isLine]) ?_
  exact .cons ⟨rfl, rfl, fun hname => absurd rfl hname⟩ (by simp [OpensLineList]) .nil

/-- Of the two names in `flex line = line` the first one is faulted as a line list, and the second one
may as well be another. -/
theorem lineWord_agreement_declared : ∃ e, validate (declaredLine "line") = .error e ∧
    (∃ before t rest, TokenLine.flatten (declaredLine "line") = before ++ t :: rest ∧
      OpensLineList t rest) ∧
    (∃ s ∈ (parse (TokenLine.flatten (declaredLine "line"))).tree.subtrees, s.AssignsLine) ∧
    (parse (TokenLine.flatten (declaredLine "x"))).tree.unnamed =
      (parse (TokenLine.flatten (declaredLine "line"))).tree.unnamed := by
  have hparse : (parse (TokenLine.flatten (declaredLine "line"))).errors = [] := by decide +kernel
  have hno : ∀ s ∈ (parse (TokenLine.flatten (declaredLine "line"))).tree.subtrees,
      s.tag ≠ .lineStmt := by decide +kernel
  obtain ⟨e, he, hfault⟩ := exists_error_of_any (x := validate (declaredLine "line"))
    (p := fun e => e.kind.isLineFault) (by decide +kernel)
  obtain ⟨hfaults, hnames⟩ := lineWord_agreement (declaredLine "line")
  obtain ⟨hopens, hassigns⟩ := hfaults hparse hno e he hfault
  obtain ⟨-, -, htree⟩ := hnames (declaredLine "x") rfl (declaredLine_respelled "line" "x")
  exact ⟨e, he, hopens, hassigns, htree hparse⟩

/-- A declaration that is rejected for a line list, though no line list is part of its tree. -/
theorem declaredLine_rejected : ∃ lines e, tokenize "flex line = 5" = .ok lines ∧
    (parse (TokenLine.flatten lines)).errors = [] ∧
    (∀ s ∈ (parse (TokenLine.flatten lines)).tree.subtrees, s.tag ≠ .lineStmt) ∧
    validate lines = .error e ∧ e = ⟨.expectedOpenBracket, ⟨1, 11, 1⟩⟩ := by
  have hsource : (tokenize "flex line = 5").toOption.any (fun lines =>
      decide ((parse (TokenLine.flatten lines)).errors = []) &&
      decide (∀ s ∈ (parse (TokenLine.flatten lines)).tree.subtrees, s.tag ≠ .lineStmt) &&
      errorAny (fun e => e = ⟨.expectedOpenBracket, ⟨1, 11, 1⟩⟩) (validate lines)) = true := by decide +kernel
  obtain ⟨lines, hlines, hall⟩ := exists_ok_of_any hsource
  simp only [Bool.and_eq_true, decide_eq_true_eq] at hall
  obtain ⟨⟨hparse, hno⟩, hrejected⟩ := hall
  obtain ⟨e, he, hplace⟩ := exists_error_of_any hrejected
  exact ⟨lines, e, hlines, hparse, hno, he, of_decide_eq_true hplace⟩

end SlangScript
