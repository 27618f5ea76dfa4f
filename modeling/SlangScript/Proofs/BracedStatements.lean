import SlangScript.Proofs.BlockExtent
import SlangScript.Proofs.CursorProgram

/-! Two ways to the end of a block. Counting braces finds it without reading the statements inside, and
the cursor finds it by reading them. -/
namespace SlangScript

open Cursor

/-- Statements that are nothing but blocks, and blocks inside these. -/
inductive OnlyBlocks : List Tree → Prop
  | nil : OnlyBlocks []
  | cons {inner more : List Tree} (hinner : OnlyBlocks inner) (hmore : OnlyBlocks more) :
    OnlyBlocks (.node .block none [.node .statementList none inner] :: more)

namespace Derives
variable {n : Nat} {w : List Token} {s list : Tree} {ss : List Tree}

/-- A simple statement begins with a word or with a name. -/
theorem exists_not_brace_of_simple (h : Derives .simple n w [s]) : ∃ t ∈ w, t.isBrace = false := by
  have hname {t : Token} {kind : TokenKind} (ht : t.kind = kind)
      (hkind : kind = .identifier ∨ kind = .function) : t.isBrace = false := by
    rcases hkind with rfl | rfl <;> exact Token.isBrace_eq_false (by simp [ht]) (by simp [ht])
  cases h with
  | declaration hk | initialised hk => exact ⟨_, .head _, Token.isBrace_of_word hk.1⟩
  | print hk | input hk | reply hk => exact ⟨_, .head _, Token.isBrace_of_isWord hk⟩
  | called he =>
    cases he with
    | call hf => exact ⟨_, .head _, hname hf (.inr rfl)⟩
  | lineList hx => exact ⟨_, .head _, hname hx.1 (.inl rfl)⟩
  | alone hx | counted hx | assignment hx => exact ⟨_, .head _, hname hx (.inl rfl)⟩

theorem ne_block_of_simple (h : Derives .simple n w [s]) : s.tag ≠ .block := by
  cases h with
  | called he =>
    cases he
    nofun
  | _ => nofun

/-- A statement is a block, or else no block, and holds a token that is no brace. -/
theorem statement_cases (h : Derives .statement n w [s]) :
    (s.tag ≠ .block ∧ ∃ t ∈ w, t.isBrace = false) ∨
      ∃ m o c v inner, n = m + 1 ∧ w = o :: (v ++ [c]) ∧
        s = .node .block none [.node .statementList none inner] ∧
        o.kind = .bracket .openBrace ∧ Derives .statements m v inner ∧
        c.kind = .bracket .closeBrace := by
  cases h with
  | unterminated hs => exact .inl ⟨hs.ne_block_of_simple, hs.exists_not_brace_of_simple⟩
  | terminated hs =>
    obtain ⟨t, ht, hbrace⟩ := hs.exists_not_brace_of_simple
    exact .inl ⟨hs.ne_block_of_simple, t, List.mem_append_left _ ht, hbrace⟩
  | ifChain hk | forLoop hk | definition hk =>
    exact .inl ⟨nofun, _, .head _, Token.isBrace_of_isWord hk⟩
  | whileLoop hk hs | switch hk hs =>
    cases hs
    exact .inl ⟨nofun, _, .head _, Token.isBrace_of_isWord hk⟩
  | block hb =>
    cases hb with
    | braces ho hs hc => exact .inr ⟨_, _, _, _, _, rfl, rfl, rfl, ho, hs, hc⟩

/-- Statements are only blocks where their tokens are only braces. -/
theorem onlyBlocks_iff (h : Derives .statements n w ss) :
    OnlyBlocks ss ↔ ∀ t ∈ w, t.isBrace = true := by
  induction n using Nat.strongRecOn generalizing w ss with
  | ind n ih =>
    refine h.statements_induction (P := fun w ss => OnlyBlocks ss ↔ ∀ t ∈ w, t.isBrace = true) ?_ ?_
    · exact ⟨fun _ => nofun, fun _ => .nil⟩
    · intro w v s ss hs _ hss
      rw [List.forall_mem_append, ← hss]
      rcases hs.statement_cases with
        ⟨htag, t, ht, hbrace⟩ | ⟨m, o, c, v, inner, rfl, rfl, rfl, ho, hv, hc⟩
      · constructor
        · rintro ⟨⟩
          exact absurd rfl htag
        · rintro ⟨hall, -⟩
          rw [hall t ht] at hbrace
          cases hbrace
      · have hbraces : (∀ t ∈ o :: (v ++ [c]), t.isBrace = true) ↔ OnlyBlocks inner := by
          rw [ih m (Nat.lt_succ_self m) hv]
          simp [Token.isBrace_of_open ho, Token.isBrace_of_close hc, or_imp, forall_and]
        rw [hbraces]
        exact ⟨fun | .cons hinner hmore => ⟨hinner, hmore⟩, fun h => .cons h.1 h.2⟩

/-- Counting braces ends a block where the grammar ends it, and notices what the statements in it are. -/
theorem matchingBrace_append (h : Derives .braces n w [list]) (us rest : List Token) :
    ∃ nonEmpty ss, matchingBrace (us ++ (w ++ rest)) us.length =
        .ok (us.length + w.length - 1, nonEmpty) ∧
      list = .node .statementList none ss ∧ (nonEmpty = false ↔ OnlyBlocks ss) := by
  cases h with
  | braces ho hs hc =>
    rename_i n o c v ss
    have hopen : o.isBracket .openBrace = true := by simp [Token.isBracket, ho]
    have hend : blockEnd? (us.length + 1) 0 false (v ++ (c :: rest)) =
        some (us.length + 1 + v.length, v.any fun t => !t.isBrace) := by
      rw [hs.balanced.blockEnd?_append, blockEnd?_found hc, Bool.false_or]
    refine ⟨v.any fun t => !t.isBrace, ss, ?_, rfl, ?_⟩
    · simp [matchingBrace, Token.isBrace_of_open ho, hopen, hend]
      omega
    · rw [hs.onlyBlocks_iff]
      simp

end Derives

namespace Walk
variable {exits : Exits} {c d : Cursor} {o : Token} {list : Tree}

/-- Where no further level may be opened, the statements in braces are refused. -/
theorem bracedList_full (h : maxNesting ≤ c.depth) : Yields (bracedList exits) c none
    (c.record (Mismatch.tooDeep maxNesting).message) := by
  have henter : enter c = some (false, c.record (Mismatch.tooDeep maxNesting).message) := if_pos h
  exact .unfold (.of_forall fun _ => run_bind henter _) (bracedList.eq_2 exits)

/-- Statements in braces that the cursor reads to their end are those that the grammar derives. -/
theorem derives_of_bracedList (ho : c.stream.current? = some o)
    (h : Yields (bracedList exits) c (some list) d) : ∃ n w rest, c.remaining = w ++ rest ∧
      d = c.moveTo rest ∧ Derives .braces n w [list] := by
  have hinside : c.stream.position ≤ c.stream.tokens.length := by
    obtain ⟨hlt, -⟩ := List.getElem?_eq_some_iff.mp ho
    exact Nat.le_of_lt hlt
  rcases Nat.lt_or_ge c.depth maxNesting with hdepth | hdepth
  · have hfollows := (level_traces exits (maxNesting - c.depth)).braces c
      ⟨hinside, Nat.add_sub_of_le (Nat.le_of_lt hdepth)⟩
    rw [Follows] at hfollows
    split at hfollows
    · rename_i a rest hp
      obtain ⟨ha, rfl⟩ := h.unique hfollows.2
      cases ha
      have hreads := Production.level_reads maxNesting (Nat.le_refl (maxNesting - c.depth))
      obtain ⟨w, hw, hlist⟩ := hreads.braces.sound trivial hp
      exact ⟨_, w, rest, hw, rfl, hlist⟩
    · obtain ⟨ha, -⟩ := h.unique hfollows.2.2
      cases ha
  · obtain ⟨ha, -⟩ := h.unique (bracedList_full hdepth)
    cases ha

/-- From a brace, the cursor reads statements to just behind the brace that counting finds, and has read
only blocks where counting has passed only braces. -/
theorem bracedList_extent
    (ho : ∃ o, c.stream.current? = some o ∧ o.kind = .bracket .openBrace)
    (h : Yields (bracedList exits) c (some list) d) : ∃ e nonEmpty ss,
      matchingBrace c.stream.tokens c.stream.position = .ok (e, nonEmpty) ∧
      d = { c with stream := ⟨c.stream.tokens, e + 1⟩ } ∧
      list = .node .statementList none ss ∧ (nonEmpty = false ↔ OnlyBlocks ss) := by
  obtain ⟨o, ho, -⟩ := ho
  obtain ⟨n, w, rest, hw, rfl, hlist⟩ := derives_of_bracedList ho h
  obtain ⟨hlt, -⟩ := List.getElem?_eq_some_iff.mp ho
  have hread : (c.stream.tokens.take c.stream.position).length = c.stream.position :=
    List.length_take_of_le (Nat.le_of_lt hlt)
  have htokens : c.stream.tokens.take c.stream.position ++ (w ++ rest) = c.stream.tokens := by
    rw [← hw]
    exact List.take_append_drop _ _
  obtain ⟨nonEmpty, ss, hmatch, rfl, honly⟩ :=
    hlist.matchingBrace_append (c.stream.tokens.take c.stream.position) rest
  have hlength := congrArg List.length htokens
  rw [List.length_append, List.length_append, hread] at hlength
  rw [htokens, hread] at hmatch
  have hpos := List.length_pos_iff.mpr (hlist.ne_nil rfl)
  have hend : c.stream.tokens.length - rest.length = c.stream.position + w.length - 1 + 1 := by omega
  refine ⟨_, nonEmpty, ss, hmatch, ?_, rfl, honly⟩
  rw [moveTo, hend]

/-- `x { { } y }`, read up to the first brace. -/
def besideBlock : Cursor :=
  ⟨⟨[.ofKind .identifier, .ofKind (.bracket .openBrace), .ofKind (.bracket .openBrace),
    .ofKind (.bracket .closeBrace), .ofKind .identifier, .ofKind (.bracket .closeBrace)], 1⟩, [], 0⟩

theorem besideBlock_extent : ∃ list d, Yields (bracedList .plain) besideBlock (some list) d ∧
    ∃ e nonEmpty ss, matchingBrace besideBlock.stream.tokens 1 = .ok (e, nonEmpty) ∧
      d = { besideBlock with stream := ⟨besideBlock.stream.tokens, e + 1⟩ } ∧
      list = .node .statementList none ss ∧ (nonEmpty = false ↔ OnlyBlocks ss) := by
  have hfollows := (level_traces .plain maxNesting).braces besideBlock ⟨by decide, rfl⟩
  have hp : (Production.level maxNesting maxNesting).braces besideBlock.remaining =
      .ok (.node .statementList none [.node .block none [.node .statementList none []],
        .node .exprStmt none [.node .expr none [.leaf .identifier ""]]], []) := by
    decide +kernel
  rw [Follows, hp] at hfollows
  exact ⟨_, _, hfollows.2, bracedList_extent ⟨_, rfl, rfl⟩ hfollows.2⟩

end Walk

end SlangScript
