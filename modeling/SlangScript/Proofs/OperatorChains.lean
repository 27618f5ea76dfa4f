import SlangScript.Proofs.BracedStatements

/-! Operators between operands. All of them bind alike: the tree is built up from the left end, and what
has been read so far is the left side of the next operator. -/
namespace SlangScript

open Cursor

/-- At this depth these tokens, where nothing else follows, are read as one operand to their end. -/
def IsOperand (depth : Nat) (w : List Token) (t : Tree) : Prop :=
  ∃ d : Cursor, Yields Walk.primary ⟨⟨w, 0⟩, [], depth⟩ (some t) d ∧ d.remaining = []

/-- So does the production, which has as many levels left as are not open. -/
theorem isOperand_iff {depth : Nat} {w : List Token} {t : Tree} (hdepth : depth ≤ maxNesting) :
    IsOperand depth w t ↔
      Production.operandWithin maxNesting (maxNesting - depth) w = .ok (t, []) := by
  have hfollows : Follows Walk.primary (Production.operandWithin maxNesting (maxNesting - depth))
      ⟨⟨w, 0⟩, [], depth⟩ :=
    (Walk.nested_traces _).1 _ ⟨Nat.zero_le _, Nat.add_sub_of_le hdepth⟩
  -- With nothing read, all the tokens are left, as `Follows` has them.
  change _ ↔ Production.operandWithin maxNesting _ (Cursor.remaining ⟨⟨w, 0⟩, [], depth⟩) = _
  rw [Follows] at hfollows
  constructor
  · rintro ⟨d, hd, hend⟩
    split at hfollows
    · obtain ⟨ha, rfl⟩ := hd.unique hfollows.2
      cases ha
      rwa [← hend, remaining_moveTo hfollows.1]
    · obtain ⟨ha, -⟩ := hd.unique hfollows.2.2
      cases ha
  · intro hp
    rw [hp] at hfollows
    exact ⟨_, hfollows.2, remaining_moveTo hfollows.1⟩

theorem IsOperand.derives {depth : Nat} {w : List Token} {t : Tree} (h : IsOperand depth w t)
    (hdepth : depth ≤ maxNesting) : Derives .operand (maxNesting - depth) w [t] := by
  have hreads := Production.operandWithin_reads maxNesting (Nat.le_refl (maxNesting - depth))
  obtain ⟨v, hv, hoperand⟩ := hreads.sound trivial ((isOperand_iff hdepth).mp h)
  rw [List.append_nil] at hv
  exact hv ▸ hoperand

/-- An operator, the operand behind it, and the tree that this operand stands for. -/
structure Link where
  sign : Token
  op : Operator
  operand : List Token
  tree : Tree

namespace Link

def tokens (l : Link) : List Token := l.sign :: l.operand

/-- The operator stands between operands, and what is behind it is one. -/
structure IsRead (l : Link) (depth : Nat) : Prop where
  sign_eq : l.sign.operator? = some l.op
  not_incDec : l.op.isIncDec = false
  isOperand : IsOperand depth l.operand l.tree

theorem IsRead.binaryOperator? {l : Link} {depth : Nat} (h : l.IsRead depth) :
    l.sign.binaryOperator? = some l.op := by
  rw [Token.binaryOperator?, h.sign_eq, Option.filter_some, Operator.isBinary, h.not_incDec]
  rfl

/-- What has been read so far, with this operator and its operand behind it. -/
def join (left : Tree) (l : Link) : Tree := .binary l.op left l.tree

end Link

/-- Each further operator takes all that stands in front of it as its left side. -/
theorem Derives.links {depth : Nat} {w : List Token} {left : Tree} {links : List Link}
    (h : Derives .expression (maxNesting - depth) w [left]) (hdepth : depth ≤ maxNesting)
    (hlinks : ∀ l ∈ links, l.IsRead depth) :
    Derives .expression (maxNesting - depth) (w ++ links.flatMap Link.tokens)
      [links.foldl Link.join left] := by
  induction links generalizing w left with
  | nil => simpa using h
  | cons l links ih =>
    have hl := hlinks l List.mem_cons_self
    have hjoined : Derives .expression (maxNesting - depth) (w ++ l.tokens) [l.join left] :=
      .binary h hl.binaryOperator? (hl.isOperand.derives hdepth)
    have hmore := ih hjoined fun k hk => hlinks k (List.mem_cons_of_mem l hk)
    rwa [List.append_assoc] at hmore

/-- Operands with operators between them are read to their end where no further operator follows, and no
error is recorded. The tree is folded from the left. -/
theorem expression_foldsLeft {c : Cursor} {first rest : List Token} {t : Tree} {links : List Link}
    (hdepth : c.depth ≤ maxNesting) (hfirst : IsOperand c.depth first t)
    (hlinks : ∀ l ∈ links, l.IsRead c.depth) (hrest : NoOperator rest)
    (hread : c.remaining = first ++ links.flatMap Link.tokens ++ rest) :
    Yields Walk.expression c (some (links.foldl Link.join t))
      { c with stream := ⟨c.stream.tokens,
        c.stream.position + (first ++ links.flatMap Link.tokens).length⟩ } ∧
    Production.expression maxNesting (maxNesting - c.depth) c.remaining =
      .ok (links.foldl Link.join t, rest) := by
  have hoperand := hfirst.derives hdepth
  have hchain := Derives.links (.single hoperand) hdepth hlinks
  have hexpression := Production.expression_completes maxNesting _ hchain hrest
  rw [← hread] at hexpression
  have hat : c.At (maxNesting - c.depth) := by
    refine ⟨Nat.le_of_not_lt fun hpast => hoperand.ne_nil rfl ?_, Nat.add_sub_of_le hdepth⟩
    have hnil : c.remaining = [] := List.drop_eq_nil_of_le (Nat.le_of_lt hpast)
    rw [hnil, List.nil_eq_append_iff, List.append_eq_nil_iff] at hread
    exact hread.1.1
  obtain ⟨-, hyields⟩ : rest <:+ c.remaining ∧
      Yields Walk.expression c (some (links.foldl Link.join t)) (c.moveTo rest) := by
    simpa only [Follows, hexpression] using (Walk.nested_traces _).2.1 c hat
  have hlength := hat.length_remaining
  rw [hread, List.length_append] at hlength
  have hend : c.stream.tokens.length - rest.length =
      c.stream.position + (first ++ links.flatMap Link.tokens).length := by omega
  rw [moveTo, hend] at hyields
  exact ⟨hyields, hexpression⟩

/-- The tokens of `1 + (2 - 3) = x++ ;`, none of them read. -/
def mixedChain : Cursor :=
  ⟨⟨[⟨.integer, "1", .origin⟩, ⟨.operator .add, "+", .origin⟩, ⟨.bracket .openParen, "(", .origin⟩,
    ⟨.integer, "2", .origin⟩, ⟨.operator .sub, "-", .origin⟩, ⟨.integer, "3", .origin⟩,
    ⟨.bracket .closeParen, ")", .origin⟩, ⟨.operator .assign, "=", .origin⟩,
    ⟨.identifier, "x", .origin⟩, ⟨.operator .increment, "++", .origin⟩,
    ⟨.delimiter .semicolon, ";", .origin⟩], 0⟩, [], 0⟩

theorem mixedChain_foldsLeft : ∃ d, Yields Walk.expression mixedChain
    (some (.binary .assign
      (.binary .add (.leaf .integer "1") (.binary .sub (.leaf .integer "2") (.leaf .integer "3")))
      (.node .postfixOp (some "++") [.leaf .identifier "x"]))) d ∧ d.stream.position = 10 := by
  have hfold := @expression_foldsLeft mixedChain [⟨.integer, "1", .origin⟩]
    [⟨.delimiter .semicolon, ";", .origin⟩] (.leaf .integer "1")
    [⟨⟨.operator .add, "+", .origin⟩, .add,
        [⟨.bracket .openParen, "(", .origin⟩, ⟨.integer, "2", .origin⟩,
          ⟨.operator .sub, "-", .origin⟩, ⟨.integer, "3", .origin⟩,
          ⟨.bracket .closeParen, ")", .origin⟩],
        .binary .sub (.leaf .integer "2") (.leaf .integer "3")⟩,
      ⟨⟨.operator .assign, "=", .origin⟩, .assign,
        [⟨.identifier, "x", .origin⟩, ⟨.operator .increment, "++", .origin⟩],
        .node .postfixOp (some "++") [.leaf .identifier "x"]⟩]
    (by decide) ((isOperand_iff (by decide)).mpr (by decide +kernel)) ?_
    ((next_cons _ _ _).mpr rfl) rfl
  · exact ⟨_, hfold.1, rfl⟩
  · simp only [List.forall_mem_cons]
    exact ⟨⟨rfl, rfl, (isOperand_iff (by decide)).mpr (by decide +kernel)⟩,
      ⟨rfl, rfl, (isOperand_iff (by decide)).mpr (by decide +kernel)⟩, by simp⟩

end SlangScript
