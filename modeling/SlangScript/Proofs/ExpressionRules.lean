import SlangScript.Proofs.Reading

/-! Every production of expressions reads by the rule of its part. -/
namespace SlangScript

/-- The rule of a part that stands for a single tree. -/
abbrev Part.rule (part : Part) (n : Nat) : Rule Tree := fun w t => Derives part n w [t]

theorem Derives.integer (n : Nat) :
    Derives .expression n [.ofKind .integer] [.leaf .integer ""] := .single (.literal rfl)

theorem Ahead.of_head? {ts : List Token} {t : Token} {P : Token → Prop} (h : ts.head? = some t)
    (ht : P t) : Ahead P Anything ts := by
  obtain ⟨rest, rfl⟩ := List.head?_eq_some_iff.mp h
  exact ⟨t, rest, rfl, ht, trivial⟩

theorem Tree.foldOperands_cons (l r : Tree) (op : Operator) (items : List (Operator × Tree)) :
    l.foldOperands ((op, r) :: items) = (Tree.binary op l r).foldOperands items := rfl

namespace Production
variable {n : Nat}

theorem literal_reads {tag : Tag} {t : Token} (ht : Tag.ofOperand? t.kind = some tag) :
    Reads (Ahead (· = t) Anything) n (literal tag t.lexeme) (Part.operand.rule n) := by
  refine .mono (.skip ⟨t, rfl⟩ (.accept? (.pure _) fun op => .pure _)) ?_
  rintro w e ⟨_, _, rfl, rfl, ⟨rfl, rfl⟩ | ⟨o, op, _, rfl, ho, rfl, rfl⟩⟩
  · exact .literal ht
  · exact .stepped ht ho

theorem operand_reads {group array : Production Tree}
    (hg : Reads (Ahead (·.kind = .bracket .openParen) Anything) n group (Part.operand.rule n))
    (ha : Reads Anything n array (Part.array.rule n)) :
    Reads Anything n (operand group array) (Part.operand.rule n) := by
  have hin : 0 < n → ∃ w e, Part.operand.rule n w e := fun _ =>
    ⟨[.ofKind .integer], _, .literal rfl⟩
  refine .look fun c => ?_
  cases c with
  | none => exact .fail hin
  | some t =>
    dsimp only
    split
    · exact hg.restrict fun ts h => .of_head? h.2 ‹_›
    · exact (ha.restrict fun _ _ => trivial).mono fun w e h => .arrayOperand h
    · split
      · exact (literal_reads ‹_›).restrict fun ts h => .of_head? h.2 rfl
      · exact .fail hin

theorem chain_reads {item : Production Tree} (h : Reads Anything n item (Part.operand.rule n)) :
    Reads Anything n (chain item) (Part.expression.rule n) := by
  refine .mono (h.bind fun first => .bind (R := fun v items => ∀ w l, Derives .expression n w [l] →
      Derives .expression n (w ++ v) [l.foldOperands items])
    (.many (.mono (.accept? (.pure none) fun op => h.bind fun _ => .pure _) ?_)
      (.ofOptional (R := fun w item => ∃ o v, w = o :: v ∧ o.binaryOperator? = some item.1 ∧
        Derives .operand n v [item.2]) ?_ ?_ ?_)) fun _ => .pure _) ?_
  · rintro _ _ (⟨rfl, rfl⟩ | ⟨o, op, _, rfl, ho, r, u, _, rfl, hr, rfl, rfl⟩)
    · rfl
    · exact ⟨o, u, by simp, ho, hr⟩
  · intro w l hl
    rwa [List.append_nil]
  · rintro _ v ⟨op, r⟩ items ⟨o, u, rfl, ho, hr⟩ hv w l hl
    rw [Tree.foldOperands_cons]
    simpa using hv _ _ (.binary hl ho hr)
  · rintro a ⟨_, _, h, -⟩
    cases h
  · rintro w e ⟨first, u, _, rfl, hu, more, v, _, rfl, hv, rfl, rfl⟩
    simpa using hv u first (.single hu)

theorem grouped_reads {inner : Production Tree}
    (h : Reads Anything n inner (Part.expression.rule n)) :
    Reads (Ahead (·.kind = .bracket .openParen) Anything) (n + 1) (grouped inner)
      (Part.operand.rule (n + 1)) := by
  have heq (ts : List Token) (h₀ : Ahead (·.kind = .bracket .openParen) Anything ts) :
      grouped inner ts =
      (do
        let _ ← expect (.bracket .openParen)
        let e ← inner
        let _ ← expect (.bracket .closeParen)
        pure e : Production Tree) ts := by
    obtain ⟨t, ts, rfl, ht, -⟩ := h₀
    rw [grouped, run_skip, run_bind (expect_eq_ok.mpr ⟨rfl, ht⟩)]
  refine .congr (.mono (.opening (by rfl) (fun _ => h.bind fun e => .expect fun c => .pure e)
    ⟨_, _, _, _, _, rfl, .integer n, .ofKind (.bracket .closeParen), _, rfl, rfl, rfl, rfl⟩) ?_) heq
  · rintro w e ⟨o, _, rfl, ho, _, u, _, rfl, hu, c, _, rfl, hc, rfl, rfl⟩
    exact .grouped ho hu hc

theorem commaSeparated_reads {item : Part} {p : Production Tree}
    (h : Reads Anything n p (item.rule n)) :
    Reads Anything n (commaSeparated p) (Derives (.separated item) n) := by
  refine .mono (h.bind fun first => .bind (R := fun v es => ∀ w e, Derives item n w [e] →
      Derives (.separated item) n (w ++ v) (e :: es))
    (.many (.mono (.skipIf (.pure none) (h.bind fun _ => .pure _)) ?_)
      (.ofOptional (R := fun w e => ∃ c v, w = c :: v ∧ c.kind = .delimiter .comma ∧
        Derives item n v [e]) ?_ ?_ ?_)) fun _ => .pure _) ?_
  · rintro _ _ (⟨rfl, rfl⟩ | ⟨c, _, rfl, hc, a, u, _, rfl, ha, rfl, rfl⟩)
    · rfl
    · exact ⟨c, u, by simp, hc, ha⟩
  · intro w e he
    simpa using Derives.one he
  · rintro _ v a es ⟨c, u, rfl, hc, ha⟩ hv w e he
    simpa using Derives.more he hc (hv _ _ ha)
  · rintro a ⟨_, _, h, -⟩
    cases h
  · rintro w es ⟨first, u, _, rfl, hu, more, v, _, rfl, hv, rfl, rfl⟩
    simpa using hv u first hu

theorem listUntil_eq (close : Bracket) (p : Production Tree) :
    listUntil close p = (do
      let b ← atKind (.bracket close)
      let items ← (if b = true then pure [] else commaSeparated p)
      let _ ← expect (.bracket close)
      pure items) := by
  rw [listUntil]
  congr 1
  funext b
  cases b <;> rfl

theorem listUntil_reads {item : Part} {close : Bracket} {p : Production Tree}
    (h : Reads Anything n p (item.rule n)) :
    Reads Anything n (listUntil close p) (fun w es => ∃ v c, w = v ++ [c] ∧
      c.kind = .bracket close ∧ Derives (.listed item) n v es) := by
  have hitems (pre : List Token → Prop) (b : Bool) : Reads pre n
      (if b = true then pure [] else commaSeparated p) (Derives (.listed item) n) := by
    cases b with
    | false => exact ((commaSeparated_reads h).mono fun w es => .listed).restrict fun _ _ => trivial
    | true =>
      refine (Reads.pure []).mono ?_
      rintro w es ⟨rfl, rfl⟩
      exact .unlisted
  rw [listUntil_eq]
  refine .look fun b => .mono (.bind (hitems _ b) fun es => .expect fun c => .pure es) ?_
  rintro w _ ⟨es, v, _, rfl, hv, c, _, rfl, hc, rfl, rfl⟩
  exact ⟨v, c, rfl, hc, hv⟩

theorem call_reads {argument : Production Tree}
    (h : Reads Anything n argument (Part.expression.rule n)) :
    Reads Anything n (call argument) (Part.call.rule n) := by
  refine .mono (.expect fun f => .expect fun o => .bind (listUntil_reads h) fun es => .pure _) ?_
  rintro w _ ⟨f, _, rfl, hf, o, _, rfl, ho, es, _, _, rfl, ⟨v, c, rfl, hc, hv⟩, rfl, rfl⟩
  simpa using Derives.call hf ho hv hc

theorem element_reads {inner : Production Tree}
    (h : Reads Anything n inner (Part.expression.rule n)) :
    Reads Anything n (element inner) (Part.element.rule n) := by
  refine .look fun b => ?_
  cases b with
  | false => exact (h.restrict fun _ _ => trivial).mono fun w e => .expressionElement
  | true => exact ((call_reads h).restrict fun _ _ => trivial).mono fun w e => .callElement

theorem arrayOf_reads {inner : Production Tree}
    (h : Reads Anything n inner (Part.expression.rule n)) :
    Reads Anything (n + 1) (arrayOf inner) (Part.array.rule (n + 1)) := by
  refine .mono (.opening (by rfl)
    (fun _ => .bind (listUntil_reads (element_reads h)) fun es => .pure _)
    ⟨_, _, [], [.ofKind (.bracket .closeBracket)], [], rfl, ⟨[], _, rfl, rfl, .unlisted⟩,
      rfl, rfl⟩) ?_
  rintro w _ ⟨o, _, rfl, ho, es, _, _, rfl, ⟨v, c, rfl, hc, hv⟩, rfl, rfl⟩
  simpa using Derives.array ho hv hc

theorem exists_array (hn : 0 < n) : ∃ w a, Part.array.rule n w a := by
  obtain ⟨n, rfl⟩ := Nat.exists_eq_succ_of_ne_zero (Nat.ne_of_gt hn)
  exact ⟨_, _, .array (o := .ofKind (.bracket .openBracket)) (c := .ofKind (.bracket .closeBracket))
    rfl .unlisted rfl⟩

/-- An operand where `room` levels of brackets are left to open. -/
def operandWithin (limit : Nat) : Nat → Production Tree
  | 0 => operand (tooDeep limit) (tooDeep limit)
  | room + 1 => operand (grouped (expression limit room)) (arrayOf (expression limit room))

theorem expression_eq_chain (limit room : Nat) :
    expression limit room = chain (operandWithin limit room) := by
  cases room <;> rfl

/-- Operands are read by their rule, also where fewer levels are left than the rule allows. -/
theorem operandWithin_reads (limit : Nat) {room : Nat} (h : room ≤ n) :
    Reads Anything n (operandWithin limit room) (Part.operand.rule n) := by
  induction room generalizing n with
  | zero =>
    exact operand_reads (.fail fun _ => ⟨[.ofKind .integer], _, .literal rfl⟩) (.fail exists_array)
  | succ room ih =>
    obtain ⟨n, rfl⟩ := Nat.exists_eq_add_of_le' (Nat.le_trans (Nat.le_add_left 1 room) h)
    have hinner := chain_reads (ih (Nat.le_of_succ_le_succ h))
    rw [← expression_eq_chain] at hinner
    exact operand_reads (grouped_reads hinner) (arrayOf_reads hinner)

theorem expression_reads (limit : Nat) {room : Nat} (h : room ≤ n) :
    Reads Anything n (expression limit room) (Part.expression.rule n) := by
  rw [expression_eq_chain]
  exact chain_reads (operandWithin_reads limit h)

theorem arrayLiteral_reads (limit : Nat) {room : Nat} (h : room ≤ n) :
    Reads Anything n (arrayLiteral limit room) (Part.array.rule n) := by
  cases room with
  | zero => exact .fail exists_array
  | succ room =>
    obtain ⟨n, rfl⟩ := Nat.exists_eq_add_of_le' (Nat.le_trans (Nat.le_add_left 1 room) h)
    exact arrayOf_reads (expression_reads limit (Nat.le_of_succ_le_succ h))

end Production

end SlangScript
