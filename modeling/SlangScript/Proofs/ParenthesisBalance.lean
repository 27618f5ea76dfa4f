import SlangScript.Proofs.Tables
import SlangScript.Proofs.ValidityRules

/-! The parentheses of printing and reading statements. Their header is checked up to the first one that
closes, so they are balanced on their line only where the line goes on to close what was opened inside. -/
namespace SlangScript

/-- The opening parentheses less the closing ones. -/
def parenBalance (ts : List Token) : Int :=
  ts.countP (·.isBracket .openParen) - ts.countP (·.isBracket .closeParen)

/-- With `outer` parentheses open in front of the tokens, as many have been closed as opened up to some
token of the line. -/
def EvensOut (outer : Int) (line : Nat) (ts : List Token) : Prop :=
  ∃ j t, ts[j]? = some t ∧ t.span.line = line ∧ outer + parenBalance (ts.take (j + 1)) = 0

section Balance
variable {outer : Int} {line : Nat} {t : Token} {ts inside behind : List Token}

@[simp] theorem parenBalance_nil : parenBalance [] = 0 := rfl

theorem parenBalance_append (us ts : List Token) :
    parenBalance (us ++ ts) = parenBalance us + parenBalance ts := by
  simp only [parenBalance, List.countP_append]
  omega

theorem parenBalance_cons (t : Token) (ts : List Token) :
    parenBalance (t :: ts) = parenBalance [t] + parenBalance ts := parenBalance_append [t] ts

theorem parenBalance_open (h : t.kind = .bracket .openParen) : parenBalance [t] = 1 := by
  simp [parenBalance, Token.isBracket, h]

theorem parenBalance_close (h : t.kind = .bracket .closeParen) : parenBalance [t] = -1 := by
  simp [parenBalance, Token.isBracket, h]

/-- Where nothing is closed, the balance is what is opened. -/
theorem parenBalance_of_not_close (h : ∀ t ∈ ts, t.kind ≠ .bracket .closeParen) :
    parenBalance ts = ts.countP (·.isBracket .openParen) := by
  have hclosed : ts.countP (·.isBracket .closeParen) = 0 :=
    List.countP_eq_zero.mpr fun t ht => by simpa [Token.isBracket] using h t ht
  rw [parenBalance, hclosed, Int.natCast_zero, Int.sub_zero]

theorem not_evensOut_nil : ¬ EvensOut outer line [] := by
  rintro ⟨j, t, ht, -⟩
  cases ht

theorem evensOut_cons_iff : EvensOut outer line (t :: ts) ↔
    t.span.line = line ∧ outer + parenBalance [t] = 0 ∨
      EvensOut (outer + parenBalance [t]) line ts := by
  constructor
  · rintro ⟨_ | j, u, hu, hline, heven⟩
    · cases hu
      exact .inl ⟨hline, heven⟩
    · rw [List.take_succ_cons, parenBalance_cons, ← Int.add_assoc] at heven
      exact .inr ⟨j, u, hu, hline, heven⟩
  · rintro (⟨hline, heven⟩ | ⟨j, u, hu, hline, heven⟩)
    · exact ⟨0, t, rfl, hline, heven⟩
    · refine ⟨j + 1, u, hu, hline, ?_⟩
      rw [List.take_succ_cons, parenBalance_cons, ← Int.add_assoc]
      exact heven

instance decidableEvensOut (outer : Int) (line : Nat) : (ts : List Token) →
    Decidable (EvensOut outer line ts)
  | [] => .isFalse not_evensOut_nil
  | t :: ts =>
    have := decidableEvensOut (outer + parenBalance [t]) line ts
    decidable_of_iff' _ evensOut_cons_iff

/-- As long as nothing is closed, the count does not come back to zero. -/
theorem evensOut_append_iff (houter : 0 < outer)
    (hinside : ∀ t ∈ inside, t.kind ≠ .bracket .closeParen) :
    EvensOut outer line (inside ++ behind) ↔
      EvensOut (outer + inside.countP (·.isBracket .openParen)) line behind := by
  rw [← parenBalance_of_not_close hinside]
  induction inside generalizing outer with
  | nil => rw [List.nil_append, parenBalance_nil, Int.add_zero]
  | cons t inside ih =>
    rw [List.forall_mem_cons] at hinside
    have hstep : 0 ≤ parenBalance [t] := by
      rw [parenBalance_of_not_close (List.forall_mem_singleton.mpr hinside.1)]
      exact Int.natCast_nonneg _
    have hpos : 0 < outer + parenBalance [t] := by omega
    have hne : outer + parenBalance [t] ≠ 0 := by omega
    rw [List.cons_append, evensOut_cons_iff, ih hpos hinside.2, parenBalance_cons t inside,
      Int.add_assoc]
    simp [hne]

/-- From its opening parenthesis a header evens out at the first one that closes, where none has been
opened inside, and otherwise where those opened inside are closed behind that one. -/
theorem evensOut_header_iff {o c : Token} (ho : o.kind = .bracket .openParen)
    (hinside : ∀ t ∈ inside, t.kind ≠ .bracket .closeParen)
    (hc : c.kind = .bracket .closeParen) (hline : c.span.line = line) :
    EvensOut 0 line (o :: (inside ++ c :: behind)) ↔
      inside.countP (·.isBracket .openParen) = 0 ∨
        EvensOut (inside.countP (·.isBracket .openParen)) line behind := by
  have hopen : (0 : Int) + 1 ≠ 0 := by decide
  have hclose : (1 : Int) + inside.countP (·.isBracket .openParen) + -1 =
      inside.countP (·.isBracket .openParen) := by omega
  rw [evensOut_cons_iff, parenBalance_open ho, Int.zero_add, evensOut_append_iff (by decide) hinside,
    evensOut_cons_iff, parenBalance_close hc, hclose, Int.natCast_eq_zero]
  simp [hline]

end Balance

/-- What stands in parentheses on a line begins with what stands there up to the first one that closes. -/
theorem Enclosed.exists_first {line : Nat} {ts inside behind : List Token}
    (h : Enclosed .openParen .closeParen line ts inside behind) : ∃ first more,
      Enclosed .openParen .closeParen line ts first more ∧
        ∀ t ∈ first, t.kind ≠ .bracket .closeParen := by
  obtain ⟨o, c, rfl, ho, hc, hline, hinside⟩ := h
  obtain ⟨header, hcollect⟩ :
      ∃ header, HeaderTokens.collect? line (inside ++ c :: behind) = some header :=
    HeaderTokens.exists_collect? hc hline hinside
  obtain ⟨htokens, hclose, hcloseLine, hfirst⟩ := HeaderTokens.collect?_eq_some_iff.mp hcollect
  exact ⟨_, _, ⟨o, header.close, by rw [htokens], ho, hclose, hcloseLine, fun t ht => (hfirst t ht).2⟩,
    fun t ht => (hfirst t ht).1⟩

/-- In a text that passes its checks, a word that prints or reads has parentheses behind it that are
closed on its line. Counted from the opening one they are balanced on this line exactly where none is
opened in front of the first that closes, or else those opened there are closed behind it. -/
theorem lex_parentheses {source : String} {lines : List TokenLine} {i : Nat} {k : Token}
    (h : lex source = .ok lines) (hk : (TokenLine.flatten lines)[i]? = some k)
    (hkind : k.kind = .keyword) (hword : k.lexeme = "spill" ∨ k.lexeme = "post") :
    ∃ inside behind,
      Enclosed .openParen .closeParen k.span.line ((TokenLine.flatten lines).drop (i + 1))
        inside behind ∧
      (∀ t ∈ inside, t.kind ≠ .bracket .closeParen) ∧
      (EvensOut 0 k.span.line ((TokenLine.flatten lines).drop (i + 1)) ↔
        inside.countP (·.isBracket .openParen) = 0 ∨
          EvensOut (inside.countP (·.isBracket .openParen)) k.span.line behind) := by
  obtain ⟨-, hchecks⟩ := lex_eq_ok_iff.mp h
  have hrule := checkTokens_none_eq_ok_iff.mp hchecks i k hk
  have hclosed : ∃ inside behind, Enclosed .openParen .closeParen k.span.line
      ((TokenLine.flatten lines).drop (i + 1)) inside behind := by
    rcases hword with hword | hword
    · exact hrule.shapeless .print hkind hword rfl
    · exact hrule.shapeless .input hkind hword rfl
  obtain ⟨inside, behind, henclosed⟩ := hclosed
  obtain ⟨inside, behind, henclosed, hinside⟩ := henclosed.exists_first
  refine ⟨inside, behind, henclosed, hinside, ?_⟩
  obtain ⟨o, c, htokens, ho, hc, hline, -⟩ := henclosed
  rw [htokens]
  exact evensOut_header_iff ho hinside hc hline

theorem lex_parentheses_nested : ∃ lines k, lex "spill((1) + 2)" = .ok lines ∧
    (TokenLine.flatten lines)[0]? = some k ∧ k.kind = .keyword ∧ k.lexeme = "spill" ∧
    ∃ inside behind,
      Enclosed .openParen .closeParen k.span.line ((TokenLine.flatten lines).drop 1)
        inside behind ∧
      (∀ t ∈ inside, t.kind ≠ .bracket .closeParen) ∧
      (EvensOut 0 k.span.line ((TokenLine.flatten lines).drop 1) ↔
        inside.countP (·.isBracket .openParen) = 0 ∨
          EvensOut (inside.countP (·.isBracket .openParen)) k.span.line behind) := by
  have hok : (lex "spill((1) + 2)").toOption.any (fun lines =>
      (TokenLine.flatten lines)[0]? = some ⟨.keyword, "spill", ⟨1, 1, 5⟩⟩) = true := by
    decide +kernel
  obtain ⟨lines, hlines, hk⟩ := exists_ok_of_any hok
  have hk := of_decide_eq_true hk
  exact ⟨lines, _, hlines, hk, rfl, rfl, lex_parentheses hlines hk rfl (.inl rfl)⟩

/-- The checks accept a header of which one parenthesis stays open. -/
theorem openParenthesis_accepted : ∃ lines k, lex "spill((1)" = .ok lines ∧
    (TokenLine.flatten lines)[0]? = some k ∧ k.kind = .keyword ∧ k.lexeme = "spill" ∧
    ¬ EvensOut 0 k.span.line ((TokenLine.flatten lines).drop 1) := by
  have hok : (lex "spill((1)").toOption.any (fun lines =>
      (TokenLine.flatten lines)[0]? = some ⟨.keyword, "spill", ⟨1, 1, 5⟩⟩ ∧
        ¬ EvensOut 0 1 ((TokenLine.flatten lines).drop 1)) = true := by
    decide +kernel
  obtain ⟨lines, hlines, hopen⟩ := exists_ok_of_any hok
  obtain ⟨hk, hopen⟩ := of_decide_eq_true hopen
  exact ⟨lines, _, hlines, hk, rfl, rfl, hopen⟩

end SlangScript
