import SlangScript.Proofs.BlockExtent
import SlangScript.Proofs.Checked
import SlangScript.Proofs.Numerals

/-! What a program must be for its checks to pass: each token that opens something is followed by what its
rule asks for. The rules say what has to stand there, not how it is looked for. -/
namespace SlangScript

/-- A pair of brackets comes first: `inside` and the bracket that closes it stand on the line, and
`behind` follows. -/
def Enclosed (left right : Bracket) (line : Nat) (ts inside behind : List Token) : Prop :=
  ∃ o c, ts = o :: (inside ++ c :: behind) ∧ o.kind = .bracket left ∧ c.kind = .bracket right ∧
    c.span.line = line ∧ ∀ t ∈ inside, t.span.line = line

/-- A block comes first, and more than braces stands in it. -/
def HasBlock (ts : List Token) : Prop :=
  ∃ o e, ts.head? = some o ∧ o.kind = .bracket .openBrace ∧ BlockEnds 0 ts e ∧
    ∃ t ∈ ts.take e, t.isBrace = false

/-- A token that may stand in a line list: a comma, or the number of a line, of which there are
`lineCount`. -/
def IsEntry (lineCount : Nat) (t : Token) : Prop :=
  t.kind = .delimiter .comma ∨
    t.kind = .integer ∧ ∃ n, IsNumeral t.lexeme n ∧ n < 2 ^ 64 ∧ 1 ≤ n ∧ n ≤ lineCount

/-- The rule for a token that stands behind `before` and in front of `rest`, in a program of so many
lines. -/
structure MeetsRule (lineCount : Nat) (before : Option Token) (t : Token) (rest : List Token) :
    Prop where
  /-- A construct with a shape has a header of that shape and a block. -/
  shaped : ∀ (c : Construct) slots, t.kind = .keyword → t.lexeme = c.keyword → c.shape = some slots →
    ∃ inside behind, Enclosed .openParen .closeParen t.span.line rest inside behind ∧
      Fits inside slots ∧ HasBlock behind
  /-- A construct without one has parentheses that are closed on its line. -/
  shapeless : ∀ c : Construct, t.kind = .keyword → t.lexeme = c.keyword → c.shape = none →
    ∃ inside behind, Enclosed .openParen .closeParen t.span.line rest inside behind
  otherwise : t.kind = .keyword → t.lexeme = "else" →
    (∃ s, rest.head? = some s ∧ s.isWord "sus" = true) ∨ HasBlock rest
  definition : t.kind = .reservedWord → t.lexeme = "trend" →
    ∃ f, rest.head? = some f ∧ f.kind = .function
  /-- A function has plain arguments, and a block where it is defined. -/
  function : t.kind = .function →
    ∃ inside behind, Enclosed .openParen .closeParen t.span.line rest inside behind ∧
      (∀ p ∈ inside, p.kind ∈ [TokenKind.identifier, .delimiter .comma, .reservedWord, .integer,
        .floatNumber]) ∧
      ((∃ b, before = some b ∧ b.isWord "trend" = true) → HasBlock behind)
  /-- `line =` is given a list of entries. -/
  lineList : t.isLine → ∀ s, rest.head? = some s → s.operator? = some .assign →
    ∃ inside behind, Enclosed .openBracket .closeBracket t.span.line rest.tail inside behind ∧
      ∀ p ∈ inside, IsEntry lineCount p

/-! ### Parts of the checks -/

section Blocks
variable {before o : Token} {after : String} {ts inside behind : List Token} {e : Nat}

/-- Behind its opening brace a block ends where one more is closed than opened. -/
theorem BlockEnds.cons_open_iff (ho : o.kind = .bracket .openBrace) :
    BlockEnds 0 (o :: inside) e ↔ ∃ j, e = j + 1 ∧ BlockEnds 1 inside j := by
  cases e with
  | zero => simp [zero_iff, braceBalance_open ho]
  | succ j => simp [succ_iff, braceBalance_open ho]

theorem hasBlock_cons_iff : HasBlock (o :: inside) ↔ o.kind = .bracket .openBrace ∧
    ∃ j, BlockEnds 1 inside j ∧ ∃ t ∈ inside.take j, t.isBrace = false := by
  constructor
  · rintro ⟨_, e, ⟨⟩, ho, hends, t, ht, hbrace⟩
    obtain ⟨j, rfl, hj⟩ := (BlockEnds.cons_open_iff ho).mp hends
    rw [List.take_succ_cons, List.mem_cons] at ht
    rcases ht with rfl | ht
    · rw [Token.isBrace_of_open ho] at hbrace
      cases hbrace
    · exact ⟨ho, j, hj, t, ht, hbrace⟩
  · rintro ⟨ho, j, hj, t, ht, hbrace⟩
    refine ⟨o, j + 1, rfl, ho, (BlockEnds.cons_open_iff ho).mpr ⟨j, rfl, hj⟩, t, ?_, hbrace⟩
    rw [List.take_succ_cons]
    exact .tail o ht

theorem not_hasBlock_nil : ¬ HasBlock [] := by
  rintro ⟨o, e, ⟨⟩, -⟩

/-- The search from inside a block succeeds, with more than braces passed, where there is a block. -/
theorem blockEnd?_true_iff :
    (∃ e, blockEnd? 1 0 false inside = some (e, true)) ↔
      ∃ j, BlockEnds 1 inside j ∧ ∃ t ∈ inside.take j, t.isBrace = false := by
  constructor
  · rintro ⟨e, he⟩
    obtain ⟨j, -, hj, hany⟩ := blockEnd?_eq_some_iff.mp he
    rw [Bool.false_or, eq_comm, List.any_eq_true] at hany
    exact ⟨j, hj, by simpa using hany⟩
  · rintro ⟨j, hj, hany⟩
    refine ⟨1 + j, blockEnd?_eq_some_iff.mpr ⟨j, rfl, hj, ?_⟩⟩
    rw [Bool.false_or, eq_comm, List.any_eq_true]
    simpa using hany

theorem checkBlock_eq_ok_iff : checkBlock before after ts = .ok () ↔ HasBlock ts := by
  cases ts with
  | nil => simp [checkBlock, not_hasBlock_nil]
  | cons o inside =>
    rw [hasBlock_cons_iff, ← blockEnd?_true_iff, ← Token.isBracket_iff, checkBlock]
    cases hopen : o.isBracket .openBrace with
    | false => simp
    | true =>
      rcases hend : blockEnd? 1 0 false inside with _ | ⟨e, _ | _⟩ <;> simp

end Blocks

section Heads
variable {head : Token} {c : Construct} {before : Option Token} {ts : List Token}

theorem except_bind_eq_ok {ε α β : Type} {x : Except ε α} {f : α → Except ε β} {b : β} :
    x >>= f = .ok b ↔ ∃ a, x = .ok a ∧ f a = .ok b := by
  cases x with
  | error => simp [bind, Except.bind]
  | ok => simp [bind, Except.bind]

theorem except_bind_eq_error {ε α β : Type} {x : Except ε α} {f : α → Except ε β} {e : ε} :
    x >>= f = .error e ↔ x = .error e ∨ ∃ a, x = .ok a ∧ f a = .error e := by
  cases x with
  | error => simp [bind, Except.bind]
  | ok => simp [bind, Except.bind]

/-- Whether there is an error that passes the test. -/
def errorAny {ε α : Type} (p : ε → Bool) : Except ε α → Bool
  | .error e => p e
  | .ok _ => false

theorem exists_error_of_any {ε α : Type} {x : Except ε α} {p : ε → Bool} (h : errorAny p x = true) :
    ∃ e, x = .error e ∧ p e = true := by
  cases x with
  | error e => exact ⟨e, rfl, h⟩
  | ok => cases h

/-- What is asked of the header behind a head, and of what follows it, is asked of the first
parentheses. -/
theorem HeaderTokens.exists_after_iff {P : List Token → List Token → Prop}
    (hP : ∀ inside behind, P inside behind → ∀ p ∈ inside, p.kind ≠ .bracket .closeParen) :
    (∃ h, after head ts = .ok h ∧ P h.parameters h.rest) ↔ ∃ inside behind,
      Enclosed .openParen .closeParen head.span.line ts inside behind ∧ P inside behind := by
  constructor
  · rintro ⟨h, hafter, hp⟩
    obtain ⟨o, ho, hts, hclose, hline, hinside⟩ := after_eq_ok_iff.mp hafter
    exact ⟨_, _, ⟨o, h.close, hts, ho, hclose, hline, fun t ht => (hinside t ht).2⟩, hp⟩
  · rintro ⟨inside, behind, ⟨o, c, hts, ho, hclose, hline, hinside⟩, hp⟩
    exact ⟨⟨inside, c, behind⟩, after_eq_ok_iff.mpr ⟨o, ho, hts, hclose, hline,
      fun t ht => ⟨hP inside behind hp t ht, hinside t ht⟩⟩, hp⟩

theorem checkConstruct_shaped_iff {slots : List HeaderSlot} (hc : c.shape = some slots) :
    checkConstruct head c ts = .ok () ↔ ∃ inside behind,
      Enclosed .openParen .closeParen head.span.line ts inside behind ∧
        Fits inside slots ∧ HasBlock behind := by
  rw [checkConstruct, except_bind_eq_ok, ← HeaderTokens.exists_after_iff fun _ _ h => h.1.not_close]
  simp only [hc, except_bind_eq_ok, checkShape_eq_ok_iff (Construct.shape_ne_nil hc),
    checkBlock_eq_ok_iff, exists_const]

/-- Where the line closes a parenthesis at all, a header is read. -/
theorem HeaderTokens.exists_collect? {line : Nat} {c : Token} {inside behind : List Token}
    (hc : c.kind = .bracket .closeParen) (hline : c.span.line = line)
    (hinside : ∀ t ∈ inside, t.span.line = line) :
    ∃ h, collect? line (inside ++ c :: behind) = some h := by
  induction inside with
  | nil => exact ⟨_, collect?_append nofun hc hline⟩
  | cons t inside ih =>
    rw [List.forall_mem_cons] at hinside
    obtain ⟨h, hcollect⟩ := ih hinside.2
    cases ht : t.isBracket .closeParen <;> simp [collect?, hinside.1, ht, hcollect]

theorem checkConstruct_shapeless_iff (hc : c.shape = none) :
    checkConstruct head c ts = .ok () ↔ ∃ inside behind,
      Enclosed .openParen .closeParen head.span.line ts inside behind := by
  rw [checkConstruct, except_bind_eq_ok]
  simp only [hc, and_true]
  constructor
  · rintro ⟨h, hafter⟩
    obtain ⟨o, ho, hts, hclose, hline, hinside⟩ := HeaderTokens.after_eq_ok_iff.mp hafter
    exact ⟨_, _, o, h.close, hts, ho, hclose, hline, fun t ht => (hinside t ht).2⟩
  · rintro ⟨inside, behind, o, c, rfl, ho, hclose, hline, hinside⟩
    obtain ⟨h, hcollect⟩ := HeaderTokens.exists_collect? hclose hline hinside
    exact ⟨h, HeaderTokens.after_cons_eq_ok_iff.mpr ⟨ho, hcollect⟩⟩

theorem checkElse_eq_ok_iff : checkElse head ts = .ok () ↔
    (∃ s, ts.head? = some s ∧ s.isWord "sus" = true) ∨ HasBlock ts := by
  rw [checkElse, ← Option.any_eq_true]
  split <;> simp [*, checkBlock_eq_ok_iff]

theorem checkDefinition_eq_ok_iff : checkDefinition head ts = .ok () ↔
    ∃ f, ts.head? = some f ∧ f.kind = .function := by
  rw [checkDefinition]
  cases ts.head? with
  | none => simp
  | some f => simp

theorem TokenKind.isArgument_iff {kind : TokenKind} : kind.isArgument = true ↔
    kind ∈ [identifier, .delimiter .comma, reservedWord, integer, floatNumber] := by
  rcases kind with _ | _ | _ | _ | _ | _ | _ | _ | _ | (_ | _ | _) <;> simp [isArgument]

theorem checkFunction_eq_ok_iff : checkFunction before head ts = .ok () ↔ ∃ inside behind,
    Enclosed .openParen .closeParen head.span.line ts inside behind ∧
      (∀ p ∈ inside, p.kind.isArgument = true) ∧
      ((∃ b, before = some b ∧ b.isWord "trend" = true) → HasBlock behind) := by
  rw [checkFunction, except_bind_eq_ok, ← HeaderTokens.exists_after_iff]
  · refine exists_congr fun h => and_congr_right fun _ => ?_
    cases hf : h.parameters.find? fun p => !p.kind.isArgument with
    | some p =>
      have hp : p.kind.isArgument = false := by simpa using List.find?_some hf
      refine iff_of_false (by simp) fun harguments => ?_
      rw [harguments.1 p (List.mem_of_find?_eq_some hf)] at hp
      cases hp
    | none =>
      have harguments : ∀ p ∈ h.parameters, p.kind.isArgument = true := by
        simpa using List.find?_eq_none.mp hf
      rw [← Option.any_eq_true, and_iff_right harguments]
      cases before.any (·.isWord "trend") <;> simp [checkBlock_eq_ok_iff]
  · rintro inside behind ⟨harguments, -⟩ p hp hclose
    have harg := harguments p hp
    rw [hclose] at harg
    cases harg

end Heads

section LineLists
variable {lineCount line : Nat} {head opening t : Token} {ts : List Token}

theorem namesLine_iff {numeral : String} : namesLine lineCount numeral = true ↔
    ∃ n, IsNumeral numeral n ∧ n < 2 ^ 64 ∧ 1 ≤ n ∧ n ≤ lineCount := by
  simp [namesLine, Option.any_eq_true, count64?_eq_some_iff, and_assoc]

theorem checkEntries_cons_iff : checkEntries lineCount line opening (t :: ts) = .ok () ↔
    t.span.line = line ∧ (t.kind = .bracket .closeBracket ∨
      IsEntry lineCount t ∧ checkEntries lineCount line opening ts = .ok ()) := by
  rw [checkEntries]
  by_cases hline : t.span.line = line
  · rw [if_neg (not_not.mpr hline), and_iff_right hline, IsEntry]
    split
    · simp [*]
    · simp [*]
    · rename_i hkind
      simp only [hkind, ← namesLine_iff]
      split <;> simp [*]
    · rename_i hclose hcomma hinteger
      refine iff_of_false nofun ?_
      rintro (h | ⟨h | ⟨h, -⟩, -⟩)
      exacts [hclose h, hcomma h, hinteger h]
  · simp [hline]

/-- What is read of a line list in front of its closing bracket is its entries. -/
theorem checkEntries_eq_ok_iff : checkEntries lineCount line opening ts = .ok () ↔
    ∃ inside c behind, ts = inside ++ c :: behind ∧ c.kind = .bracket .closeBracket ∧
      c.span.line = line ∧ ∀ t ∈ inside, t.span.line = line ∧ IsEntry lineCount t := by
  induction ts with
  | nil => simp [checkEntries]
  | cons t ts ih =>
    rw [checkEntries_cons_iff, ih]
    constructor
    · rintro ⟨hline, hclose | ⟨hentry, inside, c, behind, rfl, hc⟩⟩
      · exact ⟨[], t, ts, rfl, hclose, hline, nofun⟩
      · exact ⟨t :: inside, c, behind, rfl, hc.1, hc.2.1,
          List.forall_mem_cons.mpr ⟨⟨hline, hentry⟩, hc.2.2⟩⟩
    · rintro ⟨_ | ⟨t', inside⟩, c, behind, ⟨⟩, hc, hline, hinside⟩
      · exact ⟨hline, .inl hc⟩
      · rw [List.forall_mem_cons] at hinside
        exact ⟨hinside.1.1, .inr ⟨hinside.1.2, inside, c, behind, rfl, hc, hline, hinside.2⟩⟩

theorem checkEntries_enclosed_iff (hopening : opening.kind = .bracket .openBracket) :
    checkEntries lineCount line opening ts = .ok () ↔ ∃ inside behind,
      Enclosed .openBracket .closeBracket line (opening :: ts) inside behind ∧
        ∀ p ∈ inside, IsEntry lineCount p := by
  rw [checkEntries_eq_ok_iff]
  constructor
  · rintro ⟨inside, c, behind, rfl, hc, hline, hinside⟩
    exact ⟨inside, behind, ⟨opening, c, rfl, hopening, hc, hline, fun t ht => (hinside t ht).1⟩,
      fun t ht => (hinside t ht).2⟩
  · rintro ⟨inside, behind, ⟨_, c, ⟨⟩, -, hc, hline, hinside⟩, hentries⟩
    exact ⟨inside, c, behind, rfl, hc, hline, fun t ht => ⟨hinside t ht, hentries t ht⟩⟩

theorem checkLineList_eq_ok_iff : checkLineList lineCount head ts = .ok () ↔
    ∀ s, ts.head? = some s → s.operator? = some .assign → ∃ inside behind,
      Enclosed .openBracket .closeBracket head.span.line ts.tail inside behind ∧
        ∀ p ∈ inside, IsEntry lineCount p := by
  cases ts with
  | nil => simp [checkLineList]
  | cons s list =>
    simp only [List.head?_cons, Option.some.injEq, forall_eq', List.tail_cons]
    rw [checkLineList.eq_def]
    by_cases hs : s.operator? = some .assign
    · simp only [hs, ↓reduceIte, forall_const]
      cases list with
      | nil => simp [Enclosed]
      | cons opening entries =>
        by_cases hopening : opening.kind = .bracket .openBracket
        · simp only [Token.isBracket_iff.mpr hopening, ↓reduceIte]
          exact checkEntries_enclosed_iff hopening
        · have hno : ¬ ∃ inside behind, Enclosed .openBracket .closeBracket head.span.line
              (opening :: entries) inside behind ∧ ∀ p ∈ inside, IsEntry lineCount p := by
            rintro ⟨inside, behind, ⟨_, c, ⟨⟩, ho, -⟩, -⟩
            exact hopening ho
          simp only [Token.isBracket_iff, hopening, ↓reduceIte]
          exact iff_of_false nofun hno
    · simp [hs]

end LineLists

/-! ### Tokens and programs -/

section Tokens
variable {lineCount : Nat} {before : Option Token} {t : Token} {rest : List Token}

theorem Construct.ofKeyword?_eq_some_iff {word : String} {c : Construct} :
    ofKeyword? word = some c ↔ word = c.keyword := by
  constructor
  · intro h
    simpa [eq_comm] using List.find?_some h
  · rintro rfl
    cases c <;> rfl

theorem checkToken_keyword_iff (ht : t.kind = .keyword) :
    checkToken lineCount before t rest = .ok () ↔
      (∀ c : Construct, t.lexeme = c.keyword → checkConstruct t c rest = .ok ()) ∧
        (t.lexeme = "else" → checkElse t rest = .ok ()) := by
  simp only [checkToken, ht, ← Construct.ofKeyword?_eq_some_iff]
  cases hc : Construct.ofKeyword? t.lexeme with
  | some c =>
    have helse : t.lexeme ≠ "else" := by
      rw [Construct.ofKeyword?_eq_some_iff.mp hc]
      cases c <;> decide
    simp [helse]
  | none => by_cases helse : t.lexeme = "else" <;> simp [helse]

/-- A token passes its check exactly where it meets its rule. -/
theorem checkToken_eq_ok_iff :
    checkToken lineCount before t rest = .ok () ↔ MeetsRule lineCount before t rest := by
  cases ht : t.kind with
  | keyword =>
    rw [checkToken_keyword_iff ht, checkElse_eq_ok_iff]
    constructor
    · rintro ⟨hconstruct, helse⟩
      constructor
      case shaped =>
        exact fun c slots _ hword hc => (checkConstruct_shaped_iff hc).mp (hconstruct c hword)
      case shapeless =>
        exact fun c _ hword hc => (checkConstruct_shapeless_iff hc).mp (hconstruct c hword)
      case otherwise => exact fun _ => helse
      all_goals simp [ht, Token.isLine]
    · intro h
      refine ⟨fun c hword => ?_, h.otherwise ht⟩
      cases hc : c.shape with
      | some slots => exact (checkConstruct_shaped_iff hc).mpr (h.shaped c slots ht hword hc)
      | none => exact (checkConstruct_shapeless_iff hc).mpr (h.shapeless c ht hword hc)
  | reservedWord =>
    have hcheck : checkToken lineCount before t rest = .ok () ↔
        (t.lexeme = "trend" → checkDefinition t rest = .ok ()) := by
      simp only [checkToken, ht]
      split <;> simp [*]
    rw [hcheck, checkDefinition_eq_ok_iff]
    refine ⟨fun hdefinition => ?_, fun h => h.definition ht⟩
    constructor
    case definition => exact fun _ => hdefinition
    all_goals simp [ht, Token.isLine]
  | function =>
    have hcheck : checkToken lineCount before t rest = checkFunction before t rest := by
      simp only [checkToken, ht]
    rw [hcheck, checkFunction_eq_ok_iff]
    simp only [TokenKind.isArgument_iff]
    refine ⟨fun hfunction => ?_, fun h => h.function ht⟩
    constructor
    case function => exact fun _ => hfunction
    all_goals simp [ht, Token.isLine]
  | identifier =>
    have hcheck : checkToken lineCount before t rest = .ok () ↔
        (t.lexeme = "line" → checkLineList lineCount t rest = .ok ()) := by
      simp only [checkToken, ht]
      split <;> simp [*]
    rw [hcheck, checkLineList_eq_ok_iff]
    refine ⟨fun hlist => ?_, fun h hline => h.lineList ⟨ht, hline⟩⟩
    constructor
    case lineList => exact fun hline => hlist hline.2
    all_goals simp [ht]
  | _ =>
    simp only [checkToken, ht, true_iff]
    constructor <;> simp [ht, Token.isLine]

end Tokens

/-- The token at this place of a program of so many lines meets its rule, if there is one. -/
def HeedsAt (lineCount : Nat) (ts : List Token) (i : Nat) : Prop :=
  ∀ t, ts[i]? = some t → MeetsRule lineCount (ts.take i).getLast? t (ts.drop (i + 1))

section Programs
variable {lineCount : Nat} {t : Token} {us ts : List Token}

theorem heedsAt_length :
    HeedsAt lineCount (us ++ t :: ts) us.length ↔ MeetsRule lineCount us.getLast? t ts := by
  simp [HeedsAt, List.drop_length_add_append]

/-- The checks of the tokens behind `us` pass exactly where all of these meet their rules. -/
theorem checkTokens_eq_ok_iff : checkTokens lineCount us.getLast? ts = .ok () ↔
    ∀ i, us.length ≤ i → HeedsAt lineCount (us ++ ts) i := by
  induction ts generalizing us with
  | nil =>
    refine iff_of_true rfl fun i hi t ht => ?_
    rw [List.append_nil, List.getElem?_eq_none hi] at ht
    cases ht
  | cons t ts ih =>
    have hstep := @ih (us ++ [t])
    rw [List.getLast?_concat, List.append_assoc, List.singleton_append, List.length_append,
      List.length_singleton] at hstep
    rw [checkTokens_cons, checkToken_eq_ok_iff, ← heedsAt_length, hstep]
    constructor
    · rintro ⟨hhead, htail⟩ i hi
      rcases Nat.eq_or_lt_of_le hi with rfl | hlt
      · exact hhead
      · exact htail i hlt
    · exact fun h => ⟨h _ (Nat.le_refl _), fun i hi => h i (Nat.le_of_succ_le hi)⟩

theorem checkTokens_none_eq_ok_iff :
    checkTokens lineCount none ts = .ok () ↔ ∀ i, HeedsAt lineCount ts i := by
  simpa using @checkTokens_eq_ok_iff lineCount [] ts

/-- Where the checks fail, the error is that of the first token that does not meet its rule. -/
theorem exists_of_checkTokens_eq_error {e : LexError}
    (h : checkTokens lineCount us.getLast? ts = .error e) :
    ∃ i t, us.length ≤ i ∧ (us ++ ts)[i]? = some t ∧
      (∀ j, us.length ≤ j → j < i → HeedsAt lineCount (us ++ ts) j) ∧
      checkToken lineCount ((us ++ ts).take i).getLast? t ((us ++ ts).drop (i + 1)) = .error e := by
  induction ts generalizing us with
  | nil => cases h
  | cons t ts ih =>
    cases ht : checkToken lineCount us.getLast? t ts with
    | error e' =>
      rw [checkTokens, ht] at h
      cases h
      exact ⟨us.length, t, Nat.le_refl _, by simp, fun j hj hlt => absurd hj (Nat.not_le.mpr hlt),
        by simpa [List.drop_length_add_append] using ht⟩
    | ok =>
      rw [checkTokens, ht] at h
      obtain ⟨i, t', hi, hget, hheed, herror⟩ := @ih (us ++ [t]) (by rwa [List.getLast?_concat])
      rw [List.append_assoc, List.singleton_append] at hget hheed herror
      rw [List.length_append, List.length_singleton] at hi hheed
      refine ⟨i, t', Nat.le_of_succ_le hi, hget, fun j hj hlt => ?_, herror⟩
      rcases Nat.eq_or_lt_of_le hj with rfl | hj
      · exact heedsAt_length.mpr (checkToken_eq_ok_iff.mp ht)
      · exact hheed j hj hlt

end Programs

section Validation
variable {lines out : List TokenLine}

/-- A program is accepted exactly where every token of it meets its rule, and is handed on as it is. -/
theorem validate_eq_ok_iff : validate lines = .ok out ↔
    out = lines ∧ ∀ i, HeedsAt lines.length (TokenLine.flatten lines) i := by
  rw [validate, except_bind_eq_ok, ← checkTokens_none_eq_ok_iff]
  constructor
  · rintro ⟨_, hok, ⟨⟩⟩
    exact ⟨rfl, hok⟩
  · rintro ⟨rfl, hok⟩
    exact ⟨(), hok, rfl⟩

/-- A program is rejected for the first token of it that does not meet its rule. -/
theorem exists_of_validate_eq_error {e : LexError} (h : validate lines = .error e) :
    ∃ i t, (TokenLine.flatten lines)[i]? = some t ∧
      (∀ j < i, HeedsAt lines.length (TokenLine.flatten lines) j) ∧
      checkToken lines.length ((TokenLine.flatten lines).take i).getLast? t
        ((TokenLine.flatten lines).drop (i + 1)) = .error e := by
  rw [validate] at h
  cases hchecks : checkTokens lines.length none (TokenLine.flatten lines) with
  | ok =>
    rw [hchecks] at h
    cases h
  | error e' =>
    rw [hchecks] at h
    cases h
    simpa using @exists_of_checkTokens_eq_error lines.length [] (TokenLine.flatten lines) e hchecks

end Validation

end SlangScript
