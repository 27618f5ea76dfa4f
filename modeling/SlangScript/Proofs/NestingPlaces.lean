import SlangScript.Proofs.OpenLevels
import SlangScript.Proofs.Unparse

/-! Where the depth is complained about: at a bracket that would open one level too many, or where a block
has to follow, whether it does or not. Everywhere else in a program of that depth something else is
read. -/
namespace SlangScript

namespace Production
variable {limit : Nat} {bs : List Bool} {x : Bool} {inner p group array : Production Tree}

theorem literal_leads (tag : Tag) (text : String) :
    Leads limit (Facing bs (Ahead (·.kind.isBracket = false) Anything)) (literal tag text)
      fun _ => Inside bs := by
  refine .bind (.skip_facing fun _ ht => ht) fun _ => ?_
  refine .weaken (.bind (.accept?_other fun _ _ => not_bracket_of_filtered) fun o => ?_)
    fun _ _ hs => hs.1.1
  cases o with
  | none => exact .pure fun _ _ hs => hs
  | some op => exact .pure fun _ _ hs => hs.1

theorem operand_leads
    (hgroup : Leads limit (fun s ts => Groups bs s ts ∧ Ahead (·.kind = .bracket .openParen) Anything ts)
      group fun _ => Inside bs)
    (harray : Leads limit (Opens bs) array fun _ => Inside bs) :
    Leads limit (Groups bs) (operand group array) fun _ => Inside bs := by
  refine .look fun c => ?_
  cases c with
  | none => exact .fail (by simp)
  | some t =>
    dsimp only
    split
    · exact hgroup.weaken fun s ts hs => ⟨hs.1, .of_head? hs.2 ‹_›⟩
    · exact harray.weaken fun s ts hs =>
        opens_of_ahead (b := .openBracket) (by simp) hs.1.1 (.of_head? hs.2 ‹_›)
    · split
      · rename_i tag htag
        exact (literal_leads tag t.lexeme).weaken fun s ts hs =>
          ⟨hs.1.1, .of_head? hs.2 (not_bracket_of_operand htag)⟩
      · exact .fail (by simp)

/-- A parenthesis that groups takes up a level. -/
theorem grouped_leads (h : Leads limit (Groups (true :: bs)) inner fun _ => Inside (true :: bs)) :
    Leads limit (fun s ts => Groups bs s ts ∧ Ahead (·.kind = .bracket .openParen) Anything ts)
      (grouped inner) fun _ => Inside bs := by
  have hskip : Leads limit
      (fun s ts => Groups bs s ts ∧ Ahead (·.kind = .bracket .openParen) Anything ts) skip
      fun _ => Behind (true :: bs) (·.kind = .bracket .openParen) := by
    refine .skip ?_ ?_
    · rintro s ⟨-, t, rest, h, -⟩
      cases h
    · rintro s t ts ⟨⟨hbrackets, hbefore⟩, _, _, ⟨⟩, ht, -⟩
      refine ⟨?_, t, rfl, ht⟩
      rw [Nesting.step_paren ht, hbefore, hbrackets]
      rfl
  exact .bind hskip fun _ => .bind (h.grouping fun _ ht => heads_of_kind ht rfl) fun _ =>
    .bind (.expect_close (by simp)) fun _ => .pure fun _ _ hs => hs.1

theorem chain_leads (h : Leads limit (Groups bs) p fun _ => Inside bs) :
    Leads limit (Groups bs) (chain p) fun _ => Inside bs := by
  refine h.bind fun first => .bind (.many (.bind (.accept?_other fun _ _ => not_bracket_of_filtered)
    fun o => ?_)) fun more => .pure fun _ _ hs => hs
  cases o with
  | none => exact .pure fun _ _ hs => hs
  | some op =>
    exact .bind (h.grouping fun _ => heads_of_filtered) fun _ => .pure fun _ _ hs => hs

theorem commaSeparated_leads (h : Leads limit (Groups bs) p fun _ => Inside bs) :
    Leads limit (Groups bs) (commaSeparated p) fun _ => Inside bs := by
  refine h.bind fun first => .bind (.many (.bind (.skipIf_other rfl) fun b => ?_)) fun more =>
    .pure fun _ _ hs => hs
  cases b with
  | false => exact .pure fun _ _ hs => hs
  | true =>
    exact .bind (h.grouping fun _ ht => heads_of_kind ht rfl) fun _ => .pure fun _ _ hs => hs

theorem listUntil_leads {close : Bracket} (hclose : close ∈ [.closeParen, .closeBracket, .closeBrace])
    (h : Leads limit (Groups (x :: bs)) p fun _ => Inside (x :: bs)) :
    Leads limit (Groups (x :: bs)) (listUntil close p) fun _ => Inside bs := by
  rw [listUntil_eq]
  refine .look fun b => .bind (Q := fun _ => Inside (x :: bs)) ?_ fun _ =>
    .bind (.expect_close hclose) fun _ => .pure fun _ _ hs => hs.1
  cases b with
  | false => exact (commaSeparated_leads h).weaken fun _ _ hs => hs.1
  | true => exact .pure fun _ _ hs => hs.1.1

/-- The parentheses of a call take up no level. -/
theorem call_leads (h : Leads limit (Groups (false :: bs)) p fun _ => Inside (false :: bs)) :
    Leads limit (Inside bs) (call p) fun _ => Inside bs := by
  refine .bind (.expect_other rfl) fun name =>
    .bind (.of_head .expect_header fun _ => heads_of_function) fun _ => ?_
  exact .bind ((listUntil_leads (by simp) h).grouping fun _ ht => heads_of_kind ht rfl) fun _ =>
    .pure fun _ _ hs => hs

theorem arrayOf_leads {k : Nat} (h : ∀ bs : List Bool, bs.count true = k + 1 →
      Leads limit (Groups bs) inner fun _ => Inside bs) (hbs : bs.count true = k) :
    Leads limit (Opens bs) (arrayOf inner) fun _ => Inside bs := by
  have helement : Leads limit (Groups (true :: bs)) (element inner) fun _ => Inside (true :: bs) := by
    refine .look fun b => ?_
    cases b with
    | false => exact (h _ (by simp [hbs])).weaken fun _ _ hs => hs.1
    | true => exact (call_leads (h _ (by simp [hbs]))).weaken fun _ _ hs => hs.1.1
  have helements : Leads limit (Groups (true :: bs)) (listUntil .closeBracket (element inner))
      fun _ => Inside bs := listUntil_leads (by simp) helement
  exact .weaken (.bind (.expect_open (by simp)) fun _ =>
    .bind (helements.grouping fun _ ht => heads_of_kind ht rfl) fun _ =>
    .pure fun _ _ hs => hs) fun _ _ hs => hs.1

/-- Where `k` levels are open and no further one may be, the limit is exceeded by the next. -/
theorem exceeds_of_opens {s : Nesting} {ts : List Token} (hbs : bs.count true = limit)
    (hs : Opens bs s ts) : Exceeds limit s ts := ⟨by rw [Nesting.levels, hs.1, hbs], hs.2⟩

theorem tooDeep_leads {l : Nat} {Q : Tree → Assertion} (hbs : bs.count true = limit) :
    Leads limit (Opens bs) (tooDeep l) Q := .tooDeep fun _ _ => exceeds_of_opens hbs

theorem expression_leads (l : Nat) {k room : Nat} (hk : k + room = limit) (hbs : bs.count true = k) :
    Leads limit (Groups bs) (expression l room) fun _ => Inside bs := by
  induction room generalizing k bs with
  | zero =>
    refine chain_leads (operand_leads ?_ (tooDeep_leads (hbs.trans hk)))
    exact (tooDeep_leads (hbs.trans hk)).weaken fun s ts hs => opens_of_ahead (by simp) hs.1.1 hs.2
  | succ room ih =>
    have hin {bs : List Bool} (hbs : bs.count true = k + 1) :
        Leads limit (Groups bs) (expression l room) fun _ => Inside bs := ih (by omega) hbs
    exact chain_leads (operand_leads (grouped_leads (hin (by simp [hbs])))
      (arrayOf_leads (fun _ => hin) hbs))

theorem arrayLiteral_leads (l : Nat) {k room : Nat} (hk : k + room = limit) (hbs : bs.count true = k) :
    Leads limit (Opens bs) (arrayLiteral l room) fun _ => Inside bs := by
  cases room with
  | zero => exact tooDeep_leads (hbs.trans hk)
  | succ room => exact arrayOf_leads (fun _ => expression_leads l (by omega)) hbs

end Production

namespace Level
open Production
variable {limit k : Nat} {bs : List Bool} {l : Level}

/-- The productions of a level, with `k` levels open in front of them. -/
structure LeadsWithin (limit k : Nat) (l : Level) : Prop where
  expression : ∀ bs : List Bool, bs.count true = k →
    Leads limit (Groups bs) l.expression fun _ => Inside bs
  array : ∀ bs : List Bool, bs.count true = k → Leads limit (Opens bs) l.array fun _ => Inside bs
  braces : ∀ bs : List Bool, bs.count true = k → Leads limit (Opens bs) l.braces fun _ => Inside bs

theorem terminated_leads {P : Assertion} {p : Production Tree} (h : Leads limit P p fun _ => Inside bs) :
    Leads limit P (terminated p) fun _ => Inside bs := by
  refine h.bind fun t => .bind (.skipIf_other rfl) fun b => .pure fun s ts hs => ?_
  cases b with
  | false => exact hs
  | true => exact hs.1

/-- A statement that begins with a word goes on behind it. -/
theorem word_leads {word : String} {p : Production Tree}
    (h : Leads limit (Behind bs (·.isWord word = true)) p fun _ => Inside bs) :
    Leads limit (Facing bs (Ahead (fun t => t.isWord word = true) Anything)) (skip >>= fun _ => p)
      fun _ => Inside bs :=
  .bind (.skip_facing fun _ => not_bracket_of_isWord) fun _ => h.weaken fun _ _ hs => hs.1

theorem input_leads :
    Leads limit (Facing bs (Opening.construct .input).Begins) input fun _ => Inside bs :=
  word_leads <| .bind (.of_head .expect_header fun _ => heads_of_construct) fun _ =>
    .bind (.from_behind (.expect_other rfl)) fun _ =>
    .bind (.from_behind (.expect_close (by simp))) fun _ => .pure fun _ _ hs => hs.1

theorem parameter?_leads : Leads limit (Inside bs) parameter? fun _ => Inside bs := by
  have hskip : Leads limit (Facing bs (Ahead (·.kind.isWord = true) Anything)) skip
      fun _ => Inside bs := .mono (.skip_facing fun _ => not_bracket_of_word) fun _ _ _ hs => hs.1.1
  refine .look fun c => ?_
  cases c with
  | none => exact .pure fun _ _ hs => hs.1
  | some t =>
    dsimp only
    split
    · exact .pure fun _ _ hs => hs.1
    · split
      · rename_i hword
        exact .bind (hskip.weaken fun s ts hs => ⟨hs.1, .of_head? hs.2 hword⟩) fun _ =>
          .bind (.expect_other rfl) fun _ => .pure fun _ _ hs => hs.1
      · exact .fail (by simp)

theorem parameters_leads : Leads limit (Inside bs) parameters fun _ => Inside bs := by
  refine .bind parameter?_leads fun o => ?_
  cases o with
  | none => exact .pure fun _ _ hs => hs
  | some first =>
    refine .bind (.many (.bind (.skipIf_other rfl) fun b => ?_)) fun _ => .pure fun _ _ hs => hs
    cases b with
    | false => exact .pure fun _ _ hs => hs
    | true => exact .from_behind parameter?_leads

theorem lineList_leads : Leads limit (Facing bs Opening.lineList.Begins) lineList fun _ => Inside bs := by
  have hnumber : Leads limit (Groups (true :: bs))
      (do let t ← expect .integer; pure (Tree.leaf .integer t.lexeme)) fun _ => Inside (true :: bs) :=
    .bind (.weaken (.expect_other rfl) fun _ _ hs => hs.1) fun _ => .pure fun _ _ hs => hs.1
  have hentries : Leads limit (Inside bs)
      (do let _ ← expect (.bracket .openBracket)
          let numbers ← listUntil .closeBracket do
            let n ← expect .integer
            pure (Tree.leaf .integer n.lexeme)
          pure (Tree.node .lineStmt none numbers)) fun _ => Inside bs :=
    .bind (.expect_open (by simp)) fun _ => .bind ((listUntil_leads (by simp) hnumber).grouping
      fun _ ht => heads_of_kind ht rfl) fun _ => .pure fun _ _ hs => hs
  have hassigned : Leads limit (Facing bs (Ahead (·.operator? = some .assign) Anything)) skip
      fun _ => Inside bs :=
    .mono (.skip_facing fun _ => not_bracket_of_operator) fun _ _ _ hs => hs.1.1
  exact .bind (.skip_facing fun _ ht => not_bracket_of_kind ht.1 rfl) fun _ =>
    .weaken (.bind hassigned fun _ => hentries) fun _ _ hs => ⟨hs.1.1, hs.2⟩

/-- A line list is never complained about for its depth, since it would be whatever the limit is. -/
theorem lineList_not_deep {ts : List Token} {f : Failure} (hts : Opening.lineList.Begins ts)
    (h : lineList ts = .error f) (l : Nat) : f.mismatch ≠ .tooDeep l := by
  intro hdeep
  have hlevels (limit : Nat) : ∃ w, ts = w ++ f.rest ∧ (Nesting.start.after w).levels = limit := by
    have hleads : Leads limit (Facing [] Opening.lineList.Begins) lineList fun _ => Inside [] :=
      lineList_leads
    have hstart : Facing [] Opening.lineList.Begins Nesting.start ts := ⟨rfl, hts⟩
    obtain ⟨w, hw, hexceeds⟩ := hleads.of_error hstart h
    exact ⟨w, hw, (hexceeds l hdeep).levels⟩
  obtain ⟨w, hw, hzero⟩ := hlevels 0
  obtain ⟨v, hv, hone⟩ := hlevels 1
  rw [List.append_cancel_right (hw.symm.trans hv), hone] at hzero
  cases hzero

section Statements
variable (h : l.LeadsWithin limit k) (hbs : bs.count true = k)
include h hbs

/-- The parentheses of a condition take up no level, and a block may follow them. -/
theorem condition_leads : Leads limit (Behind bs (·.heads = true)) l.condition fun _ =>
    Behind bs (·.kind = .bracket .closeParen) := by
  have hexpression := h.expression (false :: bs) (by simp [hbs])
  exact .bind .expect_header fun _ => .bind (hexpression.grouping fun _ ht => heads_of_kind ht rfl)
    fun _ => .bind (.expect_close (by simp)) fun _ => .pure fun _ _ hs => hs

theorem block_leads : Leads limit (Opens bs) l.block fun _ => Inside bs :=
  (h.braces bs hbs).bind fun _ => .pure fun _ _ hs => hs

theorem guarded_leads (tag : Tag) :
    Leads limit (Behind bs (·.heads = true)) (l.guarded tag) fun _ => Inside bs :=
  (condition_leads h hbs).bind fun _ => .bind ((block_leads h hbs).due fun _ => .inl) fun _ =>
    .pure fun _ _ hs => hs

theorem declaration_leads (word : String) :
    Leads limit (Facing bs (Opening.declaration word).Begins) (l.declaration word)
      fun _ => Inside bs := by
  refine .bind (.skip_facing fun _ ht => not_bracket_of_word ht.1.1) fun _ =>
    .bind (.weaken (.expect_other rfl) fun _ _ hs => hs.1.1) fun _ =>
    .bind (.from_behind (.accept?_other fun _ _ => not_bracket_of_filtered)) fun o => ?_
  cases o with
  | none => exact .pure fun _ _ hs => hs
  | some op =>
    exact .bind ((h.expression bs hbs).grouping fun _ => heads_of_filtered) fun _ =>
      .pure fun _ _ hs => hs

theorem elseIf?_leads : Leads limit (Inside bs) l.elseIf? fun _ => Inside bs := by
  have hskip : Leads limit
      (Facing bs (Ahead (·.isWord "else" = true) (Ahead (·.isWord "sus" = true) Anything))) skip
      fun _ => Facing bs (Ahead (·.isWord "sus" = true) Anything) :=
    .mono (.skip_facing fun _ => not_bracket_of_isWord) fun _ _ _ hs => ⟨hs.1.1, hs.2⟩
  refine .look fun b => ?_
  cases b with
  | false => exact .pure fun _ _ hs => hs.1
  | true =>
    refine .bind (hskip.weaken ?_) fun _ => .bind (.skip_facing fun _ => not_bracket_of_isWord) fun _ =>
      .bind (.weaken (.of_head (guarded_leads h hbs _) fun t ht => ?_) fun _ _ hs => hs.1) fun _ =>
        .pure fun _ _ hs => hs
    · rintro s ts ⟨hbrackets, hts⟩
      split at hts
      · rw [Bool.and_eq_true] at hts
        exact ⟨hbrackets, _, _, rfl, hts.1, _, _, rfl, hts.2, trivial⟩
      · cases hts
    · exact heads_of_construct (c := .conditional) ht

theorem else?_leads : Leads limit (Inside bs) l.else? fun _ => Inside bs := by
  refine .bind (.accept?_other fun t u hu => ?_) fun o => ?_
  · split at hu
    · exact not_bracket_of_isWord ‹_›
    · cases hu
  · cases o with
    | none => exact .pure fun _ _ hs => hs
    | some u =>
      exact .bind ((h.braces bs hbs).due fun t ht => .inr (by simpa using ht)) fun _ =>
        .pure fun _ _ hs => hs

theorem ifChain_leads :
    Leads limit (Facing bs (Opening.construct .conditional).Begins) l.ifChain fun _ => Inside bs :=
  word_leads <| .bind (.of_head (guarded_leads h hbs _) fun _ => heads_of_construct) fun _ =>
    .bind (.many (elseIf?_leads h hbs)) fun _ => .bind (else?_leads h hbs) fun _ =>
    .pure fun _ _ hs => hs

theorem forLoop_leads :
    Leads limit (Facing bs (Opening.construct .forLoop).Begins) l.forLoop fun _ => Inside bs := by
  have hexpression {kind : TokenKind} (hkind : (kind = .function || kind.isWord) = false) :
      Leads limit (Behind (false :: bs) (·.kind = kind)) l.expression fun _ => Inside (false :: bs) :=
    (h.expression (false :: bs) (by simp [hbs])).grouping fun _ ht => heads_of_kind ht hkind
  exact word_leads <| .bind (.of_head .expect_header fun _ => heads_of_construct) fun _ =>
    .bind (hexpression rfl) fun _ => .bind (.expect_other rfl) fun _ =>
    .bind (hexpression rfl) fun _ => .bind (.expect_other rfl) fun _ =>
    .bind (hexpression rfl) fun _ => .bind (.expect_close (by simp)) fun _ =>
    .bind ((block_leads h hbs).due fun _ => .inl) fun _ => .pure fun _ _ hs => hs

theorem print_leads :
    Leads limit (Facing bs (Opening.construct .print).Begins) l.print fun _ => Inside bs :=
  word_leads <| .bind (.of_head (condition_leads h hbs) fun _ => heads_of_construct) fun _ =>
    .pure fun _ _ hs => hs.1

/-- The parentheses around parameters take up no level, and a block may follow them. -/
theorem definition_leads :
    Leads limit (Facing bs Opening.definition.Begins) l.definition fun _ => Inside bs :=
  word_leads <| .bind (.from_behind (.expect_other rfl)) fun _ =>
    .bind (.of_head .expect_header fun _ => heads_of_function) fun _ =>
    .bind (.from_behind parameters_leads) fun _ => .bind (.expect_close (by simp)) fun _ =>
    .bind ((block_leads h hbs).due fun _ => .inl) fun _ => .pure fun _ _ hs => hs

theorem reply_leads : Leads limit (Facing bs Opening.reply.Begins) l.reply fun _ => Inside bs := by
  refine word_leads <| .bind ((h.expression bs hbs).grouping fun t ht => ?_) fun _ =>
    .pure fun _ _ hs => hs
  simp only [Token.isWord, Bool.and_eq_true, decide_eq_true_eq] at ht
  have hreply : Construct.ofKeyword? "reply" = none := rfl
  have hfunction : t.kind ≠ .function := by
    intro hk
    rw [hk] at ht
    cases ht.1
  simp [Token.heads, hfunction, ht.2, hreply]

theorem assigned_leads : Leads limit (Groups bs) l.assigned fun _ => Inside bs := by
  refine .look fun b => ?_
  cases b with
  | false => exact (h.expression bs hbs).weaken fun _ _ hs => hs.1
  | true =>
    refine (h.array bs hbs).weaken fun s ts hs => opens_of_ahead (b := .openBracket) (by simp) hs.1.1 ?_
    obtain ⟨t, ht, hkind⟩ := (Option.any_eq_true _ _).mp hs.2
    exact .of_head? ht (of_decide_eq_true hkind)

theorem named_leads : Leads limit (Inside bs) l.named fun _ => Inside bs := by
  refine .bind (.expect_other rfl) fun _ =>
    .bind (.from_behind (.accept?_other fun _ _ => not_bracket_of_filtered)) fun o => ?_
  cases o with
  | none => exact .pure fun _ _ hs => hs
  | some op =>
    dsimp only
    split
    · exact .bind ((assigned_leads h hbs).grouping fun _ => heads_of_filtered) fun _ =>
        .pure fun _ _ hs => hs
    · exact .pure fun _ _ hs => hs.1

theorem statementOf_leads (o : Opening) :
    Leads limit (Facing bs o.Begins) (l.statementOf o) fun _ => Inside bs := by
  cases o with
  | declaration word => exact terminated_leads (declaration_leads h hbs word)
  | construct c =>
    cases c with
    | print => exact terminated_leads (print_leads h hbs)
    | input => exact terminated_leads input_leads
    | conditional => exact ifChain_leads h hbs
    | whileLoop =>
      exact word_leads (.of_head (guarded_leads h hbs _) fun _ => heads_of_construct (c := .whileLoop))
    | switch =>
      exact word_leads (.of_head (guarded_leads h hbs _) fun _ => heads_of_construct (c := .switch))
    | forLoop => exact forLoop_leads h hbs
  | definition => exact definition_leads h hbs
  | reply => exact terminated_leads (reply_leads h hbs)
  | call =>
    exact terminated_leads ((call_leads (h.expression _ (by simp [hbs]))).weaken fun _ _ hs => hs.1)
  | lineList => exact terminated_leads lineList_leads
  | name => exact terminated_leads ((named_leads h hbs).weaken fun _ _ hs => hs.1)
  | block => exact (block_leads h hbs).weaken fun s ts hs => opens_of_ahead (by simp) hs.1 hs.2

theorem statement_leads : Leads limit (Inside bs) l.statement fun _ => Inside bs := by
  refine .look fun o => ?_
  cases o with
  | none => exact .look fun _ => .fail (by simp)
  | some o =>
    exact (statementOf_leads h hbs o).weaken fun s ts hs => ⟨hs.1, Opening.begins_of_of? hs.2⟩

end Statements

end Level

namespace Production
variable {limit : Nat} {bs : List Bool} {p : Production Tree}

theorem statement?_leads (h : Leads limit (Inside bs) p fun _ => Inside bs) :
    Leads limit (Inside bs) (statement? p) fun _ => Inside bs := by
  refine .look fun b => ?_
  cases b with
  | false => exact .pure fun _ _ hs => hs.1
  | true => exact .bind (h.weaken fun _ _ hs => hs.1) fun _ => .pure fun _ _ hs => hs

theorem braced_leads (h : Leads limit (Inside (true :: bs)) p fun _ => Inside (true :: bs)) :
    Leads limit (Opens bs) (braced p) fun _ => Inside bs :=
  .weaken (.bind (.expect_open (by simp)) fun _ =>
    .bind (.from_behind (.many (statement?_leads h))) fun _ =>
    .bind (.expect_close (by simp)) fun _ => .pure fun _ _ hs => hs.1) fun _ _ hs => hs.1

theorem level_leads (limit : Nat) {k room : Nat} (hk : k + room = limit) :
    (level limit room).LeadsWithin limit k := by
  have hexpression (bs : List Bool) (hbs : bs.count true = k) := expression_leads limit hk hbs
  have harray (bs : List Bool) (hbs : bs.count true = k) := arrayLiteral_leads limit hk hbs
  induction room generalizing k with
  | zero => exact ⟨hexpression, harray, fun bs hbs => tooDeep_leads (hbs.trans hk)⟩
  | succ room ih =>
    have hdeeper : k + 1 + room = limit := by omega
    have hin := ih hdeeper (fun bs => expression_leads limit hdeeper) fun bs =>
      arrayLiteral_leads limit hdeeper
    refine ⟨hexpression, harray, fun bs hbs => braced_leads ?_⟩
    rw [statement_eq]
    exact Level.statement_leads hin (by simp [hbs])

theorem statement_leads (limit : Nat) :
    Leads limit (Inside []) (statement limit limit) fun _ => Inside [] := by
  rw [statement_eq]
  exact Level.statement_leads (level_leads limit (Nat.zero_add limit)) rfl

end Production

/-- The token in front of a place is the last one that stands before it. -/
theorem Nesting.after_before (s : Nesting) (ts : List Token) :
    (s.after ts).before = ts.getLast?.or s.before := by
  induction ts generalizing s with
  | nil => rfl
  | cons t ts ih =>
    rw [Nesting.after_cons, ih, Nesting.step_before, List.getLast?_cons]
    cases ts.getLast? <;> rfl

/-- A block must follow these tokens, the last of which is `else` or a closing parenthesis. -/
def BlockDue (ts : List Token) : Prop :=
  ∃ t, ts.getLast? = some t ∧ (t.kind = .bracket .closeParen ∨ t.isWord "else" = true)

/-- The depth is complained about where as many levels are open as may be, in front of a bracket that is
opened, or else where a block must follow and none does. -/
theorem parseWithin_tooDeep {limit i l : Nat} {ts : List Token}
    (h : ⟨i, .tooDeep l⟩ ∈ (parseWithin limit ts).errors) : i ≤ ts.length ∧
      openLevels (ts.take i) = limit ∧
      ((∃ t, ts[i]? = some t ∧ t.opens = true) ∨ BlockDue (ts.take i)) := by
  have hround := Production.statement?_leads (Production.statement_leads limit)
  have hleads := Leads.gather hround (show Inside [] Nesting.start ts from rfl)
  cases hg : Production.gather
      (Production.statement? (Production.statement limit limit)) ts with
  | mk items stop =>
    rw [parseWithin_eq hg] at h
    obtain ⟨f, hf, heq⟩ := List.mem_map.mp h
    obtain ⟨rfl, hdeep⟩ := SyntaxError.mk.inj heq
    rw [Option.mem_toList] at hf
    rw [hg] at hleads
    cases stop with
    | ok rest => exact absurd hdeep (failureOf?_not_deep (by simp) hf l)
    | error e =>
      cases hf
      obtain ⟨w, hts, hexceeds⟩ := hleads
      obtain ⟨hlevels, hdeepens⟩ := hexceeds l hdeep
      have hindex : ts.length - f.rest.length = w.length := by
        rw [hts, List.length_append, Nat.add_sub_cancel]
      have htake : ts.take w.length = w := by rw [hts, List.take_left]
      rw [hindex, htake]
      refine ⟨by rw [hts, List.length_append]; exact Nat.le_add_right _ _, hlevels, ?_⟩
      refine hdeepens.imp ?_ ?_
      · rintro ⟨t, rest, hrest, ht⟩
        exact ⟨t, by rw [hts, hrest]; simp, ht⟩
      · rintro ⟨t, ht, hdue⟩
        rw [Nesting.after_before, Nesting.start, Option.or_none] at ht
        exact ⟨t, ht, hdue⟩

/-- A program is too deep where 128 braced lists, array literals and grouping parentheses are open, at a
bracket that would open one more, or else where a block must follow and none does. -/
theorem parse_tooDeep {i l : Nat} {ts : List Token} (h : ⟨i, .tooDeep l⟩ ∈ (parse ts).errors) :
    i ≤ ts.length ∧ openLevels (ts.take i) = 128 ∧
      ((∃ t, ts[i]? = some t ∧ t.opens = true) ∨ BlockDue (ts.take i)) := parseWithin_tooDeep h

open Token

/-- `x = ( [ (` inside of 126 blocks. -/
def deepGrouping : List Token :=
  List.replicate 126 (ofBracket .openBrace) ++
    [ofName "x", ofOperator .assign, ofBracket .openParen, ofBracket .openBracket, ofBracket .openParen]

theorem deepGrouping_tooDeep : ⟨130, .tooDeep 128⟩ ∈ (parse deepGrouping).errors ∧
    130 ≤ deepGrouping.length ∧ openLevels (deepGrouping.take 130) = 128 ∧
      ((∃ t, deepGrouping[130]? = some t ∧ t.opens = true) ∨ BlockDue (deepGrouping.take 130)) := by
  have h : ⟨130, .tooDeep 128⟩ ∈ (parse deepGrouping).errors := by decide +kernel
  exact ⟨h, parse_tooDeep h⟩

/-- `sus ( x ) y` inside of 128 blocks. -/
def missingBlock : List Token :=
  List.replicate 128 (ofBracket .openBrace) ++
    [ofWord "sus", ofBracket .openParen, ofName "x", ofBracket .closeParen, ofName "y"]

/-- The name that stands in place of a block nests nothing, and is taken for too deep. -/
theorem missingBlock_tooDeep : (parse missingBlock).errors = [⟨132, .tooDeep 128⟩] ∧
    missingBlock[132]? = some (ofName "y") ∧ (ofName "y").opens = false := by
  refine ⟨?_, ?_, ?_⟩ <;> decide +kernel

end SlangScript
