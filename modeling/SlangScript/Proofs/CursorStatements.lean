import SlangScript.Proofs.CursorExpressions

/-! The cursor goes where the productions of statements go, whatever stands at the exits that none of
them takes. -/
namespace SlangScript

open Cursor Walk

namespace Level
variable {l : Level} {ts rest : List Token}

theorem parameters_eq : parameters = (Production.commaList parameter? >>= fun params =>
    pure (.node .paramList none params)) := by
  rw [Production.commaList, Production.bind_bind]
  refine congrArg _ (funext fun o => ?_)
  cases o with
  | none => rfl
  | some first =>
    dsimp only
    rw [Production.bind_bind]
    rfl

theorem parameter?_suffix {o : Option Tree} (h : parameter? ts = .ok (o, rest)) : rest <:+ ts := by
  obtain ⟨w, rfl, -⟩ := (parameter?_settled ts).of_ok h
  exact List.suffix_append w rest

theorem branches_cons (b : Tree) : (l.branches fun further last => b :: further ++ last.toList) =
    (l.branches fun further last => further ++ last.toList) >>= fun more => pure (b :: more) :=
  branches_map _ (b :: ·)

theorem ifChain_eq : l.ifChain = Production.skip >>= fun _ => l.guarded .ifBlock >>= fun first =>
    (l.branches fun further last => further ++ last.toList) >>= fun more =>
      pure (.node .ifChain none (first :: more)) := by
  simp only [← branches_map]
  rfl

end Level

/-- Behind the word that heads it, the walk follows the production. Without that word it records an error
and no more. -/
structure TracesBehind {α : Type} (room : Nat) (word : String) (m : Nat → Walk (Option α))
    (p : Production α) : Prop where
  follows : ∀ {c : Cursor} {t : Token} {ts : List Token}, c.At room → c.remaining = t :: ts →
    t.isWord word = true → Follows m (Production.skip >>= fun _ => p) c
  refuses : ∀ {c : Cursor}, Next (fun t => t.isWord word = false) c.remaining →
    ∃ message, Yields m c none (c.record message)

namespace TracesBehind
variable {α β : Type} {room : Nat} {w : String} {m l : Nat → Walk (Option α)} {p : Production α}

theorem word {k : Nat → Option Token → Walk (Option β)} {q : Production β}
    (hnone : ∀ i, k i none = pure none) (h : ∀ t, Traces room (fun i => k i (some t)) q) :
    TracesBehind room w (fun i => expectWord w >>= k i) q where
  follows := by
    intro c t ts hc hts ht
    exact (h t _ (hc.moveTo ts)).step hts (fun i => run_bind (expect_taken hts ht) (k i)) rfl
  refuses := by
    intro c hno
    obtain ⟨message, hm⟩ : ∃ message, expectWord w c = some (none, c.record message) := by
      cases hts : c.remaining with
      | nil => exact ⟨_, expect_end hts⟩
      | cons t ts =>
        rw [hts, next_cons] at hno
        exact ⟨_, expect_refused hts hno⟩
    exact ⟨message, .of_forall fun i => (run_bind hm (k i)).trans (congrFun (hnone i) _)⟩

theorem bind {k : Nat → Option α → Walk (Option β)} {f : α → Production β}
    (h : TracesBehind room w m p) (hnone : ∀ i, k i none = pure none)
    (hk : ∀ a, Traces room (fun i => k i (some a)) (f a)) :
    TracesBehind room w (fun i => m i >>= k i) (p >>= f) where
  follows := by
    intro c t ts hc hts ht
    refine ((h.follows hc hts ht).bind hnone fun a rest _ _ => hk a _ (hc.moveTo rest)).congr
      (fun _ => rfl) ?_
    rw [Production.bind_bind]
  refuses := by
    intro c hno
    obtain ⟨message, hm⟩ := h.refuses hno
    exact ⟨message, hm.bind (.of_forall fun i => congrFun (hnone i) _)⟩

theorem unfold (h : TracesBehind room w l p) (hm : ∀ i, m (i + 1) = l i) :
    TracesBehind room w m p where
  follows hc hts ht := (h.follows hc hts ht).unfold hm
  refuses hno := by
    obtain ⟨message, hl⟩ := h.refuses hno
    exact ⟨message, hl.unfold hm⟩

end TracesBehind

namespace Walk
variable (exits : Exits)

/-- The walks that nest follow the productions of a level. -/
structure TracesLevel (room : Nat) (l : Level) : Prop where
  expression : Traces room expression l.expression
  array : Traces room array l.array
  braces : Traces room (bracedList exits) l.braces

variable {exits} {room : Nat} {l : Level} {c : Cursor} {t : Token} {ts : List Token}

theorem input_traces : TracesBehind room "post" (fun _ => input) (do
    let _ ← Production.expect (.bracket .openParen)
    let name ← Production.expect .identifier
    let _ ← Production.expect (.bracket .closeParen)
    pure (.node .inputStmt none [.leaf .identifier name.lexeme])) := by
  unfold input
  exact .word (fun _ => rfl) fun _ => .expect (fun _ => rfl) fun _ => .expect (fun _ => rfl) fun _ =>
    .expect (fun _ => rfl) fun _ => .pure _

theorem number_traces : Traces room (fun _ => number) (do
    let n ← Production.expect .integer
    pure (Tree.leaf .integer n.lexeme)) := by
  unfold number
  exact .expect (fun _ => rfl) fun _ => .pure _

theorem lineList_traces : Traces room lineList (do
    Production.skip
    let _ ← Production.expect (.operator .assign)
    let _ ← Production.expect (.bracket .openBracket)
    let numbers ← Production.listUntil .closeBracket do
      let n ← Production.expect .integer
      pure (Tree.leaf .integer n.lexeme)
    pure (.node .lineStmt none numbers)) := by
  unfold lineList
  exact .advance fun _ => .expect (fun _ => rfl) fun _ => .expect (fun _ => rfl) fun _ =>
    listUntil_traces (commaSeparated_traces number_traces numbers.eq_2) fun _ => .pure _

/-- Where `=` is known to follow, it need not be asked for. -/
theorem lineList_follows {s : Token} (hc : c.At room) (hts : c.remaining = t :: s :: ts)
    (hs : s.operator? = some .assign) : Follows lineList Level.lineList c := by
  have hkind : s.kind = .operator .assign := by
    cases hk : s.kind <;> simp_all [Token.operator?]
  refine (lineList_traces c hc).congr (fun _ => rfl) ?_
  rw [hts, Level.lineList, Production.run_skip, Production.run_skip, Production.run_skip,
    Production.run_expect hkind]

/-! ### Parameters -/

theorem parameters_traces :
    Traces room (parameters exits) (Production.commaList Level.parameter?) := by
  intro c hc
  induction hlen : c.remaining.length using Nat.strongRecOn generalizing c with
  | ind len ih =>
    subst hlen
    refine .unfold ?_ (parameters.eq_2 exits)
    refine .current ?_
    cases hts : c.remaining with
    | nil => exact (Follows.pure hc []).congr (fun _ => rfl) (by rw [hts]; rfl)
    | cons t ts =>
      have hts' : ts <:+ c.remaining := hts ▸ List.suffix_cons t ts
      simp only [List.head?_cons]
      cases hclose : t.isBracket .closeParen with
      | true =>
        refine (Follows.pure hc []).congr (fun _ => rfl) ?_
        rw [hts]
        exact Production.run_bind
          (Level.parameter?_stop ⟨t, ts, rfl, of_decide_eq_true hclose, trivial⟩)
      | false =>
        cases hword : t.kind.isWord with
        | true =>
          simp only [Bool.false_eq_true, ↓reduceIte]
          refine Follows.step ?_ hts (fun _ => run_advance hts _)
            ((Production.run_bind_congr (Level.parameter?_word hword ts)).trans
              (Production.run_bind_assoc _ ts))
          have hname := (Traces.expectKind .identifier).follows (hc.moveTo ts)
          refine hname.bind (fun _ => rfl) fun name rest _ hrest => ?_
          rw [remaining_moveTo hts'] at hrest
          refine commaRounds_follows ((hc.moveTo ts).moveTo rest)
            (fun _ _ _ _ => Level.parameter?_suffix) fun d hd hlt => ?_
          refine ih _ (Nat.lt_trans hlt ?_) d hd rfl
          rw [moveTo_moveTo, remaining_moveTo (hrest.trans hts'), hts]
          exact Nat.lt_succ_of_le hrest.length_le
        | false =>
          simp only [Bool.false_eq_true, ↓reduceIte]
          have hfail : Production.commaList Level.parameter? c.remaining =
              .error ⟨.parameterType t, t :: ts⟩ := by
            rw [hts]
            exact Production.bind_eq_error.mpr (.inl (Level.parameter?_refused hclose hword ts))
          refine .of_error hfail (hts ▸ List.suffix_refl _) rfl ?_
          rw [← hts, moveTo_remaining hc]
          exact .of_forall fun _ => rfl

theorem definition_traces (hblock : Traces room (block exits) l.block) :
    TracesBehind room "trend" (definition exits) (do
      let name ← Production.expect .function
      let _ ← Production.expect (.bracket .openParen)
      let params ← Level.parameters
      let _ ← Production.expect (.bracket .closeParen)
      let body ← l.block
      pure (.node .functionDef (some name.lexeme) [params, body])) := by
  refine .unfold ?_ (definition.eq_2 exits)
  refine .word (fun _ => rfl) fun _ => .expect (fun _ => rfl) fun name => .expect (fun _ => rfl) fun _ => ?_
  rw [Level.parameters_eq, Production.bind_bind]
  exact parameters_traces.bind (fun _ => rfl) fun ps => .expect (fun _ => rfl) fun _ =>
    hblock.bind (fun _ => rfl) fun _ => .pure _

/-! ### The start and the end of a statement -/

/-- A statement can start exactly where one is opened. -/
theorem run_canStartStatement {β : Type} (k : Bool → Walk β) (c : Cursor) :
    (canStartStatement >>= k) c = k (Opening.of? c.remaining).isSome c := by
  rw [canStartStatement, bind_assoc, run_current]
  cases c.remaining with
  | nil => rfl
  | cons t ts =>
    dsimp only [List.head?_cons]
    cases hk : t.kind with
    | keyword | reservedWord =>
      rw [Opening.of?_word (by rw [hk]; rfl), Opening.isSome_ofWord?]
      rfl
    | identifier =>
      have hname : (Opening.of? (t :: ts)).isSome = true := by
        rw [Opening.of?]
        simp only [hk]
        split <;> rfl
      rw [hname]
      rfl
    | bracket b =>
      rw [Opening.of?, hk]
      cases b <;> rfl
    | _ =>
      rw [Opening.of?, hk]
      rfl

theorem terminated_follows {m : Nat → Walk (Option Tree)} {p : Production Tree} (hc : c.At room)
    (hm : Follows m p c) : Follows (fun n => m n >>= terminated) (Level.terminated p) c :=
  hm.bind (fun _ => rfl) fun s rest _ _ => Traces.skipDelimiter (fun _ => .pure s) _ (hc.moveTo rest)

section Level
variable (h : TracesLevel exits room l)
include h

theorem conditionHeader_traces (c : Construct) :
    TracesBehind room c.keyword (conditionHeader c) l.condition := by
  unfold conditionHeader
  exact .word (fun _ => rfl) fun _ => .expect (fun _ => rfl) fun _ =>
    h.expression.bind (fun _ => rfl) fun e => .expect (fun _ => rfl) fun _ => .pure e

theorem block_traces : Traces room (block exits) l.block := by
  refine .unfold ?_ (block.eq_2 exits)
  exact h.braces.bind (fun _ => rfl) fun _ => .pure _

theorem guarded_traces (c : Construct) (tag : Tag) :
    TracesBehind room c.keyword (fun n => guarded exits n c tag) (l.guarded tag) := by
  refine .unfold ?_ (guarded.eq_2 exits c tag)
  exact (conditionHeader_traces h c).bind (fun _ => rfl) fun _ =>
    (block_traces h).bind (fun _ => rfl) fun _ => .pure _

theorem print_traces : TracesBehind room "spill" print (do
    let e ← l.condition
    pure (.node .printStmt none [e])) := by
  unfold print
  exact (conditionHeader_traces h .print).bind (fun _ => rfl) fun _ => .pure _

theorem reply_traces : TracesBehind room "reply" reply (do
    let e ← l.expression
    pure (.node .returnStmt none [e])) := by
  unfold reply
  exact .word (fun _ => rfl) fun _ => h.expression.bind (fun _ => rfl) fun _ => .pure _

theorem forLoop_traces : TracesBehind room "forreal" (forLoop exits) (do
    let _ ← Production.expect (.bracket .openParen)
    let start ← l.expression
    let _ ← Production.expect (.delimiter .semicolon)
    let test ← l.expression
    let _ ← Production.expect (.delimiter .semicolon)
    let step ← l.expression
    let _ ← Production.expect (.bracket .closeParen)
    let body ← l.block
    pure (.node .forStmt none [start, test, step, body])) := by
  refine .unfold ?_ (forLoop.eq_2 exits)
  exact .word (fun _ => rfl) fun _ => .expect (fun _ => rfl) fun _ =>
    h.expression.bind (fun _ => rfl) fun _ => .expect (fun _ => rfl) fun _ =>
    h.expression.bind (fun _ => rfl) fun _ => .expect (fun _ => rfl) fun _ =>
    h.expression.bind (fun _ => rfl) fun _ => .expect (fun _ => rfl) fun _ =>
    (block_traces h).bind (fun _ => rfl) fun _ => .pure _

theorem elseBlock_traces : Traces room (elseBlock exits) (do
    let list ← l.braces
    pure (.node .elseBlock none [list])) := by
  refine .unfold ?_ (elseBlock.eq_2 exits)
  exact h.braces.bind (fun _ => rfl) fun _ => .pure _

/-- A block behind `else` is the last branch. -/
theorem lastBranch_traces : Traces room (fun n => do
    let some last ← elseBlock exits n | return none
    return some [last]) (do
    let list ← l.braces
    pure [.node .elseBlock none [list]]) := by
  have hlast := (elseBlock_traces h).bind (f := fun last => pure [last]) (k := fun _ => fun
    | some last => return some [last]
    | _ => return none) (fun _ => rfl) fun last => .pure [last]
  rw [Production.bind_bind] at hlast
  exact hlast

theorem declaration_follows (hc : c.At room) (hts : c.remaining = t :: ts) :
    Follows (declaration exits) (l.declaration t.lexeme) c := by
  unfold declaration
  rw [Level.declaration]
  refine Follows.step (Traces.follows ?_ (hc.moveTo ts)) hts (fun _ => run_advance hts _)
    (Production.run_skip t ts _)
  refine .expect (fun _ => rfl) fun name => ?_
  refine .operator ?_ ?_
  · intro op hop
    simp only [Option.filter_some, hop, ↓reduceIte]
    exact .advance fun _ => h.expression.bind (fun _ => rfl) fun _ => .pure _
  · intro o ho
    simp only [ho]
    exact .pure _

theorem assigned_traces : Traces room (fun n => do
    if ← checkKind (.bracket .openBracket) then array n else expression n) l.assigned := by
  refine .checkKind fun b => ?_
  cases b with
  | true => exact h.array
  | false => exact h.expression

theorem named_traces : Traces room named l.named := by
  unfold named
  refine .expect (fun _ => rfl) fun name => ?_
  refine .operator ?_ ?_
  · intro op hop
    cases ha : op.isAssignment with
    | true =>
      simp only [ha, ↓reduceIte]
      exact .advance fun _ => (assigned_traces h).bind (fun _ => rfl) fun _ => .pure _
    | false =>
      have hd : op.isIncDec = true := by simpa [ha] using hop
      simp only [ha, hd, ↓reduceIte, Bool.false_eq_true]
      exact .advance fun _ => .pure _
  · intro o ho
    cases o with
    | none => exact .pure _
    | some op =>
      rw [Option.filter_some, ite_eq_right_iff] at ho
      have hno : (op.isAssignment || op.isIncDec) = false := by simpa using ho
      rw [Bool.or_eq_false_iff] at hno
      simp only [hno.1, hno.2, ↓reduceIte, Bool.false_eq_true]
      exact .pure _

theorem branches_traces : Traces room (branches exits)
    (l.branches fun further last => further ++ last.toList) := by
  intro c hc
  induction hlen : c.remaining.length using Nat.strongRecOn generalizing c with
  | ind len ih =>
    subst hlen
    refine .unfold ?_ (branches.eq_2 exits)
    refine .checkWord ?_
    by_cases hno : Next (fun t => t.isWord "else" = false) c.remaining
    · rw [any_isWord_of_next hno]
      exact (Follows.pure hc []).congr (fun _ => rfl) (Level.branches_none _ hno)
    · obtain ⟨e, ts, hts, he⟩ := exists_next_of_not hno
      replace he : e.isWord "else" = true := by simpa using he
      have hts' : ts <:+ c.remaining := hts ▸ List.suffix_cons e ts
      have hmid : (c.moveTo ts).remaining = ts := remaining_moveTo hts'
      simp only [hts, List.head?_cons, Option.any_some, he, ↓reduceIte]
      by_cases hs : Next (fun t => t.isWord "sus" = false) ts
      · refine Follows.step (.checkWord ?_) hts (fun _ => run_advance hts _) (Level.branches_else _ he hs)
        rw [hmid, any_isWord_of_next hs]
        exact lastBranch_traces h _ (hc.moveTo ts)
      · obtain ⟨s, rest, rfl, hs⟩ := exists_next_of_not hs
        replace hs : s.isWord "sus" = true := by simpa using hs
        have hguarded := (guarded_traces h .conditional .elseIfBlock).follows (hc.moveTo _) hmid hs
        have hshort (b : Tree) (mid : List Token) (hb : l.guarded .elseIfBlock rest = .ok (b, mid)) :
            mid.length < rest.length + 2 := by
          have hsuffix : mid <:+ (c.moveTo (s :: rest)).remaining :=
            hguarded.suffix (by rw [hmid]; exact hb)
          rw [hmid] at hsuffix
          exact Nat.lt_succ_of_le hsuffix.length_le
        refine Follows.step (.checkWord ?_) hts (fun _ => run_advance hts _)
          (q := Production.skip >>= fun _ => l.guarded .elseIfBlock >>= fun b =>
            l.branches fun further last => b :: further ++ last.toList)
          (Level.branches_elseIf _ he hs hshort)
        simp only [hmid, List.head?_cons, Option.any_some, hs, ↓reduceIte]
        rw [← Production.bind_bind]
        refine hguarded.bind (fun _ => rfl) fun b mid hb hsuffix => ?_
        rw [hmid] at hb hsuffix
        rw [Level.branches_cons]
        refine (ih mid.length ?_ _ (hc.moveTo mid) ?_).bind (fun _ => rfl) fun more rest' _ _ => ?_
        · rw [hts]
          exact hshort b mid hb
        · rw [remaining_moveTo (hsuffix.trans hts')]
        · exact .pure ((hc.moveTo mid).moveTo rest') _

theorem ifChain_traces : TracesBehind room "sus" (ifChain exits) (do
    let first ← l.guarded .ifBlock
    let more ← l.branches fun further last => further ++ last.toList
    pure (.node .ifChain none (first :: more))) := by
  refine .unfold ?_ (ifChain.eq_2 exits)
  exact (guarded_traces h .conditional .ifBlock).bind (fun _ => rfl) fun first =>
    (branches_traces h).bind (fun _ => rfl) fun more => .pure _

/-! ### Statements -/

/-- What a keyword with a header opens. -/
theorem construct_follows {con : Construct} (hc : c.At room) (hts : c.remaining = t :: ts)
    (ht : t.isWord con.keyword = true) : Follows (fun n => match con with
      | .conditional => ifChain exits n
      | .forLoop => forLoop exits n
      | .whileLoop => guarded exits n .whileLoop .whileStmt
      | .switch => guarded exits n .switch .switchStmt
      | .print => do
        let s ← print n
        terminated s
      | .input => do
        let s ← input
        terminated s) (l.statementOf (.construct con)) c := by
  cases con with
  | print => exact terminated_follows hc ((print_traces h).follows hc hts ht)
  | input => exact terminated_follows hc (input_traces.follows hc hts ht)
  | conditional =>
    dsimp only [Level.statementOf]
    rw [Level.ifChain_eq]
    exact (ifChain_traces h).follows hc hts ht
  | whileLoop => exact (guarded_traces h .whileLoop .whileStmt).follows hc hts ht
  | switch => exact (guarded_traces h .switch .switchStmt).follows hc hts ht
  | forLoop => exact (forLoop_traces h).follows hc hts ht

theorem statement_follows {o : Opening} (hc : c.At room) (ho : Opening.of? c.remaining = some o) :
    Follows (statement exits) (l.statementOf o) c := by
  refine .unfold ?_ (statement.eq_2 exits)
  refine .current ?_
  cases hts : c.remaining with
  | nil =>
    rw [hts] at ho
    cases ho
  | cons t ts =>
    rw [hts] at ho
    dsimp only [List.head?_cons]
    cases hk : t.kind with
    | keyword | reservedWord =>
      have hword : t.kind.isWord = true := by rw [hk]; rfl
      have his : t.isWord t.lexeme = true := by simp [Token.isWord, hword]
      rw [Opening.of?_word hword] at ho
      obtain ⟨hd, rfl⟩ | ⟨hd, con, hcon, hkeyword, rfl⟩ | ⟨hd, hcon, htrend, rfl⟩ |
        ⟨hd, hcon, hreply, rfl⟩ := Opening.ofWord?_cases ho
      · simp only [hd, ↓reduceIte]
        exact terminated_follows hc (declaration_follows h hc hts)
      · simp only [hd, hcon, Bool.false_eq_true, ↓reduceIte]
        rw [← hkeyword] at his
        exact construct_follows h hc hts his
      · simp only [hd, hcon, if_pos htrend, Bool.false_eq_true, ↓reduceIte]
        exact (definition_traces (block_traces h)).follows hc hts (htrend ▸ his)
      · have hno : t.lexeme ≠ "trend" := by rw [hreply]; decide
        simp only [hd, hcon, if_neg hno, if_pos hreply, Bool.false_eq_true, ↓reduceIte]
        exact terminated_follows hc ((reply_traces h).follows hc hts (hreply ▸ his))
    | function =>
      rw [Opening.of?, hk] at ho
      cases ho
      exact terminated_follows hc (call_traces h.expression c hc)
    | identifier =>
      rw [Opening.of?, hk] at ho
      refine .peekIsAssign hts ?_
      by_cases hline : t.lexeme = "line" ∧ ts.head?.any (·.operator? = some .assign) = true
      · simp only [hline, and_self, ↓reduceIte] at ho ⊢
        cases ho
        obtain ⟨s, hs, hop⟩ := Option.any_eq_true _ _ |>.mp hline.2
        obtain ⟨rest, rfl⟩ := List.head?_eq_some_iff.mp hs
        exact terminated_follows hc (lineList_follows hc hts (of_decide_eq_true hop))
      · simp only [hline, ↓reduceIte] at ho ⊢
        cases ho
        have hno : (decide (t.lexeme = "line") && ts.head?.any (·.operator? = some .assign)) = false := by
          simpa using hline
        rw [hno]
        exact terminated_follows hc (named_traces h c hc)
    | bracket b =>
      rw [Opening.of?, hk] at ho
      cases b with
      | openBrace =>
        cases ho
        exact block_traces h c hc
      | _ => cases ho
    | _ =>
      rw [Opening.of?, hk] at ho
      cases ho

end Level

end Walk

end SlangScript
