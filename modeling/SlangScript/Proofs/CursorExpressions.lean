import SlangScript.Proofs.CursorSteps

/-! The cursor goes where the productions of expressions go. -/
namespace SlangScript

open Cursor

namespace Walk
variable {room : Nat} {group' array' inner : Production Tree}

theorem group_traces (h : Traces room expression inner) :
    Traces room group (Production.grouped inner) := by
  refine .unfold ?_ group.eq_2
  exact .advance fun _ => h.bind (fun _ => rfl) fun e => .expect (fun _ => rfl) fun _ => .pure e

theorem literal_traces (tag : Tag) (text : String) :
    Traces room (fun _ => do
      let _ ← advance
      match (← currentOperator).filter (·.isIncDec) with
      | some op =>
        let _ ← advance
        return some (.node .postfixOp (some op.symbol) [.leaf tag text])
      | none => return some (.leaf tag text)) (Production.literal tag text) := by
  refine .advance fun _ => .operator ?_ ?_
  · intro op hop
    simp only [Option.filter_some, hop, ↓reduceIte]
    exact .advance fun _ => .pure _
  · intro o ho
    simp only [ho]
    exact .pure _

theorem primary_traces (hgroup : Traces room (fun i => enter >>= fun deeper =>
      if deeper = true then group i >>= fun node => leave >>= fun _ => pure node else pure none) group')
    (harray : Traces room array array') : Traces room primary (Production.operand group' array') := by
  refine .unfold ?_ primary.eq_2
  refine .current fun o c hc ho => ?_
  cases o with
  | none => exact Follows.fail hc rfl fun _ => rfl
  | some t =>
    dsimp only
    generalize t.kind = kind
    cases kind with
    | bracket b =>
      cases b with
      | openParen => exact hgroup c hc
      | openBracket => exact harray c hc
      | _ => exact Follows.fail hc rfl fun _ => rfl
    | integer | floatNumber | string | identifier =>
      exact literal_traces _ t.lexeme c hc
    | _ => exact Follows.fail hc rfl fun _ => rfl

end Walk

/-! ### Repetition -/

namespace Production
variable {α β : Type} {item : Production Tree} {item? : Production (Option α)} {left : Tree}
  {t : Token} {ts : List Token}

/-- The operands behind the first one, joined to it from the left. -/
def operands (item : Production Tree) (left : Tree) : Production Tree := do
  let more ← many do
    match ← accept? Token.binaryOperator? with
    | some op =>
      let next ← item
      pure (some (op, next))
    | none => pure none
  pure (left.foldOperands more)

theorem operands_stop (h : Next (·.binaryOperator? = none) ts) :
    operands item left ts = .ok (left, ts) := by
  rw [operands, run_bind (many_stop (run_accept?_none h _))]
  rfl

theorem operands_next {op : Operator} (h : t.binaryOperator? = some op)
    (hitem : ∀ r mid, item ts = .ok (r, mid) → mid.length ≤ ts.length) :
    operands item left (t :: ts) = (item >>= fun r => operands item (.binary op left r)) ts := by
  have hround : (do
      match ← accept? Token.binaryOperator? with
      | some op =>
        let next ← item
        pure (some (op, next))
      | none => pure none : Production (Option (Operator × Tree))) (t :: ts) =
      ((item >>= fun r => pure (op, r)) >>= fun a => pure (some a)) ts := by
    rw [run_accept?_some h, run_bind_assoc]
    rfl
  rw [operands, run_many_bind hround, run_bind_assoc]
  · rfl
  · intro a mid ha
    obtain ⟨r, _, hr, hpure⟩ := bind_eq_ok.mp ha
    obtain ⟨-, rfl⟩ := pure_eq_ok.mp hpure
    exact Nat.lt_succ_of_le (hitem r _ hr)

/-- Commas, each with something behind it, until a comma is missing or nothing is found. -/
def commaRounds (item? : Production (Option α)) : Production (List α) :=
  many do if ← skipIf (.delimiter .comma) then item? else pure none

/-- Things with commas between them. One more comma may stand behind them where nothing is found. -/
def commaList (item? : Production (Option α)) : Production (List α) := do
  match ← item? with
  | none => pure []
  | some a =>
    let more ← commaRounds item?
    pure (a :: more)

theorem commaRounds_stop (h : Next (·.kind ≠ .delimiter .comma) ts) :
    commaRounds item? ts = .ok ([], ts) := many_stop (run_skipIf_not h _)

theorem commaRounds_next (h : t.kind = .delimiter .comma)
    (hitem : ∀ o mid, item? ts = .ok (o, mid) → mid.length ≤ ts.length) :
    commaRounds item? (t :: ts) = commaList item? ts := by
  have hround : (do if ← skipIf (.delimiter .comma) then item? else pure none :
      Production (Option α)) (t :: ts) = item? ts := run_skipIf h ts _
  cases ho : item? ts with
  | error e =>
    rw [commaRounds, commaList, many, gather, hround, ho, bind_eq_error.mpr (.inl ho)]
  | ok r =>
    obtain ⟨o, mid⟩ := r
    rw [ho] at hround
    rw [commaList, run_bind ho]
    cases o with
    | none => exact many_stop hround
    | some a =>
      refine (many_cons hround (Nat.lt_succ_of_le (hitem _ mid ho))).trans ?_
      change (commaRounds item? mid).map _ = (commaRounds item? >>= fun more => pure (a :: more)) mid
      cases hm : commaRounds item? mid with
      | error e => rw [bind_eq_error.mpr (.inl hm)]; rfl
      | ok r => rw [run_bind hm]; rfl

theorem commaSeparated_eq (item : Production α) :
    commaSeparated item = commaList (item >>= fun a => pure (some a)) := by
  funext ts
  rw [commaList, run_bind_assoc]
  rfl

end Production

namespace Walk
variable {room : Nat} {item : Nat → Walk (Option Tree)} {item' : Production Tree}
  {loop : Nat → Walk (Option (List Tree))} {c : Cursor}

/-- Behind something with commas, the loop goes on or ends. -/
theorem commaRounds_follows {item? : Production (Option Tree)} {e : Tree} (hc : c.At room)
    (hitem : ∀ d : Cursor, d.At room → ∀ o mid, item? d.remaining = .ok (o, mid) →
      mid <:+ d.remaining)
    (hloop : ∀ d : Cursor, d.At room → d.remaining.length < c.remaining.length →
      Follows loop (Production.commaList item?) d) :
    Follows (fun n => do
      if ← skipDelimiter .comma then
        let some es ← loop n | return none
        return some (e :: es)
      else return some [e])
      (do let more ← Production.commaRounds item?
          pure (e :: more)) c := by
  by_cases hnext : Next (·.kind ≠ .delimiter .comma) c.remaining
  · refine (Follows.pure hc [e]).congr (fun _ => run_skipDelimiter_not hnext _) ?_
    exact Production.run_bind (Production.commaRounds_stop hnext)
  · obtain ⟨t, ts, hts, ht⟩ := exists_next_of_not hnext
    rw [Decidable.not_not] at ht
    have hmid : (c.moveTo ts).remaining = ts := remaining_moveTo (hts ▸ List.suffix_cons t ts)
    refine Follows.step (q := Production.commaList item? >>= fun es => pure (e :: es)) ?_ hts
      (fun _ => run_skipDelimiter hts ht _) ?_
    · refine (hloop _ (hc.moveTo ts) (by simp [hmid, hts])).bind (fun _ => rfl) fun es rest _ _ => ?_
      exact .pure ((hc.moveTo ts).moveTo rest) _
    · refine Production.run_bind_congr (Production.commaRounds_next ht fun o mid ho => ?_)
      rw [← hmid] at ho ⊢
      exact (hitem _ (hc.moveTo ts) o mid ho).length_le

/-- A loop over things with commas between them. -/
theorem commaSeparated_traces (hitem : Traces room item item')
    (hloop : ∀ n, loop (n + 1) = do
      let some e ← item n | return none
      if ← skipDelimiter .comma then
        let some es ← loop n | return none
        return some (e :: es)
      else return some [e]) : Traces room loop (Production.commaSeparated item') := by
  intro c hc
  rw [Production.commaSeparated_eq]
  -- Each round takes a comma, so the induction is on the number of tokens that are left.
  induction hlen : c.remaining.length using Nat.strongRecOn generalizing c with
  | ind len ih =>
    subst hlen
    refine .unfold ?_ hloop
    refine Follows.congr ((hitem c hc).bind (fun _ => rfl) fun e rest _ hrest => ?_) (fun _ => rfl)
      (Production.run_bind_assoc _ _)
    refine commaRounds_follows (hc.moveTo rest) (fun d hd o mid ho => ?_) fun d hd hlt => ?_
    · obtain ⟨a, _, ha, hpure⟩ := Production.bind_eq_ok.mp ho
      obtain ⟨-, rfl⟩ := Production.pure_eq_ok.mp hpure
      exact (hitem d hd).suffix ha
    · rw [remaining_moveTo hrest] at hlt
      exact ih _ (Nat.lt_of_lt_of_le hlt hrest.length_le) d hd rfl

/-- A list up to its closing bracket. -/
theorem listUntil_traces {β : Type} {close : Bracket} {k : List Tree → Walk (Option β)}
    {f : List Tree → Production β} (hloop : Traces room loop (Production.commaSeparated item'))
    (hk : ∀ es, Traces room (fun _ => k es) (f es)) : Traces room (fun n => do
      let some es ← (do if ← checkKind (.bracket close) then return some [] else loop n)
        | return none
      let some _ ← expectKind (.bracket close) | return none
      k es) (Production.listUntil close item' >>= f) := by
  have hlist : (Production.listUntil close item' >>= f) = (Production.atKind (.bracket close) >>=
      fun b => if b = true then pure [] else Production.commaSeparated item') >>= fun es =>
        Production.expect (.bracket close) >>= fun _ => f es := by
    rw [Production.listUntil_eq, Production.bind_bind, Production.bind_bind]
    simp only [Production.bind_bind]
    rfl
  rw [hlist]
  refine Traces.bind (.checkKind fun b => ?_) (fun _ => rfl) fun es =>
    .expect (fun _ => rfl) fun _ => hk es
  cases b with
  | true => exact .pure []
  | false => exact hloop

theorem call_traces (h : Traces room expression item') : Traces room call (Production.call item') := by
  refine .unfold ?_ call.eq_2
  refine .expect (fun _ => rfl) fun name => .expect (fun _ => rfl) fun _ => ?_
  exact listUntil_traces (commaSeparated_traces h arguments.eq_2) fun es => .pure _

theorem element_traces (h : Traces room expression item') :
    Traces room element (Production.element item') := by
  refine .unfold ?_ element.eq_2
  refine .checkKind fun b => ?_
  cases b with
  | true => exact call_traces h
  | false => exact h

theorem arrayBody_traces (h : Traces room expression item') :
    Traces room arrayBody (Production.arrayOf item') := by
  refine .unfold ?_ arrayBody.eq_2
  refine .expect (fun _ => rfl) fun _ => ?_
  exact listUntil_traces (commaSeparated_traces (element_traces h) elements.eq_2) fun es => .pure _

theorem operands_traces (h : Traces room primary item') (left : Tree) :
    Traces room (fun n => operands n left) (Production.operands item' left) := by
  intro c hc
  induction hlen : c.remaining.length using Nat.strongRecOn generalizing c left with
  | ind len ih =>
    subst hlen
    refine .unfold ?_ (operands.eq_2 left)
    by_cases hnext : Next (·.binaryOperator? = none) c.remaining
    · refine (Follows.pure hc left).congr (fun _ => ?_) (Production.operands_stop hnext)
      rw [run_currentOperator]
      cases hts : c.remaining with
      | nil => rfl
      | cons t ts =>
        rw [hts, next_cons, Token.binaryOperator?] at hnext
        simp only [List.head?_cons, Option.bind_some, hnext]
    · obtain ⟨t, ts, hts, ht⟩ := exists_next_of_not hnext
      obtain ⟨op, hop⟩ := Option.ne_none_iff_exists'.mp ht
      have hmid : (c.moveTo ts).remaining = ts := remaining_moveTo (hts ▸ List.suffix_cons t ts)
      have hfirst := h _ (hc.moveTo ts)
      refine Follows.step (hfirst.bind (k := fun n => fun
        | some right => operands n (.binary op left right)
        | _ => pure none) (fun _ => rfl) fun r rest _ hrest => ?_) hts (fun _ => ?_)
        (Production.operands_next hop fun r mid hr => ?_)
      · rw [hmid] at hrest
        have hrest' : rest <:+ c.remaining := hrest.trans (hts ▸ List.suffix_cons t ts)
        refine ih rest.length ?_ _ _ ((hc.moveTo ts).moveTo rest)
          (congrArg List.length (remaining_moveTo (hmid.symm ▸ hrest)))
        rw [hts]
        exact Nat.lt_succ_of_le hrest.length_le
      · rw [Token.binaryOperator?] at hop
        rw [run_currentOperator, hts]
        simp only [List.head?_cons, Option.bind_some, hop]
        exact run_advance hts _
      · rw [← hmid] at hr ⊢
        exact (hfirst.suffix hr).length_le

theorem expression_traces (h : Traces room primary item') :
    Traces room expression (Production.chain item') := by
  refine .unfold ?_ expression.eq_2
  exact h.bind (fun _ => rfl) fun first => operands_traces h first

/-- Operands, expressions and array literals, with so many levels left to open. -/
theorem nested_traces (room : Nat) : Traces room primary (Production.operandWithin maxNesting room) ∧
    Traces room expression (Production.expression maxNesting room) ∧
    Traces room array (Production.arrayLiteral maxNesting room) := by
  induction room with
  | zero =>
    have harray : Traces 0 array (Production.tooDeep maxNesting) :=
      .unfold .nested_tooDeep array.eq_2
    have hprimary := primary_traces .nested_tooDeep harray
    exact ⟨hprimary, expression_traces hprimary, harray⟩
  | succ room ih =>
    obtain ⟨-, hinner, -⟩ := ih
    have harray : Traces (room + 1) array
        (Production.arrayOf (Production.expression maxNesting room)) :=
      .unfold (.nested (arrayBody_traces hinner)) array.eq_2
    have hprimary := primary_traces (.nested (group_traces hinner)) harray
    exact ⟨hprimary, expression_traces hprimary, harray⟩

end Walk

end SlangScript
