import SlangScript.Proofs.EarliestError

/-! The limit on nesting cuts what is read short and changes nothing else: with fewer levels left, a
production does as it does with more of them, or complains about the depth at a place that the other one
comes to as well. Each level that it had has taken a token by then. -/
namespace SlangScript

/-- The tokens that are left where a production ends, with a result or without. -/
def Production.left {α : Type} (p : Production α) (ts : List Token) : List Token :=
  match p ts with
  | .ok (_, rest) => rest
  | .error f => f.rest

/-- The tokens that are left where a repetition stops. -/
def Production.leftBehind : Except Failure (List Token) → List Token
  | .ok rest => rest
  | .error f => f.rest

/-- How two productions go on from these tokens, where `p` may open `n` levels of brackets out of `limit`
and `q` as many or more. -/
inductive CappedAt {α : Type} (limit n : Nat) (p q : Production α) (ts : List Token) : Prop
  /-- Both do the same, and it is not the depth that stops them. -/
  | same (h : q ts = p ts) (hdeep : ∀ e, p ts = .error e → ∀ l, e.mismatch ≠ .tooDeep l)
    (hleft : (p.left ts).length ≤ ts.length)
  /-- The depth stops `p`, behind a token for each level, and `q` comes as far. -/
  | cut {rest : List Token} (h : p ts = .error ⟨.tooDeep limit, rest⟩)
    (hn : rest.length + n ≤ ts.length) (hleft : (q.left ts).length ≤ rest.length)

/-- How repetitions of two such rounds go on. What the shorter one has gathered, the other one has
too. -/
inductive CappedGather {α : Type} (limit n : Nat) (p q : Production (Option α)) (ts : List Token) :
    Prop
  | same (h : Production.gather q ts = Production.gather p ts)
    (hdeep : ∀ e, (Production.gather p ts).2 = .error e → ∀ l, e.mismatch ≠ .tooDeep l)
    (hleft : (Production.leftBehind (Production.gather p ts).2).length ≤ ts.length)
  | cut {items : List α} {rest : List Token}
    (h : Production.gather p ts = (items, .error ⟨.tooDeep limit, rest⟩))
    (hn : rest.length + n ≤ ts.length) (hitems : items <+: (Production.gather q ts).1)
    (hleft : (Production.leftBehind (Production.gather q ts).2).length ≤ rest.length)

def Capped {α : Type} (limit n : Nat) (p q : Production α) : Prop := ∀ ts, CappedAt limit n p q ts

namespace Production
variable {α β : Type} {p q : Production α} {f : α → Production β} {round : Production (Option α)}
  {ts mid rest : List Token} {a : α}

theorem gather_of_error {e : Failure} (h : round ts = .error e) :
    gather round ts = ([], .error e) := by
  rw [gather, h]

theorem gather_of_none (h : round ts = .ok (none, mid)) : gather round ts = ([], .ok mid) := by
  rw [gather, h]

theorem gather_of_some (h : round ts = .ok (some a, mid)) (hlt : mid.length < ts.length) :
    gather round ts = (a :: (gather round mid).1, (gather round mid).2) := by
  rw [gather, h]
  simp only [hlt, ↓reduceIte]

theorem gather_of_last (h : round ts = .ok (some a, mid)) (hlt : ¬ mid.length < ts.length) :
    gather round ts = ([a], .ok mid) := by
  rw [gather, h]
  simp only [hlt, ↓reduceIte]

theorem left_of_ok (h : p ts = .ok (a, rest)) : p.left ts = rest := by rw [left, h]

theorem left_of_error {e : Failure} (h : p ts = .error e) : p.left ts = e.rest := by rw [left, h]

theorem left_congr (h : q ts = p mid) : q.left ts = p.left mid := by rw [left, left, h]

/-- What follows a production does not end further back. -/
theorem left_bind_le (hf : ∀ a mid, ((f a).left mid).length ≤ mid.length) :
    ((p >>= f).left ts).length ≤ (p.left ts).length := by
  cases h : p ts with
  | error e =>
    have hbind : (p >>= f) ts = .error e := bind_eq_error.mpr (.inl h)
    exact Nat.le_of_eq (by rw [left_of_error hbind, left_of_error h])
  | ok r =>
    obtain ⟨a, mid⟩ := r
    rw [left_congr (run_bind h), left_of_ok h]
    exact hf a mid

theorem expect_not_deep {kind : TokenKind} {e : Failure} (h : expect kind ts = .error e) (l : Nat) :
    e.mismatch ≠ .tooDeep l := by
  cases ts with
  | nil => cases h; simp
  | cons t ts =>
    rw [expect] at h
    split at h
    · cases h
    · cases h; simp

theorem many_eq_error {e : Failure} :
    many round ts = .error e ↔ ∃ items, gather round ts = (items, .error e) := by
  rw [many]
  cases gather round ts with
  | mk items stop => cases stop <;> simp

theorem left_many : (many round).left ts = leftBehind (gather round ts).2 := by
  rw [left, many]
  cases gather round ts with
  | mk items stop => cases stop <;> rfl

/-- What is gathered after a round does not end further back than the round. -/
theorem gather_left_le (h : ∀ ts, (round.left ts).length ≤ ts.length) (ts : List Token) :
    (leftBehind (gather round ts).2).length ≤ (round.left ts).length := by
  induction ts using gather.induct round with
  | case1 ts e he =>
    rw [gather_of_error he, left_of_error he]
    exact Nat.le_refl _
  | case2 ts mid hr =>
    rw [gather_of_none hr, left_of_ok hr]
    exact Nat.le_refl _
  | case3 ts a mid hr hlt more stop hm ih =>
    rw [gather_of_some hr hlt, left_of_ok hr]
    exact Nat.le_trans ih (h mid)
  | case4 ts a mid hr hlt =>
    rw [gather_of_last hr hlt, left_of_ok hr]
    exact Nat.le_refl _

end Production

open Production

theorem Settled.left_le {α : Type} {p : Production α} (h : Settled p) (ts : List Token) :
    (p.left ts).length ≤ ts.length := by
  cases hp : p ts with
  | error e =>
    obtain ⟨w, hw, -⟩ := (h ts).of_error hp
    rw [left_of_error hp, hw, List.length_append]
    exact Nat.le_add_left _ _
  | ok r =>
    obtain ⟨w, hw, -⟩ := (h ts).of_ok hp
    rw [left_of_ok hp, hw, List.length_append]
    exact Nat.le_add_left _ _

namespace CappedAt
open Production
variable {α : Type} {limit n k : Nat} {p q p' q' : Production α} {ts mid rest : List Token} {a : α}

theorem of_ok (h : p ts = .ok (a, rest)) (hrest : rest.length ≤ ts.length) :
    CappedAt limit n p p ts :=
  .same rfl (fun _ he => by cases h.symm.trans he) (left_of_ok h ▸ hrest)

theorem of_error {e : Failure} (hp : p ts = .error e) (hq : q ts = .error e)
    (hdeep : ∀ l, e.mismatch ≠ .tooDeep l) (hrest : e.rest.length ≤ ts.length) :
    CappedAt limit n p q ts :=
  .same (hq.trans hp.symm) (fun _ he => by cases hp.symm.trans he; exact hdeep)
    (left_of_error hp ▸ hrest)

/-- The longer reading does not go back. -/
theorem left_le (h : CappedAt limit n p q ts) : (q.left ts).length ≤ ts.length := by
  cases h with
  | same h hdeep hleft => exact left_congr h ▸ hleft
  | cut h hn hleft => omega

/-- Behind `k` tokens, each of which may have opened a level. -/
theorem behind (h : CappedAt limit n p' q' mid) (hp : p ts = p' mid) (hq : q ts = q' mid)
    (hmid : mid.length + k ≤ ts.length) : CappedAt limit (n + k) p q ts := by
  cases h with
  | same h hdeep hleft =>
    refine .same (by rw [hp, hq, h]) (hp ▸ hdeep) ?_
    rw [left_congr hp]
    omega
  | cut h hn hleft => exact .cut (hp.trans h) (by omega) (left_congr hq ▸ hleft)

/-- What lies ahead may be told before it is read. -/
theorem look {β : Type} {g : List Token → β} {f f' : β → Production α}
    (h : CappedAt limit n (f (g ts)) (f' (g ts)) ts) :
    CappedAt limit n (Production.look g >>= f) (Production.look g >>= f') ts :=
  h.behind (k := 0) rfl rfl (Nat.le_refl _)

end CappedAt

namespace Capped
variable {α β : Type} {limit n : Nat} {p q : Production α} {f g : α → Production β}

theorem pure (a : α) : Capped limit n (Pure.pure a) (Pure.pure a) :=
  fun _ => .of_ok rfl (Nat.le_refl _)

theorem look (g : List Token → α) : Capped limit n (Production.look g) (Production.look g) :=
  fun _ => .of_ok rfl (Nat.le_refl _)

theorem fail {m : Mismatch} (hm : ∀ l, m ≠ .tooDeep l) :
    Capped limit n (Production.fail m : Production α) (Production.fail m) :=
  fun _ => .of_error rfl rfl hm (Nat.le_refl _)

theorem skip : Capped limit n Production.skip Production.skip :=
  fun ts => .of_ok rfl (by simp)

theorem expect (kind : TokenKind) :
    Capped limit n (Production.expect kind) (Production.expect kind) := by
  intro ts
  cases h : Production.expect kind ts with
  | error e => exact .of_error h h (expect_not_deep h) (expect_eq_error h ▸ Nat.le_refl _)
  | ok r =>
    obtain ⟨rfl, -⟩ := expect_eq_ok.mp h
    exact .of_ok h (Nat.le_succ _)

theorem accept? (recognise : Token → Option α) :
    Capped limit n (Production.accept? recognise) (Production.accept? recognise) := by
  intro ts
  rcases accept?_cases recognise ts with h | ⟨t, a, rest, rfl, -, h⟩
  · exact .of_ok h (Nat.le_refl _)
  · exact .of_ok h (Nat.le_succ _)

theorem skipIf (kind : TokenKind) :
    Capped limit n (Production.skipIf kind) (Production.skipIf kind) := by
  intro ts
  cases h : ts.head?.any (·.kind = kind) with
  | true => exact .of_ok (by rw [Production.skipIf, if_pos h]) (by simp)
  | false => exact .of_ok (by rw [Production.skipIf, h]; rfl) (Nat.le_refl _)

/-- No level is left, and no token has to be taken to complain about that. -/
theorem tooDeep (limit : Nat) (h : Settled q) : Capped limit 0 (Production.tooDeep limit) q :=
  fun ts => .cut rfl (Nat.le_refl _) (h.left_le ts)

theorem bind (h : Capped limit n p q) (hf : ∀ a, Capped limit n (f a) (g a)) :
    Capped limit n (p >>= f) (q >>= g) := by
  intro ts
  cases h ts with
  | same h hdeep hleft =>
    cases hp : p ts with
    | error e =>
      rw [hp] at h
      exact .of_error (bind_eq_error.mpr (.inl hp)) (bind_eq_error.mpr (.inl h)) (hdeep e hp)
        (left_of_error hp ▸ hleft)
    | ok r =>
      obtain ⟨a, mid⟩ := r
      rw [hp] at h
      exact (hf a mid).behind (k := 0) (run_bind hp) (run_bind h) (left_of_ok hp ▸ hleft)
  | cut h hn hleft =>
    refine .cut (bind_eq_error.mpr (.inl h)) hn ?_
    exact Nat.le_trans (left_bind_le fun a mid => (hf a mid).left_le) hleft

/-- A token that has been taken allows for one more level. -/
theorem opening {kind : TokenKind} {f g : Token → Production β}
    (hf : ∀ t, Capped limit n (f t) (g t)) :
    Capped limit (n + 1) (Production.expect kind >>= f) (Production.expect kind >>= g) := by
  intro ts
  cases h : Production.expect kind ts with
  | error e =>
    have hrun {h : Token → Production β} : (Production.expect kind >>= h) ts = .error e :=
      bind_eq_error.mpr (.inl ‹_›)
    exact .of_error hrun hrun (expect_not_deep h) (expect_eq_error h ▸ Nat.le_refl _)
  | ok r =>
    obtain ⟨t, mid⟩ := r
    obtain ⟨rfl, -⟩ := expect_eq_ok.mp h
    exact (hf t mid).behind (run_bind h) (run_bind h) (Nat.le_refl _)

variable {round round' : Production (Option α)}

theorem gather (h : Capped limit n round round') (ts : List Token) :
    CappedGather limit n round round' ts := by
  induction ts using Production.gather.induct round with
  | case1 ts e he =>
    cases h ts with
    | same h hdeep hleft =>
      have hg := gather_of_error he
      refine .same ((gather_of_error (h.trans he)).trans hg.symm) ?_ ?_
      · rw [hg]
        rintro _ ⟨⟩
        exact hdeep e he
      · rw [hg]
        rwa [left_of_error he] at hleft
    | cut h' hn hleft =>
      refine .cut (gather_of_error h') hn List.nil_prefix ?_
      exact Nat.le_trans (gather_left_le (fun ts => (h ts).left_le) ts) hleft
  | case2 ts mid hr =>
    cases h ts with
    | same h hdeep hleft =>
      have hg := gather_of_none hr
      refine .same ((gather_of_none (h.trans hr)).trans hg.symm) (by simp [hg]) ?_
      rw [hg]
      rwa [left_of_ok hr] at hleft
    | cut h => cases hr.symm.trans h
  | case3 ts a mid hr hlt more stop hm ih =>
    cases h ts with
    | same h hdeep hleft =>
      have hg := gather_of_some hr hlt
      have hg' := gather_of_some (h.trans hr) hlt
      cases ih with
      | same ih hdeep hleft =>
        refine .same (by rw [hg, hg', ih]) (by rwa [hg]) ?_
        rw [hg]
        exact Nat.le_trans hleft (Nat.le_of_lt hlt)
      | cut ih hn hitems hleft =>
        refine .cut (by rw [hg, ih]) (Nat.le_trans hn (Nat.le_of_lt hlt)) ?_ (by rwa [hg'])
        rw [hg']
        exact (List.prefix_cons_inj a).mpr hitems
    | cut h => cases hr.symm.trans h
  | case4 ts a mid hr hlt =>
    cases h ts with
    | same h hdeep hleft =>
      have hg := gather_of_last hr hlt
      refine .same ((gather_of_last (h.trans hr) hlt).trans hg.symm) (by simp [hg]) ?_
      rw [hg]
      rwa [left_of_ok hr] at hleft
    | cut h => cases hr.symm.trans h

theorem many (h : Capped limit n round round') :
    Capped limit n (Production.many round) (Production.many round') := by
  intro ts
  cases h.gather ts with
  | same h hdeep hleft =>
    refine .same (by rw [Production.many, Production.many, h]) (fun e he => ?_) (left_many ▸ hleft)
    obtain ⟨items, hg⟩ := many_eq_error.mp he
    exact hdeep e (by rw [hg])
  | cut h hn hitems hleft => exact .cut (many_eq_error.mpr ⟨_, h⟩) hn (left_many ▸ hleft)

end Capped

namespace Production
variable {limit limit' n : Nat} {p q group group' array array' : Production Tree}

theorem literal_capped (tag : Tag) (text : String) :
    Capped limit n (literal tag text) (literal tag text) := by
  refine .bind .skip fun _ => .bind (.accept? _) fun o => ?_
  cases o with
  | none => exact .pure _
  | some op => exact .pure _

/-- What a bracket begins is read with the bracket ahead. -/
theorem operand_capped (hg : ∀ t ts, CappedAt limit n group group' (t :: ts))
    (ha : Capped limit n array array') :
    Capped limit n (operand group array) (operand group' array') := by
  intro ts
  refine .look ?_
  cases ts with
  | nil => exact Capped.fail (by simp) []
  | cons t ts =>
    dsimp only [List.head?_cons]
    split
    · exact hg t ts
    · exact ha (t :: ts)
    · split
      · exact literal_capped _ _ _
      · exact Capped.fail (by simp) _

theorem operand_tooDeep (hg : Settled group) (ha : Settled array) :
    Capped limit 0 (operand (tooDeep limit) (tooDeep limit)) (operand group array) :=
  operand_capped (fun t ts => Capped.tooDeep limit hg (t :: ts)) (.tooDeep limit ha)

theorem chain_capped (h : Capped limit n p q) : Capped limit n (chain p) (chain q) := by
  refine h.bind fun first => .bind (.many (.bind (.accept? _) fun o => ?_)) fun more => .pure _
  cases o with
  | none => exact .pure _
  | some op => exact h.bind fun next => .pure _

theorem commaSeparated_capped (h : Capped limit n p q) :
    Capped limit n (commaSeparated p) (commaSeparated q) := by
  refine h.bind fun first => .bind (.many (.bind (.skipIf _) fun b => ?_)) fun more => .pure _
  cases b with
  | false => exact .pure _
  | true => exact h.bind fun next => .pure _

theorem listUntil_capped (close : Bracket) (h : Capped limit n p q) :
    Capped limit n (listUntil close p) (listUntil close q) := by
  rw [listUntil_eq, listUntil_eq]
  refine .bind (.look _) fun b => .bind ?_ fun items => .bind (.expect _) fun _ => .pure _
  cases b with
  | false => exact commaSeparated_capped h
  | true => exact .pure _

theorem call_capped (h : Capped limit n p q) : Capped limit n (call p) (call q) :=
  .bind (.expect _) fun _ => .bind (.expect _) fun _ => (listUntil_capped _ h).bind fun _ => .pure _

theorem grouped_capped (h : Capped limit n p q) (t : Token) (ts : List Token) :
    CappedAt limit (n + 1) (grouped p) (grouped q) (t :: ts) := by
  have hinner : Capped limit n (p >>= fun e => expect (.bracket .closeParen) >>= fun _ => pure e)
      (q >>= fun e => expect (.bracket .closeParen) >>= fun _ => pure e) :=
    h.bind fun _ => .bind (.expect _) fun _ => .pure _
  exact (hinner ts).behind rfl rfl (Nat.le_refl _)

theorem arrayOf_capped (h : Capped limit n p q) : Capped limit (n + 1) (arrayOf p) (arrayOf q) := by
  refine .opening fun _ => .bind (listUntil_capped _ (.bind (.look _) fun b => ?_)) fun _ => .pure _
  cases b with
  | false => exact h
  | true => exact call_capped h

theorem expression_capped (limit limit' : Nat) {a b : Nat} (hab : a ≤ b) :
    Capped limit a (expression limit a) (expression limit' b) := by
  induction a generalizing b with
  | zero =>
    cases b with
    | zero => exact chain_capped (operand_tooDeep (.fail _) (.fail _))
    | succ b =>
      have h := expression_settled limit' b
      exact chain_capped (operand_tooDeep (grouped_settled h) (arrayOf_settled h))
  | succ a ih =>
    obtain ⟨b, rfl⟩ := Nat.exists_eq_add_of_le' (Nat.le_trans (Nat.le_add_left 1 a) hab)
    have h := ih (Nat.le_of_succ_le_succ hab)
    exact chain_capped (operand_capped (grouped_capped h) (arrayOf_capped h))

theorem arrayLiteral_capped (limit limit' : Nat) {a b : Nat} (hab : a ≤ b) :
    Capped limit a (arrayLiteral limit a) (arrayLiteral limit' b) := by
  cases a with
  | zero => exact .tooDeep limit (arrayLiteral_settled limit' b)
  | succ a =>
    obtain ⟨b, rfl⟩ := Nat.exists_eq_add_of_le' (Nat.le_trans (Nat.le_add_left 1 a) hab)
    exact arrayOf_capped (expression_capped limit limit' (Nat.le_of_succ_le_succ hab))

end Production

namespace Level
open Production
variable {limit n : Nat} {l l' : Level}

/-- One level, with `n` further ones out of `limit`, cuts short what another one reads. -/
structure CappedBy (limit n : Nat) (l l' : Level) : Prop where
  expression : Capped limit n l.expression l'.expression
  array : Capped limit n l.array l'.array
  braces : Capped limit n l.braces l'.braces

theorem terminated_capped {p q : Production Tree} (h : Capped limit n p q) :
    Capped limit n (terminated p) (terminated q) := h.bind fun _ => .bind (.skipIf _) fun _ => .pure _

theorem input_capped : Capped limit n input input :=
  .bind .skip fun _ => .bind (.expect _) fun _ => .bind (.expect _) fun _ => .bind (.expect _) fun _ =>
    .pure _

theorem parameter?_capped : Capped limit n parameter? parameter? := by
  refine .bind (.look _) fun c => ?_
  cases c with
  | none => exact .pure _
  | some t =>
    dsimp only
    split
    · exact .pure _
    · split
      · exact .bind .skip fun _ => .bind (.expect _) fun _ => .pure _
      · exact .fail (by simp)

theorem parameters_capped : Capped limit n parameters parameters := by
  refine .bind parameter?_capped fun o => ?_
  cases o with
  | none => exact .pure _
  | some first =>
    refine .bind (.many (.bind (.skipIf _) fun b => ?_)) fun _ => .pure _
    cases b with
    | false => exact .pure _
    | true => exact parameter?_capped

theorem lineList_capped : Capped limit n lineList lineList :=
  .bind .skip fun _ => .bind .skip fun _ => .bind (.expect _) fun _ =>
    .bind (listUntil_capped _ (.bind (.expect _) fun _ => .pure _)) fun _ => .pure _

section Capped
variable (h : l.CappedBy limit n l')
include h

theorem condition_capped : Capped limit n l.condition l'.condition :=
  .bind (.expect _) fun _ => h.expression.bind fun _ => .bind (.expect _) fun _ => .pure _

theorem block_capped : Capped limit n l.block l'.block := h.braces.bind fun _ => .pure _

theorem guarded_capped (tag : Tag) : Capped limit n (l.guarded tag) (l'.guarded tag) :=
  (condition_capped h).bind fun _ => (block_capped h).bind fun _ => .pure _

theorem declaration_capped (word : String) :
    Capped limit n (l.declaration word) (l'.declaration word) := by
  refine .bind .skip fun _ => .bind (.expect _) fun _ => .bind (.accept? _) fun o => ?_
  cases o with
  | none => exact .pure _
  | some op => exact h.expression.bind fun _ => .pure _

theorem elseIf?_capped : Capped limit n l.elseIf? l'.elseIf? := by
  refine .bind (.look _) fun b => ?_
  cases b with
  | false => exact .pure _
  | true => exact .bind .skip fun _ => .bind .skip fun _ => (guarded_capped h _).bind fun _ => .pure _

theorem else?_capped : Capped limit n l.else? l'.else? := by
  refine .bind (.accept? _) fun o => ?_
  cases o with
  | none => exact .pure _
  | some u => exact h.braces.bind fun _ => .pure _

theorem ifChain_capped : Capped limit n l.ifChain l'.ifChain :=
  .bind .skip fun _ => (guarded_capped h _).bind fun _ => (Capped.many (elseIf?_capped h)).bind fun _ =>
    (else?_capped h).bind fun _ => .pure _

theorem forLoop_capped : Capped limit n l.forLoop l'.forLoop :=
  .bind .skip fun _ => .bind (.expect _) fun _ => h.expression.bind fun _ => .bind (.expect _) fun _ =>
    h.expression.bind fun _ => .bind (.expect _) fun _ => h.expression.bind fun _ =>
    .bind (.expect _) fun _ => (block_capped h).bind fun _ => .pure _

theorem print_capped : Capped limit n l.print l'.print :=
  .bind .skip fun _ => (condition_capped h).bind fun _ => .pure _

theorem definition_capped : Capped limit n l.definition l'.definition :=
  .bind .skip fun _ => .bind (.expect _) fun _ => .bind (.expect _) fun _ =>
    parameters_capped.bind fun _ => .bind (.expect _) fun _ => (block_capped h).bind fun _ => .pure _

theorem reply_capped : Capped limit n l.reply l'.reply :=
  .bind .skip fun _ => h.expression.bind fun _ => .pure _

theorem assigned_capped : Capped limit n l.assigned l'.assigned := by
  refine .bind (.look _) fun b => ?_
  cases b with
  | false => exact h.expression
  | true => exact h.array

theorem named_capped : Capped limit n l.named l'.named := by
  refine .bind (.expect _) fun _ => .bind (.accept? _) fun o => ?_
  cases o with
  | none => exact .pure _
  | some op =>
    dsimp only
    split
    · exact (assigned_capped h).bind fun _ => .pure _
    · exact .pure _

theorem statementOf_capped (o : Opening) : Capped limit n (l.statementOf o) (l'.statementOf o) := by
  cases o with
  | declaration word => exact terminated_capped (declaration_capped h word)
  | construct c =>
    cases c with
    | print => exact terminated_capped (print_capped h)
    | input => exact terminated_capped input_capped
    | conditional => exact ifChain_capped h
    | whileLoop => exact .bind .skip fun _ => guarded_capped h _
    | switch => exact .bind .skip fun _ => guarded_capped h _
    | forLoop => exact forLoop_capped h
  | definition => exact definition_capped h
  | reply => exact terminated_capped (reply_capped h)
  | call => exact terminated_capped (call_capped h.expression)
  | lineList => exact terminated_capped lineList_capped
  | name => exact terminated_capped (named_capped h)
  | block => exact block_capped h

theorem statement_capped : Capped limit n l.statement l'.statement := by
  refine .bind (.look _) fun o => ?_
  cases o with
  | none => exact .bind (.look _) fun _ => .fail (by simp)
  | some o => exact statementOf_capped h o

end Capped

end Level

namespace Production

theorem statement?_capped {limit n : Nat} {p q : Production Tree} (h : Capped limit n p q) :
    Capped limit n (statement? p) (statement? q) := by
  refine .bind (.look _) fun b => ?_
  cases b with
  | false => exact .pure _
  | true => exact h.bind fun _ => .pure _

theorem level_capped (limit limit' : Nat) {a b : Nat} (hab : a ≤ b) :
    (level limit a).CappedBy limit a (level limit' b) := by
  induction a generalizing b with
  | zero =>
    have h := expression_capped limit limit' hab
    have h' := arrayLiteral_capped limit limit' hab
    cases b with
    | zero => exact ⟨h, h', .tooDeep limit (.fail _)⟩
    | succ b => exact ⟨h, h', .tooDeep limit (braced_settled (statement_settled limit' b))⟩
  | succ a ih =>
    have h := expression_capped limit limit' hab
    have h' := arrayLiteral_capped limit limit' hab
    obtain ⟨b, rfl⟩ := Nat.exists_eq_add_of_le' (Nat.le_trans (Nat.le_add_left 1 a) hab)
    have hs : Capped limit a (statement limit a) (statement limit' b) := by
      rw [statement_eq, statement_eq]
      exact Level.statement_capped (ih (Nat.le_of_succ_le_succ hab))
    exact ⟨h, h', .opening fun _ => (Capped.many (statement?_capped hs)).bind fun _ =>
      .bind (.expect _) fun _ => .pure _⟩

theorem statement_capped (limit limit' : Nat) {a b : Nat} (hab : a ≤ b) :
    Capped limit a (statement limit a) (statement limit' b) := by
  rw [statement_eq, statement_eq]
  exact Level.statement_capped (level_capped limit limit' hab)

end Production

theorem failureOf?_rest {items : List Tree} {stop : Except Failure (List Token)} {f : Failure}
    (h : failureOf? items stop = some f) : f.rest = leftBehind stop := by
  cases stop with
  | error e => cases h; rfl
  | ok rest => exact leftoverFailure?_rest h

/-- Tokens that are left over are no complaint about the depth. -/
theorem failureOf?_not_deep {items : List Tree} {stop : Except Failure (List Token)} {f : Failure}
    (hdeep : ∀ e, stop = .error e → ∀ l, e.mismatch ≠ .tooDeep l)
    (h : failureOf? items stop = some f) (l : Nat) : f.mismatch ≠ .tooDeep l := by
  cases stop with
  | error e => cases h; exact hdeep _ rfl l
  | ok rest => cases items <;> cases rest <;> cases h <;> nofun

/-- With more levels to open, a program is parsed as with fewer, unless these were too few. Then the
depth is all that is complained about, and what has been read by then, or more, is read with more
levels. -/
theorem parseWithin_capped {a b : Nat} (hab : a ≤ b) (ts : List Token) :
    parseWithin b ts = parseWithin a ts ∨
      ∃ index, (parseWithin a ts).errors = [⟨index, .tooDeep a⟩] ∧
        (parseWithin a ts).tree.statements <+: (parseWithin b ts).tree.statements ∧
        ∀ e ∈ (parseWithin b ts).errors, index ≤ e.index := by
  cases (Production.statement?_capped (Production.statement_capped a b hab)).gather ts with
  | same h hdeep hleft => exact .inl (by rw [parseWithin, parseWithin, h])
  | cut h hn hitems hleft =>
    rename_i items rest
    refine .inr ⟨ts.length - rest.length, by rw [parseWithin_eq h]; rfl, ?_, fun e he => ?_⟩
    · rw [parseWithin_eq h]
      exact hitems
    · rw [parseWithin_eq rfl] at he
      obtain ⟨f, hf, rfl⟩ := List.mem_map.mp he
      have hrest := failureOf?_rest (Option.mem_toList.mp hf)
      simp only [Failure.toError, hrest]
      omega

/-- Each level takes a token, so there are levels enough where there are more than tokens. -/
theorem parseWithin_not_deep {cap : Nat} {ts : List Token} (h : ts.length < cap) {e : SyntaxError}
    (he : e ∈ (parseWithin cap ts).errors) (l : Nat) : e.mismatch ≠ .tooDeep l := by
  rw [parseWithin_eq rfl] at he
  obtain ⟨f, hf, rfl⟩ := List.mem_map.mp he
  have hself := Production.statement?_capped (Production.statement_capped cap cap (Nat.le_refl cap))
  cases hself.gather ts with
  | same _ hdeep hleft => exact failureOf?_not_deep hdeep (Option.mem_toList.mp hf) l
  | cut _ hn hitems hleft => omega

/-- The limit on nesting cuts what is read and changes nothing else. With a smaller one the outcome is
the same, tree and errors, or the depth is the only error, the statements before it are kept, and what
is wrong with a greater limit is noticed no earlier. A limit that is greater than the number of tokens
is never exceeded. -/
theorem parseWithin_limit {a b : Nat} (hab : a ≤ b) (ts : List Token) :
    (parseWithin a ts = parseWithin b ts ∨
      ∃ index, (parseWithin a ts).errors = [⟨index, .tooDeep a⟩] ∧
        (parseWithin a ts).tree.statements <+: (parseWithin b ts).tree.statements ∧
        ∀ e ∈ (parseWithin b ts).errors, index ≤ e.index) ∧
    ∀ cap, ts.length < cap → ∀ e ∈ (parseWithin cap ts).errors, ∀ l, e.mismatch ≠ .tooDeep l :=
  ⟨(parseWithin_capped hab ts).imp Eq.symm id, fun _ h _ he => parseWithin_not_deep h he⟩

/-- `x { { x } )`, where the second brace needs a second level. -/
def innerBlock : List Token :=
  [.ofKind .identifier, .ofKind (.bracket .openBrace), .ofKind (.bracket .openBrace),
    .ofKind .identifier, .ofKind (.bracket .closeBrace), .ofKind (.bracket .closeParen)]

theorem innerBlock_limit :
    (∃ index, (parseWithin 1 innerBlock).errors = [⟨index, .tooDeep 1⟩] ∧
      (parseWithin 1 innerBlock).tree.statements <+: (parseWithin 2 innerBlock).tree.statements ∧
      ∀ e ∈ (parseWithin 2 innerBlock).errors, index ≤ e.index) ∧
    ∀ e ∈ (parseWithin 7 innerBlock).errors, ∀ l, e.mismatch ≠ .tooDeep l := by
  have hne : parseWithin 1 innerBlock ≠ parseWithin 2 innerBlock := by decide +kernel
  have h := parseWithin_limit (Nat.le_succ 1) innerBlock
  exact ⟨h.1.resolve_left hne, h.2 7 (by decide)⟩

end SlangScript
