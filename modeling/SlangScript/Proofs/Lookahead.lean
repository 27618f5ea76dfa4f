import SlangScript.Proofs.StatementCompleteness

/-! How far ahead a production looks: what it takes, and how it ends, depends on the tokens that it takes
and on the first one that it leaves. -/
namespace SlangScript

/-- How a production ends: with a result, or with a complaint about the next token. -/
inductive Ending (α : Type) where
  | taken (a : α)
  | refused (m : Mismatch)

/-- The outcome that an ending stands for, with these tokens left. -/
def Ending.leaving {α : Type} : Ending α → List Token → Except Failure (α × List Token)
  | taken a, rest => .ok (a, rest)
  | refused m, rest => .error ⟨m, rest⟩

/-- On these tokens, none but those that are taken and the first one that is left decide the outcome. -/
def SettledAt {α : Type} (p : Production α) (ts : List Token) : Prop :=
  ∃ w rest, ∃ e : Ending α, ts = w ++ rest ∧
    ∀ rest', rest'.head? = rest.head? → p (w ++ rest') = e.leaving rest'

def Settled {α : Type} (p : Production α) : Prop := ∀ ts, SettledAt p ts

namespace SettledAt
variable {α β : Type} {p q : Production α} {f : α → Production β} {ts : List Token}

theorem bind (hp : SettledAt p ts) (hf : ∀ a mid, p ts = .ok (a, mid) → SettledAt (f a) mid) :
    SettledAt (p >>= f) ts := by
  obtain ⟨w, rest, e, rfl, hw⟩ := hp
  cases e with
  | refused m =>
    exact ⟨w, rest, .refused m, rfl, fun rest' hr => Production.bind_eq_error.mpr (.inl (hw rest' hr))⟩
  | taken a =>
    obtain ⟨v, left, e, rfl, hv⟩ := hf a rest (hw rest rfl)
    refine ⟨w ++ v, left, e, by simp, fun rest' hr => ?_⟩
    have hhead : (v ++ rest').head? = (v ++ left).head? := by simp [List.head?_append, hr]
    rw [List.append_assoc, Production.run_bind (hw _ hhead)]
    exact hv rest' hr

theorem of_ok {a : α} {mid : List Token} (h : SettledAt p ts) (hp : p ts = .ok (a, mid)) :
    ∃ w, ts = w ++ mid ∧ ∀ rest, rest.head? = mid.head? → p (w ++ rest) = .ok (a, rest) := by
  obtain ⟨w, rest, e, rfl, hw⟩ := h
  cases e with
  | refused m => exact absurd ((hw rest rfl).symm.trans hp) nofun
  | taken b =>
    cases (hw rest rfl).symm.trans hp
    exact ⟨w, rfl, hw⟩

theorem of_error {f : Failure} (h : SettledAt p ts) (hp : p ts = .error f) :
    ∃ w, ts = w ++ f.rest ∧ ∀ rest, rest.head? = f.rest.head? →
      p (w ++ rest) = .error ⟨f.mismatch, rest⟩ := by
  obtain ⟨w, rest, e, rfl, hw⟩ := h
  cases e with
  | taken a => exact absurd ((hw rest rfl).symm.trans hp) nofun
  | refused m =>
    cases (hw rest rfl).symm.trans hp
    exact ⟨w, rfl, hw⟩

/-- Productions that agree on all tokens with this beginning are settled together. -/
theorem congr (hq : SettledAt q ts) (h : ∀ ts', ts'.head? = ts.head? → p ts' = q ts') :
    SettledAt p ts := by
  obtain ⟨w, rest, e, rfl, hw⟩ := hq
  refine ⟨w, rest, e, rfl, fun rest' hr => ?_⟩
  rw [h _ (by simp [List.head?_append, hr])]
  exact hw rest' hr

/-- A production that takes its first token is settled where the rest of it is. -/
theorem cons {t : Token} (h : SettledAt (fun ts => p (t :: ts)) ts) : SettledAt p (t :: ts) := by
  obtain ⟨w, rest, e, rfl, hw⟩ := h
  exact ⟨t :: w, rest, e, rfl, hw⟩

end SettledAt

namespace Settled
open Production
variable {α β : Type} {p : Production α} {f : α → Production β}

theorem bind (hp : Settled p) (hf : ∀ a, Settled (f a)) : Settled (p >>= f) :=
  fun ts => (hp ts).bind fun a mid _ => hf a mid

theorem pure (a : α) : Settled (Pure.pure a) := fun ts => ⟨[], ts, .taken a, rfl, fun _ _ => rfl⟩

theorem fail (m : Mismatch) : Settled (Production.fail m : Production α) := fun ts =>
  ⟨[], ts, .refused m, rfl, fun _ _ => rfl⟩

theorem look {g : List Token → α} (hg : ∀ ts ts', ts'.head? = ts.head? → g ts' = g ts) :
    Settled (Production.look g) := fun ts =>
  ⟨[], ts, .taken (g ts), rfl, fun rest' hr => by rw [← hg ts rest' hr]; rfl⟩

theorem current : Settled Production.current := look fun _ _ h => h

theorem atKind (kind : TokenKind) : Settled (Production.atKind kind) :=
  look fun _ _ h => by rw [h]

theorem skip : Settled Production.skip
  | [] => ⟨[], [], .taken (), rfl, fun rest' hr => by rw [List.head?_eq_none_iff.mp hr]; rfl⟩
  | t :: ts => ⟨[t], ts, .taken (), rfl, fun _ _ => rfl⟩

theorem expect (kind : TokenKind) : Settled (Production.expect kind)
  | [] => ⟨[], [], .refused _, rfl, fun rest' hr => by rw [List.head?_eq_none_iff.mp hr]; rfl⟩
  | t :: ts => by
    by_cases h : t.kind = kind
    · exact ⟨[t], ts, .taken t, rfl, fun _ _ => expect_eq_ok.mpr ⟨rfl, h⟩⟩
    · refine ⟨[], t :: ts, .refused (.expected kind (some t)), rfl, fun rest' hr => ?_⟩
      obtain ⟨rest, rfl⟩ := List.head?_eq_some_iff.mp hr
      rw [List.nil_append, Production.expect, if_neg h]
      rfl

theorem accept? (recognise : Token → Option α) : Settled (Production.accept? recognise)
  | [] => ⟨[], [], .taken none, rfl, fun rest' hr => by rw [List.head?_eq_none_iff.mp hr]; rfl⟩
  | t :: ts => by
    cases h : recognise t with
    | some a =>
      refine ⟨[t], ts, .taken (some a), rfl, fun rest' _ => ?_⟩
      simp [Production.accept?, h, Ending.leaving]
    | none =>
      refine ⟨[], t :: ts, .taken none, rfl, fun rest' hr => ?_⟩
      obtain ⟨rest, rfl⟩ := List.head?_eq_some_iff.mp hr
      simp [Production.accept?, h, Ending.leaving]

theorem skipIf (kind : TokenKind) : Settled (Production.skipIf kind)
  | [] => ⟨[], [], .taken false, rfl, fun rest' hr => by rw [List.head?_eq_none_iff.mp hr]; rfl⟩
  | t :: ts => by
    by_cases h : t.kind = kind
    · exact ⟨[t], ts, .taken true, rfl, fun _ _ => by simp [Production.skipIf, h, Ending.leaving]⟩
    · refine ⟨[], t :: ts, .taken false, rfl, fun rest' hr => ?_⟩
      obtain ⟨rest, rfl⟩ := List.head?_eq_some_iff.mp hr
      simp [Production.skipIf, h, Ending.leaving]

end Settled

/-- How a repetition stops: for good, or at a failure of a round. -/
def stopping : Option Mismatch → List Token → Except Failure (List Token)
  | none, rest => .ok rest
  | some m, rest => .error ⟨m, rest⟩

theorem Settled.gather {α : Type} {round : Production (Option α)} (h : Settled round)
    (ts : List Token) : ∃ w rest items stop, ts = w ++ rest ∧ ∀ rest', rest'.head? = rest.head? →
      Production.gather round (w ++ rest') = (items, stopping stop rest') := by
  induction ts using Production.gather.induct round with
  | case1 ts f hf =>
    obtain ⟨w, rfl, hw⟩ := (h ts).of_error hf
    refine ⟨w, f.rest, [], some f.mismatch, rfl, fun rest hr => ?_⟩
    rw [Production.gather, hw rest hr]
    rfl
  | case2 ts mid hmid =>
    obtain ⟨w, rfl, hw⟩ := (h ts).of_ok hmid
    refine ⟨w, mid, [], none, rfl, fun rest hr => ?_⟩
    rw [Production.gather, hw rest hr]
    rfl
  | case3 ts a mid hmid hlt more stop hm ih =>
    obtain ⟨w, rfl, hw⟩ := (h ts).of_ok hmid
    obtain ⟨v, left, items, stop, rfl, hv⟩ := ih
    refine ⟨w ++ v, left, a :: items, stop, by simp, fun rest hr => ?_⟩
    have hhead : (v ++ rest).head? = (v ++ left).head? := by simp [List.head?_append, hr]
    have hlt' : (v ++ rest).length < (w ++ (v ++ rest)).length := by
      simp only [List.length_append] at hlt ⊢
      omega
    rw [List.append_assoc, Production.gather, hw _ hhead]
    simp only [hlt', ↓reduceIte, hv rest hr]
  | case4 ts a mid hmid hlt =>
    obtain ⟨w, rfl, hw⟩ := (h ts).of_ok hmid
    refine ⟨w, mid, [a], none, rfl, fun rest hr => ?_⟩
    have hlt' : ¬ rest.length < (w ++ rest).length := by
      simp only [List.length_append] at hlt ⊢
      omega
    rw [Production.gather, hw _ hr]
    simp only [hlt', ↓reduceIte]
    rfl

theorem Settled.many {α : Type} {round : Production (Option α)} (h : Settled round) :
    Settled (Production.many round) := fun ts => by
  obtain ⟨w, rest, items, stop, rfl, hw⟩ := h.gather ts
  cases stop with
  | none =>
    refine ⟨w, rest, .taken items, rfl, fun rest' hr => ?_⟩
    rw [Production.many, hw rest' hr]
    rfl
  | some m =>
    refine ⟨w, rest, .refused m, rfl, fun rest' hr => ?_⟩
    rw [Production.many, hw rest' hr]
    rfl

namespace Production

variable {p group array inner : Production Tree}

theorem literal_settled (tag : Tag) (text : String) : Settled (literal tag text) :=
  Settled.skip.bind fun _ => (Settled.accept? _).bind fun o => by cases o <;> exact .pure _

theorem operand_settled (hg : Settled group) (ha : Settled array) :
    Settled (operand group array) := by
  refine Settled.current.bind fun c => ?_
  cases c with
  | none => exact .fail _
  | some t =>
    dsimp only
    split
    · exact hg
    · exact ha
    · split
      · exact literal_settled _ _
      · exact .fail _

theorem chain_settled (h : Settled p) : Settled (chain p) := by
  refine h.bind fun first => .bind (.many ?_) fun more => .pure _
  refine (Settled.accept? _).bind fun o => ?_
  cases o with
  | none => exact .pure _
  | some op => exact h.bind fun next => .pure _

theorem commaSeparated_settled (h : Settled p) : Settled (commaSeparated p) := by
  refine h.bind fun first => .bind (.many ?_) fun more => .pure _
  refine (Settled.skipIf _).bind fun b => ?_
  cases b with
  | false => exact .pure _
  | true => exact h.bind fun next => .pure _

theorem listUntil_settled (close : Bracket) (h : Settled p) : Settled (listUntil close p) := by
  rw [listUntil_eq]
  refine (Settled.atKind _).bind fun b => .bind ?_ fun items => (Settled.expect _).bind fun _ => .pure _
  cases b with
  | false => exact commaSeparated_settled h
  | true => exact .pure _

theorem call_settled (h : Settled inner) : Settled (call inner) :=
  (Settled.expect _).bind fun _ => (Settled.expect _).bind fun _ => (listUntil_settled _ h).bind
    fun _ => .pure _

theorem grouped_settled (h : Settled inner) : Settled (grouped inner) :=
  Settled.skip.bind fun _ => h.bind fun _ => (Settled.expect _).bind fun _ => .pure _

theorem arrayOf_settled (h : Settled inner) : Settled (arrayOf inner) := by
  refine (Settled.expect _).bind fun _ => .bind (listUntil_settled _ ?_) fun _ => .pure _
  refine (Settled.atKind _).bind fun b => ?_
  cases b with
  | false => exact h
  | true => exact call_settled h

theorem expression_settled (limit n : Nat) : Settled (expression limit n) := by
  induction n with
  | zero => exact chain_settled (operand_settled (.fail _) (.fail _))
  | succ n ih => exact chain_settled (operand_settled (grouped_settled ih) (arrayOf_settled ih))

theorem arrayLiteral_settled (limit n : Nat) : Settled (arrayLiteral limit n) := by
  cases n with
  | zero => exact .fail _
  | succ n => exact arrayOf_settled (expression_settled limit n)

end Production

namespace Level
open Production
variable {l : Level}

/-- The productions of a level are settled. -/
structure IsSettled (l : Level) : Prop where
  expression : Settled l.expression
  array : Settled l.array
  braces : Settled l.braces

theorem terminated_settled {p : Production Tree} (h : Settled p) : Settled (terminated p) :=
  h.bind fun _ => (Settled.skipIf _).bind fun _ => .pure _

theorem parameter?_settled : Settled parameter? := by
  refine Settled.current.bind fun c => ?_
  cases c with
  | none => exact .pure _
  | some t =>
    dsimp only
    split
    · exact .pure _
    · split
      · exact Settled.skip.bind fun _ => (Settled.expect _).bind fun _ => .pure _
      · exact .fail _

theorem parameters_settled : Settled parameters := by
  refine parameter?_settled.bind fun o => ?_
  cases o with
  | none => exact .pure _
  | some first =>
    refine (Settled.many ((Settled.skipIf _).bind fun b => ?_)).bind fun _ => .pure _
    cases b with
    | false => exact .pure _
    | true => exact parameter?_settled

theorem input_settled : Settled input :=
  Settled.skip.bind fun _ => (Settled.expect _).bind fun _ => (Settled.expect _).bind fun _ =>
    (Settled.expect _).bind fun _ => .pure _

/-- A line list takes its first token, whatever it is. -/
theorem lineList_settled : ∃ k, lineList = (skip >>= k) ∧ Settled (k ()) :=
  ⟨_, rfl, Settled.skip.bind fun _ => (Settled.expect _).bind fun _ =>
    (listUntil_settled _ ((Settled.expect _).bind fun _ => .pure _)).bind fun _ => .pure _⟩

section Settled
variable (h : l.IsSettled)
include h

theorem condition_settled : Settled l.condition :=
  (Settled.expect _).bind fun _ => h.expression.bind fun _ => (Settled.expect _).bind fun _ => .pure _

theorem block_settled : Settled l.block := h.braces.bind fun _ => .pure _

theorem guarded_settled (tag : Tag) : Settled (l.guarded tag) :=
  (condition_settled h).bind fun _ => (block_settled h).bind fun _ => .pure _

theorem declaration_settled (word : String) : Settled (l.declaration word) := by
  refine Settled.skip.bind fun _ => (Settled.expect _).bind fun _ =>
    (Settled.accept? _).bind fun o => ?_
  cases o with
  | none => exact .pure _
  | some op => exact h.expression.bind fun _ => .pure _

theorem forLoop_settled : Settled l.forLoop :=
  Settled.skip.bind fun _ => (Settled.expect _).bind fun _ => h.expression.bind fun _ =>
    (Settled.expect _).bind fun _ => h.expression.bind fun _ => (Settled.expect _).bind fun _ =>
    h.expression.bind fun _ => (Settled.expect _).bind fun _ => (block_settled h).bind fun _ => .pure _

theorem print_settled : Settled l.print :=
  Settled.skip.bind fun _ => (condition_settled h).bind fun _ => .pure _

theorem definition_settled : Settled l.definition :=
  Settled.skip.bind fun _ => (Settled.expect _).bind fun _ => (Settled.expect _).bind fun _ =>
    parameters_settled.bind fun _ => (Settled.expect _).bind fun _ =>
    (block_settled h).bind fun _ => .pure _

theorem reply_settled : Settled l.reply :=
  Settled.skip.bind fun _ => h.expression.bind fun _ => .pure _

theorem assigned_settled : Settled l.assigned := by
  refine (Settled.atKind _).bind fun b => ?_
  cases b with
  | false => exact h.expression
  | true => exact h.array

theorem named_settled : ∃ k, l.named = (expect .identifier >>= k) ∧ ∀ x, Settled (k x) := by
  refine ⟨_, rfl, fun x => (Settled.accept? _).bind fun o => ?_⟩
  cases o with
  | none => exact .pure _
  | some op =>
    dsimp only
    split
    · exact (assigned_settled h).bind fun _ => .pure _
    · exact .pure _

/-- Whether `else` belongs to another condition or to the last block is decided by the token behind it,
but `else` itself is taken in both cases. -/
theorem branches_settled {γ : Type} (g : List Tree → Option Tree → γ) : Settled (l.branches g) := by
  intro ts
  -- Only the length of the tokens shrinks from one branch to the next, and what is done with the
  -- branches changes, so the induction is on the length for all `g`.
  induction hlen : ts.length using Nat.strongRecOn generalizing ts g with
  | ind len ih =>
    subst hlen
    by_cases hno : Next (fun t => t.isWord "else" = false) ts
    · refine (Settled.pure (g [] none) ts).congr fun ts' hts => ?_
      exact branches_none g (by rwa [Next, hts])
    · obtain ⟨e, ts, rfl, he⟩ := exists_next_of_not hno
      replace he : e.isWord "else" = true := by simpa using he
      refine .cons ?_
      by_cases hs : Next (fun t => t.isWord "sus" = false) ts
      · have hlast : Settled (l.braces >>= fun list =>
            pure (g [] (some (.node .elseBlock none [list])))) := h.braces.bind fun _ => .pure _
        exact (hlast ts).congr fun ts' hts => branches_else g he (by rwa [Next, hts])
      · obtain ⟨s, rest, rfl, hs⟩ := exists_next_of_not hs
        replace hs : s.isWord "sus" = true := by simpa using hs
        have hguarded := guarded_settled h .elseIfBlock
        have hshort : ∀ {ts b mid}, l.guarded .elseIfBlock ts = .ok (b, mid) →
            mid.length < ts.length + 2 := by
          intro ts b mid hmid
          obtain ⟨w, rfl, -⟩ := (hguarded ts).of_ok hmid
          simp only [List.length_append]
          omega
        refine .cons (.congr ?_ fun ts' _ => branches_elseIf g he hs fun _ _ => hshort)
        exact (hguarded rest).bind fun b mid hmid => ih mid.length (hshort hmid) _ mid rfl

theorem ifChain_settled : Settled l.ifChain :=
  Settled.skip.bind fun _ => (guarded_settled h _).bind fun first =>
    branches_settled h fun further last =>
      Tree.node .ifChain none (first :: further ++ last.toList)

theorem statementOf_settled (o : Opening) : Settled (l.statementOf o) := by
  cases o with
  | declaration word => exact terminated_settled (declaration_settled h word)
  | construct c =>
    cases c with
    | print => exact terminated_settled (print_settled h)
    | input => exact terminated_settled input_settled
    | conditional => exact ifChain_settled h
    | whileLoop => exact Settled.skip.bind fun _ => guarded_settled h _
    | switch => exact Settled.skip.bind fun _ => guarded_settled h _
    | forLoop => exact forLoop_settled h
  | definition => exact definition_settled h
  | reply => exact terminated_settled (reply_settled h)
  | call => exact terminated_settled (call_settled h.expression)
  | lineList =>
    obtain ⟨k, hk, hsettled⟩ := lineList_settled
    rw [statementOf, hk]
    exact terminated_settled (Settled.skip.bind fun _ => hsettled)
  | name =>
    obtain ⟨k, hk, hsettled⟩ := named_settled h
    rw [statementOf, hk]
    exact terminated_settled ((Settled.expect _).bind hsettled)
  | block => exact block_settled h

end Settled

theorem of?_congr {t : Token} (h : ¬ t.isLine) (ts ts' : List Token) :
    Opening.of? (t :: ts) = Opening.of? (t :: ts') := by
  rw [Opening.of?, Opening.of?]
  split
  · rfl
  · rfl
  · rfl
  · rename_i hk
    have hl : t.lexeme ≠ "line" := fun hl => h ⟨hk, hl⟩
    simp [hl]
  · rfl
  · rfl

/-- A statement that begins with the name `line` is told by the next token, but the name is taken
whichever sort it is. -/
theorem statement_settled (h : l.IsSettled) : Settled l.statement
  | [] => by
    refine (Settled.fail (.statement none) []).congr fun ts hts => ?_
    rw [List.head?_eq_none_iff.mp hts]
    rfl
  | t :: ts => by
    by_cases hline : t.isLine
    · obtain ⟨k, hk, hsettled⟩ := lineList_settled
      obtain ⟨k', hk', hsettled'⟩ := named_settled h
      have hnext : Settled (look (fun ts => ts.head?.any (·.operator? = some .assign)) >>= fun b =>
          if b = true then terminated (k ()) else terminated (k' t)) := by
        refine (Settled.look fun ts ts' hts => by rw [hts]).bind fun b => ?_
        cases b with
        | false => exact terminated_settled (hsettled' t)
        | true => exact terminated_settled hsettled
      refine .cons ((hnext ts).congr fun ts' _ => ?_)
      rw [run_look]
      cases hb : ts'.head?.any (·.operator? = some .assign) with
      | false =>
        have ho : Opening.of? (t :: ts') = some .name := by simp [Opening.of?, hline.1, hb]
        rw [statement, run_look, ho]
        simp only [statementOf, hk']
        exact run_bind_congr (run_expect hline.1 ts' k')
      | true =>
        have ho : Opening.of? (t :: ts') = some .lineList := by
          simp [Opening.of?, hline.1, hline.2, hb]
        rw [statement, run_look, ho]
        simp only [statementOf, hk]
        rfl
    · cases ho : Opening.of? (t :: ts) with
      | none =>
        refine (Settled.fail (.statement (some t)) (t :: ts)).congr fun ts' hts => ?_
        obtain ⟨rest, rfl⟩ := List.head?_eq_some_iff.mp hts
        rw [statement, run_look, of?_congr hline rest ts, ho]
        rfl
      | some o =>
        refine (statementOf_settled h o (t :: ts)).congr fun ts' hts => ?_
        obtain ⟨rest, rfl⟩ := List.head?_eq_some_iff.mp hts
        rw [statement, run_look, of?_congr hline rest ts, ho]

end Level

namespace Production
variable {p : Production Tree}

/-- Whether a statement is opened, though not always of which sort, is told by the next token. -/
theorem isSome_of?_congr {ts ts' : List Token} (h : ts'.head? = ts.head?) :
    (Opening.of? ts').isSome = (Opening.of? ts).isSome := by
  cases ts with
  | nil => rw [List.head?_eq_none_iff.mp h]
  | cons t ts =>
    obtain ⟨rest, rfl⟩ := List.head?_eq_some_iff.mp h
    by_cases ht : t.isLine
    · have hsome (ts : List Token) : (Opening.of? (t :: ts)).isSome = true := by
        rw [Opening.of?, ht.1]
        dsimp only
        split <;> rfl
      rw [hsome, hsome]
    · rw [Level.of?_congr ht rest ts]

theorem statement?_settled (h : Settled p) : Settled (statement? p) := by
  refine (Settled.look fun ts ts' hts => isSome_of?_congr hts).bind fun b => ?_
  cases b with
  | false => exact .pure _
  | true => exact h.bind fun _ => .pure _

theorem braced_settled (h : Settled p) : Settled (braced p) :=
  (Settled.expect _).bind fun _ => (Settled.many (statement?_settled h)).bind fun _ =>
    (Settled.expect _).bind fun _ => .pure _

theorem statement_settled (limit n : Nat) : Settled (statement limit n) := by
  induction n with
  | zero =>
    rw [statement_eq]
    exact Level.statement_settled ⟨expression_settled limit 0, arrayLiteral_settled limit 0, .fail _⟩
  | succ n ih =>
    rw [statement_eq]
    exact Level.statement_settled
      ⟨expression_settled limit (n + 1), arrayLiteral_settled limit (n + 1), braced_settled ih⟩

end Production

end SlangScript
