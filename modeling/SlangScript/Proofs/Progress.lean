import SlangScript.Proofs.Scripts

/-! What is known on the way through a production, read off its script: whether a token has been taken, and
how many levels are open. Before a production has taken a token it only calls productions of lower rank, and
it leaves every level that it has entered. -/
namespace SlangScript

/-- What is known on the way through a production: whether a token has been taken since it was called,
whether one is left, and how many levels it has opened. -/
structure Progress where
  taken : Bool
  left : Bool
  opened : Nat

/-- What is known behind a step with this result. -/
@[simp] def Step.after : {α : Type} → Step α → α → Progress → Progress
  | _, current, t, p => { p with left := t.isSome }
  | _, currentOperator, op, p => { p with left := op.isSome }
  | _, checkWord _, found, p => { p with left := found }
  | _, checkKind _, found, p => { p with left := found }
  | _, canStartStatement, found, p => { p with left := found }
  | _, advance, t, p => ⟨p.taken || p.left || t.isSome, false, p.opened⟩
  | _, expectKind _, t, p => ⟨p.taken || t.isSome, false, p.opened⟩
  | _, expectWord _, t, p => ⟨p.taken || t.isSome, false, p.opened⟩
  | _, skipDelimiter _, found, p => ⟨p.taken || found, false, p.opened⟩
  | _, enter, deeper, p => { p with opened := p.opened + deeper.toNat }
  | _, leave, _, p => { p with opened := p.opened - 1 }
  | _, peekIsAssign _, _, p => p
  | _, report _, _, p => p
  | _, errorCount, _, p => p

/-- Only a level that has been opened is left. -/
@[simp] def Step.Allowed : {α : Type} → Step α → Progress → Prop
  | _, leave, p => 0 < p.opened
  | _, _, _ => True

namespace Routine

/-- Whether a token has been taken where something is yielded. There may be no parameters, and no more
operands and branches. -/
@[simp] def advances : {α : Type} → Routine α → Bool
  | _, operands _ => false
  | _, parameters => false
  | _, branches => false
  | _, _ => true

/-- The calls that a production begins with, before it has taken a token, are of lower rank. -/
@[simp] def rank : {α : Type} → Routine α → Nat
  | _, array | _, print | _, numbers | _, guarded _ _ | _, bracedList => 1
  | _, primary | _, ifChain | _, elseBlock | _, block => 2
  | _, expression | _, statement => 3
  | _, arguments | _, element => 4
  | _, elements => 5
  | _, _ => 0

end Routine

namespace Callee

/-- Whether a token has been taken where this is the result. -/
@[simp] def advances : {α : Type} → Callee α → α → Bool
  | _, routine r, a => a.isSome && r.advances
  | _, _, _ => false

@[simp] def rank : {α : Type} → Callee α → Nat
  | _, routine r => r.rank
  | _, statements => 4
  | _, program => 5

/-- Whether the production is called only where a token is left. What stands in parentheses is read from its
parenthesis on. -/
@[simp] def atToken : {α : Type} → Callee α → Bool
  | _, routine .group => true
  | _, _ => false

/-- The same production, whatever it has been given. -/
inductive Same : {α β : Type} → Callee α → Callee β → Prop where
  | refl {α : Type} (r : Callee α) : Same r r
  | expectKind (k k' : TokenKind) : Same (routine (.expectKind k)) (routine (.expectKind k'))
  | expectWord (w w' : String) : Same (routine (.expectWord w)) (routine (.expectWord w'))
  | operands (left left' : Tree) : Same (routine (.operands left)) (routine (.operands left'))
  | conditionHeader (c c' : Construct) :
    Same (routine (.conditionHeader c)) (routine (.conditionHeader c'))
  | guarded (c c' : Construct) (tag tag' : Tag) :
    Same (routine (.guarded c tag)) (routine (.guarded c' tag'))

theorem Same.rank_eq {α β : Type} {q : Callee α} {r : Callee β} (h : q.Same r) : q.rank = r.rank := by
  cases h <;> rfl

end Callee

/-- Before the production calls another one it has taken a token, or the other is of lower rank. At its end
it has left all levels that it has entered, and has taken a token where it has to. -/
def Script.Orderly {α : Type} (r : Callee α) : Progress → Script α → Prop
  | p, .pure a => (r.advances a = true → p.taken = true) ∧ p.opened = 0
  | p, .step s next => s.Allowed p ∧ ∀ b, Orderly r (s.after b p) (next b)
  | p, .call q next => (p.taken = true ∨ q.rank < r.rank) ∧ (q.atToken = true → p.left = true) ∧
      ∀ b, Orderly r ⟨p.taken || q.advances b, false, p.opened⟩ (next b)

namespace Script
variable {α β γ : Type} {r : Callee α} {p : Progress}

@[simp] theorem pure_bind (a : α) (f : α → Script β) : (Pure.pure a : Script α) >>= f = f a := rfl

@[simp] theorem step_bind_bind (s : Step α) (f : α → Script β) (g : β → Script γ) :
    liftM s >>= f >>= g = liftM s >>= fun a => f a >>= g := rfl

@[simp] theorem orderly_pure (a : α) : Orderly r p (Pure.pure a) ↔
    (r.advances a = true → p.taken = true) ∧ p.opened = 0 := Iff.rfl

@[simp] theorem orderly_step (s : Step β) (f : β → Script α) : Orderly r p (liftM s >>= f) ↔
    s.Allowed p ∧ ∀ b, Orderly r (s.after b p) (f b) := Iff.rfl

@[simp] theorem orderly_stepOnly (s : Step α) : Orderly r p (liftM s) ↔
    s.Allowed p ∧ ∀ a, Orderly r (s.after a p) (Pure.pure a) := Iff.rfl

@[simp] theorem orderly_call (q : Callee β) (f : β → Script α) : Orderly r p (liftM q >>= f) ↔
    (p.taken = true ∨ q.rank < r.rank) ∧ (q.atToken = true → p.left = true) ∧
      ∀ b, Orderly r ⟨p.taken || q.advances b, false, p.opened⟩ (f b) := Iff.rfl

@[simp] theorem orderly_read (q : Routine β) (f : Option β → Script α) : Orderly r p (read q >>= f) ↔
    (p.taken = true ∨ q.rank < r.rank) ∧ ((Callee.routine q).atToken = true → p.left = true) ∧
      ∀ b, Orderly r ⟨p.taken || (b.isSome && q.advances), false, p.opened⟩ (f b) := Iff.rfl

@[simp] theorem orderly_readOnly {r : Callee (Option α)} (q : Routine α) : Orderly r p (read q) ↔
    (p.taken = true ∨ q.rank < r.rank) ∧ ((Callee.routine q).atToken = true → p.left = true) ∧
      ∀ b, Orderly r ⟨p.taken || (b.isSome && q.advances), false, p.opened⟩ (Pure.pure b) := Iff.rfl

@[simp] theorem orderly_ite {c : Prop} [Decidable c] {s t : Script α} :
    Orderly r p (if c then s else t) ↔ (c → Orderly r p s) ∧ (¬ c → Orderly r p t) := by
  split <;> simp [*]

theorem orderly_option {s : Step (Option β)} {f : Option β → Script α} (hs : s.Allowed p)
    (hnone : Orderly r (s.after none p) (f none))
    (hsome : ∀ b, Orderly r (s.after (some b) p) (f (some b))) : Orderly r p (liftM s >>= f) :=
  ⟨hs, Option.forall.mpr ⟨hnone, hsome⟩⟩

end Script

open Script

theorem Routine.orderly {α : Type} (r : Routine α) :
    Orderly (.routine r) ⟨false, (Callee.routine r).atToken, 0⟩ r.script := by
  -- What is known is carried along the script. Only where the kind of a token or of an operator tells how
  -- it goes on are the cases split by hand.
  cases r with
  | operands left =>
    rw [Routine.script]
    refine orderly_option trivial (by simp) fun op => ?_
    split <;> simp [Option.forall]
  | primary =>
    rw [Routine.script]
    refine orderly_option trivial (by simp) fun t => ?_
    dsimp only
    split
    · simp [nested]
    · simp
    · split
      · rw [orderly_step]
        refine ⟨trivial, fun _ => orderly_option trivial (by simp) fun op => ?_⟩
        split <;> simp
      · simp
  | declaration =>
    rw [Routine.script]
    refine orderly_option trivial (by simp) fun word => ?_
    refine orderly_option trivial (by simp) fun name => ?_
    refine orderly_option trivial (by simp) fun op => ?_
    split <;> simp [Option.forall]
  | statement =>
    rw [Routine.script]
    refine orderly_option trivial (by simp) fun t => ?_
    dsimp only
    split
    case h_1 | h_2 =>
      rw [orderly_ite]
      refine ⟨fun _ => by simp [terminated, Option.forall], fun _ => ?_⟩
      split
      · split <;> simp [terminated, Option.forall]
      · simp [terminated, Option.forall]
    all_goals simp [terminated, Option.forall]
  | _ => simp [Routine.script, commaSeparated, nested, Option.forall]

theorem Callee.orderly {α : Type} (r : Callee α) : Orderly r ⟨false, r.atToken, 0⟩ r.script := by
  cases r with
  | routine r => exact r.orderly
  | statements => simp [Callee.script, Option.forall]
  | program => simp [Callee.script, Option.forall]

end SlangScript
