import SlangScript.SyntaxError

/-! Productions: readers of a token sequence. A production takes what it needs from the front of the
tokens that are left and hands on the others, or fails at the tokens that do not fit. -/
namespace SlangScript

/-- Why reading stopped, and the tokens that were left then. -/
structure Failure where
  mismatch : Mismatch
  rest : List Token
  deriving DecidableEq, Repr

/-- The error for a failure in a sequence of `total` tokens. -/
def Failure.toError (f : Failure) (total : Nat) : SyntaxError :=
  ⟨total - f.rest.length, f.mismatch⟩

def Production (α : Type) : Type := List Token → Except Failure (α × List Token)

namespace Production

variable {α β : Type}

/-- Reads nothing. -/
protected def pure (a : α) : Production α := fun ts => .ok (a, ts)

/-- Reads with `p`, then with the production that its result selects. -/
protected def bind (p : Production α) (f : α → Production β) : Production β := fun ts =>
  match p ts with
  | .ok (a, rest) => f a rest
  | .error e => .error e

instance : Monad Production where
  pure := Production.pure
  bind := Production.bind

def fail (m : Mismatch) : Production α := fun ts => .error ⟨m, ts⟩

/-- What the tokens ahead tell. None of them is taken. -/
def look (f : List Token → α) : Production α := fun ts => .ok (f ts, ts)

/-- The next token, if there is one. -/
def current : Production (Option Token) := look List.head?

/-- Whether the next token is of this kind. -/
def atKind (kind : TokenKind) : Production Bool := look fun ts => ts.head?.any (·.kind = kind)

/-- Takes the next token, whatever it is. -/
def skip : Production Unit := fun ts => .ok ((), ts.tail)

/-- Takes the next token, which must be of this kind. -/
def expect (kind : TokenKind) : Production Token
  | [] => .error ⟨.expected kind none, []⟩
  | t :: ts => if t.kind = kind then .ok (t, ts) else .error ⟨.expected kind (some t), t :: ts⟩

/-- Takes the next token if it is recognised. -/
def accept? (recognise : Token → Option β) : Production (Option β)
  | [] => .ok (none, [])
  | t :: ts =>
    match recognise t with
    | some b => .ok (some b, ts)
    | none => .ok (none, t :: ts)

/-- Takes the next token if it is of this kind, and tells whether it did. -/
def skipIf (kind : TokenKind) : Production Bool := fun ts =>
  if ts.head?.any (·.kind = kind) then .ok (true, ts.tail) else .ok (false, ts)

end Production

end SlangScript
