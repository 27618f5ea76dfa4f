import SlangScript.Production.Basic

/-! Repetition. A round is a production that yields `none` when there is nothing more to read, and that
takes at least one token whenever it yields something. -/
namespace SlangScript.Production

variable {α : Type}

/-- Everything that the rounds yield, and where they end: at the tokens that are left, or at the
failure of a round. A round that takes no token is the last one. -/
def gather (round : Production (Option α)) (ts : List Token) :
    List α × Except Failure (List Token) :=
  match round ts with
  | .error e => ([], .error e)
  | .ok (none, rest) => ([], .ok rest)
  | .ok (some a, rest) =>
    if rest.length < ts.length then
      let (more, stop) := gather round rest
      (a :: more, stop)
    else ([a], .ok rest)
termination_by ts.length

/-- Everything that the rounds yield, when none of them fails. -/
def many (round : Production (Option α)) : Production (List α) := fun ts =>
  match gather round ts with
  | (items, .ok rest) => .ok (items, rest)
  | (_, .error e) => .error e

/-- One item or more, with commas between them. -/
def commaSeparated (item : Production α) : Production (List α) := do
  let first ← item
  let more ← many do
    if ← skipIf (.delimiter .comma) then
      let next ← item
      pure (some next)
    else pure none
  pure (first :: more)

/-- Items with commas between them, if there are any, up to a closing bracket. -/
def listUntil (close : Bracket) (item : Production α) : Production (List α) := do
  let items ← if ← atKind (.bracket close) then pure [] else commaSeparated item
  let _ ← expect (.bracket close)
  pure items

end SlangScript.Production
