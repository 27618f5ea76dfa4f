import SlangScript.Proofs.SingleError

/-! The productions written out as scripts: what each does with the cursor itself, and where it calls
another. A script leaves it open how the calls end, so that the calls themselves can be spoken of. -/
namespace SlangScript

/-- The productions: those that yield something or nothing, the statements in a row, and a program. -/
inductive Callee : Type → Type 1 where
  | routine {α : Type} (r : Routine α) : Callee (Option α)
  | statements : Callee (List Tree)
  | program : Callee Tree

/-- What a production does without a call. -/
inductive Step : Type → Type where
  | current : Step (Option Token)
  | peekIsAssign (offset : Nat) : Step Bool
  | advance : Step (Option Token)
  | report (message : String) : Step Unit
  | errorCount : Step Nat
  | expectKind (kind : TokenKind) : Step (Option Token)
  | expectWord (word : String) : Step (Option Token)
  | checkWord (word : String) : Step Bool
  | checkKind (kind : TokenKind) : Step Bool
  | currentOperator : Step (Option Operator)
  | skipDelimiter (d : Delimiter) : Step Bool
  | canStartStatement : Step Bool
  | enter : Step Bool
  | leave : Step Unit

/-- Steps and calls, each followed by what is done with its result. -/
inductive Script (α : Type) : Type 1 where
  | pure (a : α)
  | step {β : Type} (s : Step β) (next : β → Script α)
  | call {β : Type} (r : Callee β) (next : β → Script α)

namespace Script

def bind {α β : Type} : Script α → (α → Script β) → Script β
  | pure a, f => f a
  | step s next, f => step s fun b => (next b).bind f
  | call r next, f => call r fun b => (next b).bind f

instance : Monad Script where
  pure := .pure
  bind := bind

instance : MonadLift Step Script := ⟨fun s => step s pure⟩

instance : MonadLift Callee Script := ⟨fun r => call r pure⟩

/-- A call of a production that yields something or nothing. -/
def read {α : Type} (r : Routine α) : Script (Option α) := Callee.routine r

/-- A body that runs one level deeper, if one more level may be opened. -/
def nested {α : Type} (body : Routine α) : Script (Option α) := do
  if ← Step.enter then
    let node ← read body
    Step.leave
    return node
  else return none

/-- Elements with a comma behind each but the last. -/
def commaSeparated (one : Routine Tree) (more : Routine (List Tree)) :
    Script (Option (List Tree)) := do
  let some e ← read one | return none
  if ← Step.skipDelimiter .comma then
    let some es ← read more | return none
    return some (e :: es)
  else return some [e]

def terminated (statement : Option Tree) : Script (Option Tree) := do
  let some s := statement | return none
  let _ ← Step.skipDelimiter .semicolon
  return some s

end Script

open Step hiding expectKind expectWord
open Script (read nested commaSeparated terminated)

namespace Routine

/-- A production step by step. Where no token opens a statement, the exits are the plain ones. -/
def script : {α : Type} → Routine α → Script (Option α)
  | _, expectKind kind => Step.expectKind kind
  | _, expectWord word => Step.expectWord word
  | _, call => do
    let some name ← Step.expectKind .function | return none
    let some _ ← Step.expectKind (.bracket .openParen) | return none
    let some es ← (do if ← checkKind (.bracket .closeParen) then return some [] else read arguments)
      | return none
    let some _ ← Step.expectKind (.bracket .closeParen) | return none
    return some (.node .functionCall (some name.lexeme) es)
  | _, arguments => commaSeparated expression arguments
  | _, array => nested arrayBody
  | _, arrayBody => do
    let some _ ← Step.expectKind (.bracket .openBracket) | return none
    let some es ← (do if ← checkKind (.bracket .closeBracket) then return some [] else read elements)
      | return none
    let some _ ← Step.expectKind (.bracket .closeBracket) | return none
    return some (.node .arrayLiteral none es)
  | _, elements => commaSeparated element elements
  | _, element => do if ← checkKind .function then read call else read expression
  | _, expression => do
    let some first ← read primary | return none
    read (operands first)
  | _, operands left => do
    match (← currentOperator).filter (·.isBinary) with
    | some op =>
      let _ ← advance
      let some right ← read primary | return none
      read (operands (.binary op left right))
    | none => return some left
  | _, primary => do
    let some t ← current | do
      report "Unexpected end of tokens in expression"
      return none
    match t.kind with
    | .bracket .openParen => nested group
    | .bracket .openBracket => read array
    | kind =>
      match Tag.ofOperand? kind with
      | some tag =>
        let _ ← advance
        match (← currentOperator).filter (·.isIncDec) with
        | some op =>
          let _ ← advance
          return some (.node .postfixOp (some op.symbol) [.leaf tag t.lexeme])
        | none => return some (.leaf tag t.lexeme)
      | none =>
        report s!"Invalid expression token: {t.display}"
        return none
  | _, group => do
    let _ ← advance
    let some inner ← read expression | return none
    let some _ ← Step.expectKind (.bracket .closeParen) | return none
    return some inner
  | _, conditionHeader c => do
    let some _ ← Step.expectWord c.keyword | return none
    let some _ ← Step.expectKind (.bracket .openParen) | return none
    let some e ← read expression | return none
    let some _ ← Step.expectKind (.bracket .closeParen) | return none
    return some e
  | _, print => do
    let some e ← read (conditionHeader .print) | return none
    return some (.node .printStmt none [e])
  | _, input => do
    let some _ ← Step.expectWord Construct.input.keyword | return none
    let some _ ← Step.expectKind (.bracket .openParen) | return none
    let some name ← Step.expectKind .identifier | return none
    let some _ ← Step.expectKind (.bracket .closeParen) | return none
    return some (.node .inputStmt none [.leaf .identifier name.lexeme])
  | _, reply => do
    let some _ ← Step.expectWord "reply" | return none
    let some e ← read expression | return none
    return some (.node .returnStmt none [e])
  | _, number => do
    let some n ← Step.expectKind .integer | return none
    return some (.leaf .integer n.lexeme)
  | _, numbers => commaSeparated number numbers
  | _, lineList => do
    let _ ← advance
    let some _ ← Step.expectKind (.operator .assign) | return none
    let some _ ← Step.expectKind (.bracket .openBracket) | return none
    let some es ← (do if ← checkKind (.bracket .closeBracket) then return some [] else read numbers)
      | return none
    let some _ ← Step.expectKind (.bracket .closeBracket) | return none
    return some (.node .lineStmt none es)
  | _, named => do
    let some name ← Step.expectKind .identifier | return none
    let target := Tree.leaf .identifier name.lexeme
    match ← currentOperator with
    | some op =>
      if op.isAssignment then
        let _ ← advance
        let some value ← (do
            if ← checkKind (.bracket .openBracket) then read array else read expression)
          | return none
        return some (.node .exprStmt none [.node .assignmentOp (some op.symbol) [target, value]])
      else if op.isIncDec then
        let _ ← advance
        return some (.node .exprStmt none [.node .incDecOp (some op.symbol) [target]])
      else return some (.node .exprStmt none [.node .expr none [target]])
    | none => return some (.node .exprStmt none [.node .expr none [target]])
  | _, declaration => do
    let some word ← advance | return none
    let some name ← Step.expectKind .identifier | return none
    let target := Tree.leaf .identifier name.lexeme
    match (← currentOperator).filter (·.isAssignment) with
    | some op =>
      let _ ← advance
      let some value ← read expression | return none
      return some (.node .declaration (some word.lexeme)
        [.node .assignOp (some op.symbol) [target, value]])
    | none => return some (.node .declaration (some word.lexeme) [target])
  | _, parameters => do
    let some t ← current | return some []
    if t.isBracket .closeParen then return some []
    else if t.kind.isWord then
      let some type ← advance | return none
      let some name ← Step.expectKind .identifier | return none
      let param := Tree.node .param none [.leaf .type type.lexeme, .leaf .identifier name.lexeme]
      if ← skipDelimiter .comma then
        let some params ← read parameters | return none
        return some (param :: params)
      else return some [param]
    else
      report s!"Parameter type must be a keyword (e.g. num), got {t.display}"
      return none
  | _, statement => do
    let some t ← current | return none
    match t.kind with
    | .keyword | .reservedWord =>
      if isDeclarationWord t.lexeme then
        let s ← read declaration
        terminated s
      else match Construct.ofKeyword? t.lexeme with
        | some construct =>
          match construct with
          | .conditional => read ifChain
          | .forLoop => read forLoop
          | .whileLoop => read (guarded .whileLoop .whileStmt)
          | .switch => read (guarded .switch .switchStmt)
          | .print =>
            let s ← read print
            terminated s
          | .input =>
            let s ← read input
            terminated s
        | none =>
          if t.lexeme = "trend" then read definition
          else if t.lexeme = "reply" then
            let s ← read reply
            terminated s
          else
            report s!"Unrecognized statement start: {t.display}"
            return none
    | .function =>
      let s ← read call
      terminated s
    | .identifier =>
      if t.lexeme = "line" && (← peekIsAssign 1) then
        let s ← read lineList
        terminated s
      else
        let s ← read named
        terminated s
    | .bracket .openBrace => read block
    | _ =>
      report s!"Unrecognized statement start: {t.display}"
      return none
  | _, ifChain => do
    let some first ← read (guarded .conditional .ifBlock) | return none
    let some more ← read branches | return none
    return some (.node .ifChain none (first :: more))
  | _, branches => do
    if ← checkWord "else" then
      let _ ← advance
      if ← checkWord "sus" then
        let some branch ← read (guarded .conditional .elseIfBlock) | return none
        let some more ← read branches | return none
        return some (branch :: more)
      else
        let some last ← read elseBlock | return none
        return some [last]
    else return some []
  | _, elseBlock => do
    let some list ← read bracedList | return none
    return some (.node .elseBlock none [list])
  | _, guarded c tag => do
    let some condition ← read (conditionHeader c) | return none
    let some body ← read block | return none
    return some (.node tag none [condition, body])
  | _, forLoop => do
    let some _ ← Step.expectWord Construct.forLoop.keyword | return none
    let some _ ← Step.expectKind (.bracket .openParen) | return none
    let some start ← read expression | return none
    let some _ ← Step.expectKind (.delimiter .semicolon) | return none
    let some test ← read expression | return none
    let some _ ← Step.expectKind (.delimiter .semicolon) | return none
    let some next ← read expression | return none
    let some _ ← Step.expectKind (.bracket .closeParen) | return none
    let some body ← read block | return none
    return some (.node .forStmt none [start, test, next, body])
  | _, definition => do
    let some _ ← Step.expectWord "trend" | return none
    let some name ← Step.expectKind .function | return none
    let some _ ← Step.expectKind (.bracket .openParen) | return none
    let some params ← read parameters | return none
    let some _ ← Step.expectKind (.bracket .closeParen) | return none
    let some body ← read block | return none
    return some (.node .functionDef (some name.lexeme) [.node .paramList none params, body])
  | _, block => do
    let some list ← read bracedList | return none
    return some (.node .block none [list])
  | _, bracedList => nested bracedBody
  | _, bracedBody => do
    let some _ ← Step.expectKind (.bracket .openBrace) | return none
    let before ← errorCount
    let list ← Callee.statements
    if (← errorCount) ≠ before then return none
    else
      let some _ ← Step.expectKind (.bracket .closeBrace) | return none
      return some (.node .statementList none list)

end Routine

namespace Callee

def script : {α : Type} → Callee α → Script α
  | _, routine r => r.script
  | _, statements => do
    if ← canStartStatement then
      match ← read .statement with
      | some s =>
        let ss ← Callee.statements
        return s :: ss
      | none => return []
    else return []
  | _, program => do
    let before ← errorCount
    let list ← Callee.statements
    if (← errorCount) = before then
      if list.isEmpty then report "Empty program or invalid statements."
      else
        match ← current with
        | some t => report s!"Unexpected token {t.display} after last statement"
        | none => pure ()
    return .program list

end Callee

def Step.walk : {α : Type} → Step α → Walk α
  | _, current => Walk.current
  | _, peekIsAssign offset => Walk.peekIsAssign offset
  | _, advance => Walk.advance
  | _, report message => Walk.report message
  | _, errorCount => Walk.errorCount
  | _, expectKind kind => Walk.expectKind kind
  | _, expectWord word => Walk.expectWord word
  | _, checkWord word => Walk.checkWord word
  | _, checkKind kind => Walk.checkKind kind
  | _, currentOperator => Walk.currentOperator
  | _, skipDelimiter d => Walk.skipDelimiter d
  | _, canStartStatement => Walk.canStartStatement
  | _, enter => Walk.enter
  | _, leave => Walk.leave

def Callee.walk : {α : Type} → Callee α → Nat → Walk α
  | _, routine r => r.walk .plain
  | _, statements => Walk.statements .plain
  | _, program => Walk.program .plain

namespace Script
variable {α β : Type} {n : Nat}

/-- The script with its calls made. -/
def run (n : Nat) : Script α → Walk α
  | pure a => Pure.pure a
  | step s next => s.walk >>= fun b => (next b).run n
  | call r next => r.walk n >>= fun b => (next b).run n

theorem run_bind (s : Script α) (f : α → Script β) :
    (s >>= f).run n = s.run n >>= fun a => (f a).run n := by
  induction s with
  | pure a => rfl
  | step s next ih => exact (bind_congr ih).trans (bind_assoc _ _ _).symm
  | call r next ih => exact (bind_congr ih).trans (bind_assoc _ _ _).symm

theorem run_step (s : Step α) : (liftM s : Script α).run n = s.walk := bind_pure _

theorem run_call (r : Callee α) : (liftM r : Script α).run n = r.walk n := bind_pure _

theorem run_read (r : Routine α) : (read r).run n = r.walk .plain n := run_call _

theorem run_ite {p : Prop} [Decidable p] {s t : Script α} {l m : Walk α} (hs : s.run n = l)
    (ht : t.run n = m) : (if p then s else t).run n = if p then l else m := by
  rw [apply_ite (run n), hs, ht]

theorem run_then {s : Script α} {m : Walk α} {g : α → Script β} {f : α → Walk β} (hs : s.run n = m)
    (h : ∀ a, (g a).run n = f a) : (s >>= g).run n = m >>= f := by
  rw [run_bind, hs]
  exact bind_congr h

/-- Without a result most often nothing is left to do. -/
theorem run_option {s : Script (Option α)} {m : Walk (Option α)} {g : Option α → Script β}
    {f : Option α → Walk β} (hs : s.run n = m) (hsome : ∀ a, (g (some a)).run n = f (some a))
    (hnone : (g none).run n = f none := by rfl) : (s >>= g).run n = m >>= f :=
  run_then hs fun o => match o with
    | none => hnone
    | some a => hsome a

theorem step_then {s : Step α} {g : α → Script β} {f : α → Walk β} (h : ∀ a, (g a).run n = f a) :
    (liftM s >>= g).run n = s.walk >>= f := run_then (run_step s) h

theorem step_option {s : Step (Option α)} {g : Option α → Script β} {f : Option α → Walk β}
    (hsome : ∀ a, (g (some a)).run n = f (some a)) (hnone : (g none).run n = f none := by rfl) :
    (liftM s >>= g).run n = s.walk >>= f := run_option (run_step s) hsome hnone

theorem read_then {r : Routine α} {g : Option α → Script β} {f : Option α → Walk β}
    (h : ∀ a, (g a).run n = f a) : (read r >>= g).run n = r.walk .plain n >>= f :=
  run_then (run_read r) h

theorem read_option {r : Routine α} {g : Option α → Script β} {f : Option α → Walk β}
    (hsome : ∀ a, (g (some a)).run n = f (some a)) (hnone : (g none).run n = f none := by rfl) :
    (read r >>= g).run n = r.walk .plain n >>= f := run_option (run_read r) hsome hnone

theorem run_commaSeparated (one : Routine Tree) (more : Routine (List Tree)) :
    (commaSeparated one more).run n = (do
      let some e ← one.walk .plain n | return none
      if ← Walk.skipDelimiter .comma then
        let some es ← more.walk .plain n | return none
        return some (e :: es)
      else return some [e] : Walk (Option (List Tree))) :=
  read_option fun _ => step_then fun _ => run_ite (read_option fun _ => rfl) rfl

theorem run_nested (body : Routine α) :
    (nested body).run n = (do
      if ← Walk.enter then
        let node ← body.walk .plain n
        Walk.leave
        return node
      else return none : Walk (Option α)) :=
  step_then fun _ => run_ite (read_then fun _ => step_then fun _ => rfl) rfl

theorem run_terminated : ∀ s : Option Tree, (terminated s).run n = Walk.terminated s
  | none => rfl
  | some _ => step_then fun _ => rfl

/-- Where the closing bracket comes next, nothing stands in the brackets. -/
theorem run_unlessAt (kind : TokenKind) (r : Routine (List α)) :
    (do if ← Step.checkKind kind then return some [] else read r : Script _).run n =
      (do if ← Walk.checkKind kind then return some [] else r.walk .plain n) :=
  step_then fun _ => run_ite rfl (run_read _)

end Script

open Script

theorem Routine.run_primary (n : Nat) : primary.script.run n = primary.walk .plain (n + 1) := by
  refine step_option (fun t => ?_) (step_then fun _ => rfl)
  dsimp only
  -- Script and production tell the kinds apart each on its own, so that they agree kind by kind.
  generalize t.kind = kind
  cases kind with
  | bracket b =>
    cases b with
    | openParen => exact run_nested _
    | openBracket => exact run_read _
    | _ => exact step_then fun _ => rfl
  | integer | floatNumber | string | identifier =>
    refine step_then fun _ => step_then fun op => ?_
    cases op.filter (·.isIncDec) with
    | none => rfl
    | some op => exact step_then fun _ => rfl
  | _ => exact step_then fun _ => rfl

theorem Routine.run_statement (n : Nat) :
    statement.script.run n = statement.walk .plain (n + 1) := by
  refine step_option fun t => ?_
  dsimp only
  generalize t.kind = kind
  cases kind with
  | keyword | reservedWord =>
    refine run_ite (read_then run_terminated) ?_
    cases Construct.ofKeyword? t.lexeme with
    | some construct =>
      cases construct with
      | print | input => exact read_then run_terminated
      | _ => exact run_read _
    | none =>
      refine run_ite (run_read _) (run_ite (read_then run_terminated) ?_)
      exact step_then fun _ => rfl
  | function => exact read_then run_terminated
  | identifier =>
    exact step_then fun _ => run_ite (read_then run_terminated) (read_then run_terminated)
  | bracket b =>
    cases b with
    | openBrace => exact run_read _
    | _ => exact step_then fun _ => rfl
  | _ => exact step_then fun _ => rfl

/-- With its calls made the script of a production is the production, with the same number or with the
next one. -/
theorem Routine.run_script {α : Type} (r : Routine α) :
    (∀ n, r.script.run n = r.walk .plain n) ∨ ∀ n, r.script.run n = r.walk .plain (n + 1) := by
  cases r with
  | expectKind kind => exact .inl fun _ => run_step _
  | expectWord word => exact .inl fun _ => run_step _
  | call =>
    exact .inr fun _ => step_option fun _ => step_option fun _ =>
      run_option (run_unlessAt _ _) fun _ => step_option fun _ => rfl
  | arguments => exact .inr fun _ => run_commaSeparated _ _
  | array => exact .inr fun _ => run_nested _
  | arrayBody =>
    exact .inr fun _ => step_option fun _ => run_option (run_unlessAt _ _) fun _ =>
      step_option fun _ => rfl
  | elements => exact .inr fun _ => run_commaSeparated _ _
  | element => exact .inr fun _ => step_then fun _ => run_ite (run_read _) (run_read _)
  | expression => exact .inr fun _ => read_option fun _ => run_read _
  | operands left =>
    refine .inr fun _ => step_then fun op => ?_
    cases op.filter (·.isBinary) with
    | none => rfl
    | some op => exact step_then fun _ => read_option fun _ => run_read _
  | primary => exact .inr run_primary
  | group => exact .inr fun _ => step_then fun _ => read_option fun _ => step_option fun _ => rfl
  | conditionHeader c =>
    exact .inl fun _ => step_option fun _ => step_option fun _ => read_option fun _ =>
      step_option fun _ => rfl
  | print => exact .inl fun _ => read_option fun _ => rfl
  | input =>
    exact .inl fun _ => step_option fun _ => step_option fun _ => step_option fun _ =>
      step_option fun _ => rfl
  | reply => exact .inl fun _ => step_option fun _ => read_option fun _ => rfl
  | number => exact .inl fun _ => step_option fun _ => rfl
  | numbers => exact .inr fun _ => run_commaSeparated _ _
  | lineList =>
    exact .inl fun _ => step_then fun _ => step_option fun _ => step_option fun _ =>
      run_option (run_unlessAt _ _) fun _ => step_option fun _ => rfl
  | named =>
    refine .inl fun _ => step_option fun _ => step_option fun _ => ?_
    refine run_ite (step_then fun _ => ?_) (run_ite (step_then fun _ => rfl) rfl)
    exact run_option (step_then fun _ => run_ite (run_read _) (run_read _)) fun _ => rfl
  | declaration =>
    refine .inl fun _ => step_option fun _ => step_option fun _ => step_then fun op => ?_
    cases op.filter (·.isAssignment) with
    | none => rfl
    | some op => exact step_then fun _ => read_option fun _ => rfl
  | parameters =>
    refine .inr fun _ => step_option fun _ => run_ite rfl (run_ite ?_ ?_)
    · exact step_option fun _ => step_option fun _ => step_then fun _ =>
        run_ite (read_option fun _ => rfl) rfl
    · exact step_then fun _ => rfl
  | statement => exact .inr run_statement
  | ifChain => exact .inr fun _ => read_option fun _ => read_option fun _ => rfl
  | branches =>
    refine .inr fun _ => step_then fun _ => run_ite (step_then fun _ => step_then fun _ =>
      run_ite ?_ ?_) rfl
    · exact read_option fun _ => read_option fun _ => rfl
    · exact read_option fun _ => rfl
  | elseBlock => exact .inr fun _ => read_option fun _ => rfl
  | guarded c tag => exact .inr fun _ => read_option fun _ => read_option fun _ => rfl
  | forLoop =>
    exact .inr fun _ => step_option fun _ => step_option fun _ =>
      read_option fun _ => step_option fun _ => read_option fun _ => step_option fun _ =>
      read_option fun _ => step_option fun _ => read_option fun _ => rfl
  | definition =>
    exact .inr fun _ => step_option fun _ => step_option fun _ => step_option fun _ =>
      read_option fun _ => step_option fun _ => read_option fun _ => rfl
  | block => exact .inr fun _ => read_option fun _ => rfl
  | bracedList => exact .inr fun _ => run_nested _
  | bracedBody =>
    exact .inr fun _ => step_option fun _ => step_then fun _ =>
      run_then (run_call _) fun _ => step_then fun _ => run_ite rfl (step_option fun _ => rfl)

theorem Callee.run_program (n : Nat) : program.script.run n = program.walk n := by
  refine step_then fun before => run_then (run_call _) fun list =>
    step_then fun after => run_ite (run_ite ?_ ?_) rfl
  · exact step_then fun _ => rfl
  · exact step_option fun t => step_then fun _ => rfl

theorem Callee.run_script {α : Type} (r : Callee α) :
    (∀ n, r.script.run n = r.walk n) ∨ ∀ n, r.script.run n = r.walk (n + 1) := by
  cases r with
  | routine r => exact r.run_script
  | statements =>
    exact .inr fun _ => step_then fun _ => run_ite (read_option fun _ =>
      run_then (run_call _) fun _ => rfl) rfl
  | program => exact .inl run_program

theorem Callee.yields_of_script {α : Type} (r : Callee α) {c d : Cursor} {a : α}
    (h : Yields (fun n => r.script.run n) c a d) : Yields r.walk c a d := by
  obtain hsame | hdeeper := r.run_script
  · exact h.congr fun n => congrFun (hsame n).symm c
  · exact h.unfold fun n => (hdeeper n).symm

end SlangScript
