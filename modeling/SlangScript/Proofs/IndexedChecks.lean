import SlangScript.Proofs.BraceCount
import SlangScript.Proofs.Checked

/-! The checks of a program with its tokens asked for by index, one after the other and from an index on,
and with the open braces counted. Nothing in the shape of these checks says that a token which is asked for
is there: some rely on what another one has looked at before. -/
namespace SlangScript

/-- Why checking ends early. -/
inductive Halt where
  | rejected (error : LexError)
  /-- No token has this index, or the tokens end before it. -/
  | outOfBounds (index : Nat)
  /-- A number falls below zero. -/
  | underflow
  deriving DecidableEq, Repr

namespace Indexed

section Checks
variable (tokens : List Token)

/-- The token with an index, which has to be there. -/
def token (index : Nat) : Except Halt Token :=
  match tokens[index]? with
  | some t => .ok t
  | none => .error (.outOfBounds index)

/-- The tokens from an index on, which may be that of their end. -/
def tokensFrom (index : Nat) : Except Halt (List Token) :=
  if index ≤ tokens.length then .ok (tokens.drop index) else .error (.outOfBounds index)

/-- The token in front of an index. -/
def tokenBefore : Nat → Except Halt Token
  | 0 => .error .underflow
  | index + 1 => token tokens index

/-- Rejects the program at the token with an index. -/
def reject {α : Type} (index : Nat) (kind : LexErrorKind) : Except Halt α := do
  let t ← token tokens index
  .error (.rejected ⟨kind, t.span⟩)

/-- The index of the brace that closes the block opened at `start`, and whether anything but a brace
stands in between. -/
def matchingBrace (start : Nat) : Except Halt (Nat × Bool) := do
  let opening ← token tokens start
  match searchBrace start 0 false (tokens.drop start) with
  | .found index nonEmpty => .ok (index, nonEmpty)
  | .exhausted => .error (.rejected ⟨.missingCloseBrace, opening.span⟩)
  | .underflow => .error .underflow

/-- A block that holds more than braces must follow the token with this index. -/
def checkBlock (index : Nat) (after : String) : Except Halt Unit :=
  if tokens[index + 1]?.any (·.isBracket .openBrace) then do
    let (_, nonEmpty) ← matchingBrace tokens (index + 1)
    if nonEmpty then .ok () else reject tokens (index + 1) (.emptyBlock after)
  else reject tokens index (.expectedBlock after)

/-- The parameters up to the first closing parenthesis on the line, and its index. The first of the tokens
has the index given. -/
def parameters? (index line : Nat) : List Token → Option (List Token × Nat)
  | [] => none
  | t :: rest =>
    if t.span.line ≠ line then none
    else if t.isBracket .closeParen then some ([], index)
    else (parameters? (index + 1) line rest).map fun found => (t :: found.1, found.2)

/-- The parameters of the token with an index, and the index of the parenthesis that closes them. -/
def header (index : Nat) : Except Halt (List Token × Nat) := do
  let head ← token tokens index
  if tokens[index + 1]?.any (·.isBracket .openParen) then
    let inside ← tokensFrom tokens (index + 2)
    match parameters? (index + 2) head.span.line inside with
    | some found => .ok found
    | none => reject tokens index (.missingCloseParen head.lexeme)
  else reject tokens index (.expectedOpenParen head.lexeme)

def checkShape (index : Nat) (keyword : String) (shape : List HeaderSlot) (parameters : List Token) :
    Except Halt Unit :=
  if parameters.isEmpty then reject tokens index (.missingParameters keyword)
  else if parameters.length ≠ shape.length then
    reject tokens index (.invalidParameterCount keyword shape.length parameters.length)
  else
    match (parameters.zip shape).find? fun p => !p.2.accepts p.1.kind with
    | some (parameter, slot) => .error (.rejected (slot.refusal keyword parameter))
    | none => .ok ()

def checkConstruct (index : Nat) (c : Construct) : Except Halt Unit := do
  let (parameters, close) ← header tokens index
  match c.shape with
  | some shape => checkShape tokens index c.keyword shape parameters
  | none => .ok ()
  if c.requiresBlock then checkBlock tokens close c.keyword

def checkElse (index : Nat) : Except Halt Unit :=
  match tokens[index + 1]? with
  | some next => if next.isWord "sus" then .ok () else checkBlock tokens index "else"
  | none => reject tokens index (.expectedBlock "else")

def checkDefinition (index : Nat) : Except Halt Unit :=
  if tokens[index + 1]?.any (·.kind = .function) then .ok ()
  else reject tokens index .expectedFunctionName

/-- Whether the function with this index is defined there. -/
def isDefined (index : Nat) : Except Halt Bool :=
  if 0 < index then do
    let before ← tokenBefore tokens index
    .ok (before.isWord "trend")
  else .ok false

def checkFunction (index : Nat) : Except Halt Unit := do
  let name ← token tokens index
  let (parameters, close) ← header tokens index
  match parameters.find? fun p => !p.kind.isArgument with
  | some p => .error (.rejected ⟨.invalidFunctionParameter name.lexeme p.lexeme, p.span⟩)
  | none => if ← isDefined tokens index then checkBlock tokens close name.lexeme

/-- What the entries of a line list come to, unless they end too early. -/
def checkEntries? (lineCount : Nat) : List Token → Option (Except Halt Unit)
  | [] => none
  | t :: rest =>
    match t.kind with
    | .bracket .closeBracket => some (.ok ())
    | .delimiter .comma => checkEntries? lineCount rest
    | .integer =>
      if namesLine lineCount t.lexeme then checkEntries? lineCount rest
      else some (.error (.rejected ⟨.lineOutOfRange t.lexeme lineCount, t.span⟩))
    | _ => some (.error (.rejected ⟨.invalidLineEntry t.lexeme, t.span⟩))

/-- The identifier `line` with this index, which `=` follows, must be given a list of line numbers. -/
def checkLineList (lineCount index : Nat) : Except Halt Unit := do
  let head ← token tokens index
  if tokens[index + 2]?.any (·.isBracket .openBracket) then
    let entries ← tokensFrom tokens (index + 3)
    match checkEntries? lineCount (entries.takeWhile (·.span.line = head.span.line)) with
    | some verdict => verdict
    | none => reject tokens (index + 2) .missingCloseBracket
  else reject tokens (index + 1) .expectedOpenBracket

def checkToken (lineCount index : Nat) (t : Token) : Except Halt Unit :=
  match t.kind with
  | .keyword =>
    match Construct.ofKeyword? t.lexeme with
    | some c => checkConstruct tokens index c
    | none => if t.lexeme = "else" then checkElse tokens index else .ok ()
  | .reservedWord => if t.lexeme = "trend" then checkDefinition tokens index else .ok ()
  | .function => checkFunction tokens index
  | .identifier =>
    if t.lexeme = "line" ∧ tokens[index + 1]?.any (·.operator? = some .assign) then
      checkLineList tokens lineCount index
    else .ok ()
  | _ => .ok ()

/-- Checks the last tokens in order. The first of them has the index given. -/
def checkTokens (lineCount index : Nat) : List Token → Except Halt Unit
  | [] => .ok ()
  | t :: rest => do
    checkToken tokens lineCount index t
    checkTokens lineCount (index + 1) rest

end Checks

/-- Accepts a program, unchanged, or halts. -/
def validate (lines : List TokenLine) : Except Halt (List TokenLine) := do
  checkTokens (TokenLine.flatten lines) lines.length 0 (TokenLine.flatten lines)
  .ok lines

section Access
variable {α : Type} {tokens rest : List Token} {index : Nat} {t : Token}

theorem drop_succ (h : tokens.drop index = t :: rest) : tokens.drop (index + 1) = rest := by
  rw [← List.tail_drop, h, List.tail_cons]

theorem next_eq (h : tokens.drop index = t :: rest) : tokens[index + 1]? = rest.head? := by
  rw [← List.head?_drop, drop_succ h]

theorem run_token (h : tokens.drop index = t :: rest) (k : Token → Except Halt α) :
    (token tokens index >>= k) = k t := by
  rw [token, ← List.head?_drop, h, List.head?_cons]
  rfl

theorem run_tokensFrom (h : tokens.drop index = t :: rest) (k : List Token → Except Halt α) :
    (tokensFrom tokens (index + 1) >>= k) = k rest := by
  have hlength := congrArg List.length h
  rw [List.length_drop, List.length_cons] at hlength
  rw [tokensFrom, if_pos (by omega), drop_succ h]
  rfl

theorem reject_eq {kind : LexErrorKind} (h : tokens.drop index = t :: rest) :
    (reject tokens index kind : Except Halt α) = .error (.rejected ⟨kind, t.span⟩) := run_token h _

end Access

end Indexed

/-- Whether a block is empty does not depend on how its tokens are numbered. -/
theorem blockEnd?_renumber (i j inner : Nat) (nonEmpty : Bool) (ts : List Token) :
    (blockEnd? i inner nonEmpty ts).map (·.2) = (blockEnd? j inner nonEmpty ts).map (·.2) := by
  induction ts generalizing i j inner nonEmpty with
  | nil => rfl
  | cons t ts ih =>
    rcases t.brace_cases with h | h | h
    · rw [blockEnd?_open h, blockEnd?_open h, ih]
    · cases inner with
      | zero => rw [blockEnd?_found h, blockEnd?_found h, Option.map_some, Option.map_some]
      | succ inner => rw [blockEnd?_close h, blockEnd?_close h, ih]
    · rw [blockEnd?_other h, blockEnd?_other h, ih]

namespace Indexed
variable {tokens rest inside : List Token} {index lineCount : Nat} {t o head : Token}
  {found : HeaderTokens}

/-- From a brace that opens, the count of open braces does not fall below zero. -/
theorem matchingBrace_eq (h : tokens.drop index = o :: inside) (ho : o.kind = .bracket .openBrace) :
    matchingBrace tokens index =
      match blockEnd? (index + 1) 0 false inside with
      | some found => .ok found
      | none => .error (.rejected ⟨.missingCloseBrace, o.span⟩) := by
  rw [matchingBrace, run_token h, h, searchBrace_open ho, searchBrace_inside]
  cases blockEnd? (index + 1) 0 false inside <;> rfl

theorem checkBlock_eq {after : String} (h : tokens.drop index = t :: rest) :
    checkBlock tokens index after = (SlangScript.checkBlock t after rest).mapError .rejected := by
  rw [checkBlock, next_eq h]
  cases rest with
  | nil => exact reject_eq h
  | cons o inside =>
    rw [List.head?_cons, Option.any_some, SlangScript.checkBlock]
    by_cases ho : o.isBracket .openBrace = true
    · have hnext := drop_succ h
      have hblock := blockEnd?_renumber (index + 1 + 1) 1 0 false inside
      rw [if_pos ho, if_pos ho, matchingBrace_eq hnext (Token.isBracket_iff.mp ho)]
      cases hend : blockEnd? (index + 1 + 1) 0 false inside with
      | none =>
        rw [hend, Option.map_none, eq_comm, Option.map_eq_none_iff] at hblock
        rw [hblock]
        rfl
      | some found =>
        rw [hend, Option.map_some, eq_comm, Option.map_eq_some_iff] at hblock
        obtain ⟨⟨e, nonEmpty⟩, hsome, rfl⟩ := hblock
        rw [hsome]
        cases hempty : found.2 with
        | false => exact (if_neg (by simp [hempty])).trans (reject_eq hnext)
        | true => exact if_pos hempty
    · rw [if_neg ho, if_neg ho]
      exact reject_eq h

theorem parameters?_eq (index line : Nat) (ts : List Token) : parameters? index line ts =
    (HeaderTokens.collect? line ts).map fun h => (h.parameters, index + h.parameters.length) := by
  induction ts generalizing index with
  | nil => rfl
  | cons t ts ih =>
    rw [parameters?, HeaderTokens.collect?]
    split
    · rfl
    · split
      · rfl
      · rw [ih, Option.map_map, Option.map_map]
        congr 1
        funext h
        simp [Nat.add_assoc, Nat.add_comm 1]

theorem header_ok (h : tokens.drop index = head :: rest) (ha : HeaderTokens.after head rest = .ok found) :
    header tokens index = .ok (found.parameters, index + 2 + found.parameters.length) ∧
      tokens.drop (index + 2 + found.parameters.length) = found.close :: found.rest := by
  obtain ⟨o, ho, rfl, -⟩ := HeaderTokens.after_eq_ok_iff.mp ha
  have hcollect := (HeaderTokens.after_cons_eq_ok_iff.mp ha).2
  have hnext := drop_succ h
  constructor
  · rw [header, run_token h, next_eq h, List.head?_cons, Option.any_some,
      if_pos (Token.isBracket_iff.mpr ho), run_tokensFrom hnext, parameters?_eq, hcollect]
    rfl
  · rw [← List.drop_drop, drop_succ hnext, List.drop_left]

theorem header_error {e : LexError} (h : tokens.drop index = head :: rest)
    (ha : HeaderTokens.after head rest = .error e) : header tokens index = .error (.rejected e) := by
  rw [header, run_token h, next_eq h]
  cases rest with
  | nil =>
    cases ha
    exact reject_eq h
  | cons o inside =>
    rw [List.head?_cons, Option.any_some]
    rw [HeaderTokens.after] at ha
    split at ha
    · rename_i ho
      rw [if_pos ho, run_tokensFrom (drop_succ h), parameters?_eq]
      cases hcollect : HeaderTokens.collect? head.span.line inside with
      | some found =>
        rw [hcollect] at ha
        cases ha
      | none =>
        rw [hcollect] at ha
        cases ha
        exact reject_eq h
    · rename_i ho
      cases ha
      rw [if_neg ho]
      exact reject_eq h

theorem mapError_bind {α β : Type} (x : Except LexError α) (f : α → Except LexError β) :
    (x >>= f).mapError Halt.rejected =
      x.mapError Halt.rejected >>= fun a => (f a).mapError Halt.rejected := by
  cases x <;> rfl

theorem checkShape_eq {keyword : String} {shape : List HeaderSlot} {parameters : List Token}
    (h : tokens.drop index = head :: rest) : checkShape tokens index keyword shape parameters =
      (SlangScript.checkShape head keyword shape parameters).mapError .rejected := by
  rw [checkShape, SlangScript.checkShape, reject_eq h, reject_eq h]
  split
  · rfl
  · split
    · rfl
    · cases (parameters.zip shape).find? fun p => !p.2.accepts p.1.kind <;> rfl

theorem checkConstruct_eq (c : Construct) (h : tokens.drop index = head :: rest) :
    checkConstruct tokens index c = (SlangScript.checkConstruct head c rest).mapError .rejected := by
  rw [checkConstruct, SlangScript.checkConstruct, Construct.requiresBlock]
  cases ha : HeaderTokens.after head rest with
  | error e =>
    rw [header_error h ha]
    rfl
  | ok found =>
    obtain ⟨hheader, hclose⟩ := header_ok h ha
    rw [hheader]
    cases c.shape with
    | none => rfl
    | some shape =>
      change (do
        checkShape tokens index c.keyword shape found.parameters
        checkBlock tokens (index + 2 + found.parameters.length) c.keyword) = Except.mapError _ (do
        SlangScript.checkShape head c.keyword shape found.parameters
        SlangScript.checkBlock found.close c.keyword found.rest)
      rw [mapError_bind, checkShape_eq h, checkBlock_eq hclose]

theorem checkElse_eq (h : tokens.drop index = head :: rest) :
    checkElse tokens index = (SlangScript.checkElse head rest).mapError .rejected := by
  rw [checkElse, next_eq h, SlangScript.checkElse]
  cases hrest : rest with
  | nil => exact reject_eq h
  | cons next behind =>
    rw [List.head?_cons, Option.any_some, checkBlock_eq h, hrest]
    by_cases hnext : next.isWord "sus" = true
    · simp only [hnext, if_true]
      rfl
    · simp only [hnext, Bool.false_eq_true, if_false]

theorem checkDefinition_eq (h : tokens.drop index = head :: rest) :
    checkDefinition tokens index = (SlangScript.checkDefinition head rest).mapError .rejected := by
  rw [checkDefinition, next_eq h, SlangScript.checkDefinition, reject_eq h]
  split <;> rfl

theorem isDefined_eq (h : tokens.drop index = head :: rest) : isDefined tokens index =
    .ok ((tokens.take index).getLast?.any (·.isWord "trend")) := by
  cases index with
  | zero => rfl
  | succ index =>
    have hlength := congrArg List.length h
    rw [List.length_drop, List.length_cons] at hlength
    have hlt : index < tokens.length := by omega
    rw [isDefined, if_pos (Nat.zero_lt_succ index), tokenBefore,
      run_token (List.drop_eq_getElem_cons hlt), List.take_succ_eq_append_getElem hlt,
      List.getLast?_concat, Option.any_some]

theorem checkFunction_eq (h : tokens.drop index = head :: rest) : checkFunction tokens index =
    (SlangScript.checkFunction (tokens.take index).getLast? head rest).mapError .rejected := by
  rw [checkFunction, run_token h, SlangScript.checkFunction]
  cases ha : HeaderTokens.after head rest with
  | error e =>
    rw [header_error h ha]
    rfl
  | ok found =>
    obtain ⟨hheader, hclose⟩ := header_ok h ha
    rw [hheader, isDefined_eq h]
    change (match found.parameters.find? fun p => !p.kind.isArgument with
      | some p => Except.error (Halt.rejected ⟨.invalidFunctionParameter head.lexeme p.lexeme, p.span⟩)
      | none => if (tokens.take index).getLast?.any (·.isWord "trend") then
          checkBlock tokens (index + 2 + found.parameters.length) head.lexeme
        else .ok ()) = Except.mapError _ (match found.parameters.find? fun p => !p.kind.isArgument with
      | some p => .error ⟨.invalidFunctionParameter head.lexeme p.lexeme, p.span⟩
      | none => if (tokens.take index).getLast?.any (·.isWord "trend") then
          SlangScript.checkBlock found.close head.lexeme found.rest
        else .ok ())
    cases found.parameters.find? fun p => !p.kind.isArgument with
    | some p => rfl
    | none =>
      rw [checkBlock_eq hclose]
      cases (tokens.take index).getLast?.any (·.isWord "trend") <;> rfl

/-- Up to the end of the line, the entries decide as they do where the end of the line is looked for. -/
theorem checkEntries?_eq (o : Token) (line : Nat) (ts : List Token) :
    (checkEntries? lineCount (ts.takeWhile (·.span.line = line))).getD
      (.error (.rejected ⟨.missingCloseBracket, o.span⟩)) =
      (checkEntries lineCount line o ts).mapError .rejected := by
  induction ts with
  | nil => rfl
  | cons t ts ih =>
    rw [checkEntries]
    by_cases hline : t.span.line = line
    · rw [List.takeWhile_cons_of_pos (by simpa using hline), checkEntries?,
        if_neg (not_not_intro hline)]
      cases t.kind with
      | integer =>
        dsimp only
        split
        · exact ih
        · rfl
      | delimiter d =>
        cases d with
        | comma => exact ih
        | _ => rfl
      | bracket b => cases b <;> rfl
      | _ => rfl
    · rw [List.takeWhile_cons_of_neg (by simpa using hline), if_pos hline]
      rfl

theorem checkLineList_eq {sign : Token} (h : tokens.drop index = head :: sign :: rest)
    (hsign : sign.operator? = some .assign) : checkLineList tokens lineCount index =
      (SlangScript.checkLineList lineCount head (sign :: rest)).mapError .rejected := by
  have hnext := drop_succ h
  rw [checkLineList, run_token h, next_eq hnext]
  cases rest with
  | nil =>
    rw [SlangScript.checkLineList, if_pos hsign]
    exact reject_eq hnext
  | cons opening entries =>
    have hopening := drop_succ hnext
    rw [List.head?_cons, Option.any_some, SlangScript.checkLineList, if_pos hsign]
    by_cases ho : opening.isBracket .openBracket = true
    · rw [if_pos ho, if_pos ho, run_tokensFrom hopening, reject_eq hopening, ← checkEntries?_eq]
      cases checkEntries? lineCount (entries.takeWhile (·.span.line = head.span.line)) <;> rfl
    · rw [if_neg ho, if_neg ho]
      exact reject_eq hnext

/-- Wherever a token stands, its check asks for no token that is not there, and says what the check of the
token in front of the ones behind it says. -/
theorem checkToken_eq (h : tokens.drop index = t :: rest) : checkToken tokens lineCount index t =
    (SlangScript.checkToken lineCount (tokens.take index).getLast? t rest).mapError .rejected := by
  rw [checkToken, SlangScript.checkToken]
  cases t.kind with
  | keyword =>
    dsimp only
    cases Construct.ofKeyword? t.lexeme with
    | some c => exact checkConstruct_eq c h
    | none =>
      dsimp only
      rw [checkElse_eq h]
      split <;> rfl
  | reservedWord =>
    dsimp only
    rw [checkDefinition_eq h]
    split <;> rfl
  | function => exact checkFunction_eq h
  | identifier =>
    dsimp only
    rw [next_eq h]
    by_cases hline : t.lexeme = "line"
    · rw [if_pos hline]
      cases rest with
      | nil => exact if_neg (by simp)
      | cons sign list =>
        rw [List.head?_cons, Option.any_some]
        by_cases hsign : sign.operator? = some .assign
        · rw [if_pos ⟨hline, decide_eq_true hsign⟩, checkLineList_eq h hsign]
        · rw [if_neg (by simp [hsign])]
          cases list <;> simp [SlangScript.checkLineList, hsign] <;> rfl
    · rw [if_neg hline, if_neg fun hboth => hline hboth.1]
      rfl
  | _ => rfl

theorem checkTokens_eq {ts : List Token} (h : tokens.drop index = ts) :
    checkTokens tokens lineCount index ts =
      (SlangScript.checkTokens lineCount (tokens.take index).getLast? ts).mapError .rejected := by
  induction ts generalizing index with
  | nil => rfl
  | cons t ts ih =>
    have hlength := congrArg List.length h
    rw [List.length_drop, List.length_cons] at hlength
    have hlt : index < tokens.length := by omega
    have ht : tokens[index] = t := by
      have hget := List.drop_eq_getElem_cons hlt
      rw [h, List.cons.injEq] at hget
      exact hget.1.symm
    have hbefore : (tokens.take (index + 1)).getLast? = some t := by
      rw [List.take_succ_eq_append_getElem hlt, List.getLast?_concat, ht]
    rw [checkTokens, SlangScript.checkTokens, mapError_bind, checkToken_eq h, ih (drop_succ h), hbefore]

theorem validate_eq (lines : List TokenLine) :
    validate lines = (SlangScript.validate lines).mapError .rejected := by
  have hchecks : checkTokens (TokenLine.flatten lines) lines.length 0 (TokenLine.flatten lines) =
      (SlangScript.checkTokens lines.length none (TokenLine.flatten lines)).mapError .rejected :=
    checkTokens_eq rfl
  rw [validate, SlangScript.validate, mapError_bind, hchecks]
  rfl

end Indexed

/-- Checking a program never asks for a token that is not there, and the count of open braces never falls
below zero: with every token asked for by its index, it ends as `validate` does, whatever the tokens are and
wherever they end. -/
theorem validate_inBounds (lines : List TokenLine) :
    Indexed.validate lines = (validate lines).mapError .rejected ∧
    (∀ index, Indexed.validate lines ≠ .error (.outOfBounds index)) ∧
    Indexed.validate lines ≠ .error .underflow := by
  have h := Indexed.validate_eq lines
  refine ⟨h, fun index => ?_, ?_⟩
  · rw [h]
    cases validate lines <;> simp [Except.mapError]
  · rw [h]
    cases validate lines <;> simp [Except.mapError]

/-- Where a program ends behind `line =`, it is rejected at the sign. -/
example : Indexed.validate [⟨1, [⟨.identifier, "line", ⟨1, 1, 4⟩⟩, ⟨.operator .assign, "=", ⟨1, 6, 1⟩⟩]⟩] =
    .error (.rejected ⟨.expectedOpenBracket, ⟨1, 6, 1⟩⟩) := by decide

/-- Had the sign not been seen before, the same check would ask for a token in its place. -/
example : Indexed.checkLineList [⟨.identifier, "line", ⟨1, 1, 4⟩⟩] 1 0 = .error (.outOfBounds 1) := by
  decide

end SlangScript
