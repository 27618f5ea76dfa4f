import SlangScript.Proofs.CursorProgram

/-! One error at most. A production that yields nothing has recorded one error, one that yields something
has recorded none, and so nothing that calls it has an error to add. -/
namespace SlangScript

namespace Cursor

/-- The cursor stands in these tokens, with no more levels open than may be. -/
structure Over (c : Cursor) (ts : List Token) : Prop where
  tokens : c.stream.tokens = ts
  inside : c.stream.position ≤ ts.length
  depth : c.depth ≤ maxNesting

/-- The second place is further on in the same tokens, or the same, and as many levels are open there. -/
structure GoesOn (c d : Cursor) : Prop where
  tokens : d.stream.tokens = c.stream.tokens
  forward : c.stream.position ≤ d.stream.position
  inside : d.stream.position ≤ d.stream.tokens.length
  depth : d.depth = c.depth

theorem Over.at {c : Cursor} {ts : List Token} (h : c.Over ts) : c.At (maxNesting - c.depth) :=
  ⟨h.tokens ▸ h.inside, Nat.add_sub_of_le h.depth⟩

theorem goesOn_moveTo {c : Cursor} {room : Nat} {rest : List Token} (hc : c.At room)
    (hrest : rest <:+ c.remaining) : c.GoesOn (c.moveTo rest) where
  tokens := rfl
  forward := by
    have hle := hrest.length_le
    have hlength := hc.length_remaining
    simp only [moveTo]
    omega
  inside := Nat.sub_le _ _
  depth := rfl

end Cursor

open Cursor

/-- The walk ends, once calls may go deep enough. With a result it has recorded no error; without one it has
recorded a single error, at the place that it has come to. -/
def Disciplined {α : Type} (m : Nat → Walk (Option α)) (c : Cursor) : Prop :=
  (∃ a d, Yields m c (some a) d ∧ c.GoesOn d ∧ d.errors = c.errors) ∨
  ∃ d message, Yields m c none d ∧ c.GoesOn d ∧
    d.errors = c.errors ++ [⟨d.stream.position, message⟩]

section Disciplined
variable {α : Type} {room : Nat} {word : String} {c : Cursor} {m : Nat → Walk (Option α)}
  {p : Production α}

theorem disciplined_of_record {message : String} (hc : c.At room)
    (h : Yields m c none (c.record message)) : Disciplined m c :=
  .inr ⟨_, message, h, ⟨rfl, Nat.le_refl _, hc.inside, rfl⟩, rfl⟩

theorem Follows.disciplined (h : Follows m p c) (hc : c.At room) : Disciplined m c := by
  rw [Follows] at h
  cases hp : p c.remaining with
  | ok r =>
    obtain ⟨a, rest⟩ := r
    rw [hp] at h
    exact .inl ⟨a, _, h.2, goesOn_moveTo hc h.1, rfl⟩
  | error f =>
    rw [hp] at h
    have hmove := goesOn_moveTo hc h.1
    exact .inr ⟨_, f.mismatch.message, h.2.2, ⟨rfl, hmove.forward, hmove.inside, rfl⟩, rfl⟩

theorem Traces.disciplined (h : Traces room m p) (hc : c.At room) : Disciplined m c :=
  (h c hc).disciplined hc

theorem TracesBehind.disciplined (h : TracesBehind room word m p) (hc : c.At room) :
    Disciplined m c := by
  by_cases hno : Next (fun t => t.isWord word = false) c.remaining
  · obtain ⟨message, hm⟩ := h.refuses hno
    exact disciplined_of_record hc hm
  · obtain ⟨t, ts, hts, ht⟩ := exists_next_of_not hno
    exact (h.follows hc hts (by simpa using ht)).disciplined hc

theorem expectWord_disciplined (word : String) (hc : c.At room) :
    Disciplined (fun _ => Walk.expectWord word) c := by
  cases hts : c.remaining with
  | nil => exact disciplined_of_record hc (.of_forall fun _ => Walk.expect_end hts)
  | cons t ts =>
    cases ht : t.isWord word with
    | true =>
      have hmove := goesOn_moveTo hc (hts ▸ List.suffix_cons t ts)
      exact .inl ⟨t, _, .of_forall fun _ => Walk.expect_taken hts ht, hmove, rfl⟩
    | false => exact disciplined_of_record hc (.of_forall fun _ => Walk.expect_refused hts ht)

end Disciplined

/-- The productions that yield a token, a tree or trees, or nothing. -/
inductive Routine : Type → Type where
  | expectKind (kind : TokenKind) : Routine Token
  | expectWord (word : String) : Routine Token
  | call : Routine Tree
  | arguments : Routine (List Tree)
  | array : Routine Tree
  | arrayBody : Routine Tree
  | elements : Routine (List Tree)
  | element : Routine Tree
  | expression : Routine Tree
  | operands (left : Tree) : Routine Tree
  | primary : Routine Tree
  | group : Routine Tree
  | conditionHeader (construct : Construct) : Routine Tree
  | print : Routine Tree
  | input : Routine Tree
  | reply : Routine Tree
  | number : Routine Tree
  | numbers : Routine (List Tree)
  | lineList : Routine Tree
  | named : Routine Tree
  | declaration : Routine Tree
  | parameters : Routine (List Tree)
  | statement : Routine Tree
  | ifChain : Routine Tree
  | branches : Routine (List Tree)
  | elseBlock : Routine Tree
  | guarded (construct : Construct) (tag : Tag) : Routine Tree
  | forLoop : Routine Tree
  | definition : Routine Tree
  | block : Routine Tree
  | bracedList : Routine Tree
  | bracedBody : Routine Tree

namespace Routine

def walk (exits : Exits) : {α : Type} → Routine α → Nat → Walk (Option α)
  | _, expectKind kind => fun _ => Walk.expectKind kind
  | _, expectWord word => fun _ => Walk.expectWord word
  | _, call => Walk.call
  | _, arguments => Walk.arguments
  | _, array => Walk.array
  | _, arrayBody => Walk.arrayBody
  | _, elements => Walk.elements
  | _, element => Walk.element
  | _, expression => Walk.expression
  | _, operands left => fun n => Walk.operands n left
  | _, primary => Walk.primary
  | _, group => Walk.group
  | _, conditionHeader construct => Walk.conditionHeader construct
  | _, print => Walk.print
  | _, input => fun _ => Walk.input
  | _, reply => Walk.reply
  | _, number => fun _ => Walk.number
  | _, numbers => Walk.numbers
  | _, lineList => Walk.lineList
  | _, named => Walk.named
  | _, declaration => Walk.declaration exits
  | _, parameters => Walk.parameters exits
  | _, statement => Walk.statement exits
  | _, ifChain => Walk.ifChain exits
  | _, branches => Walk.branches exits
  | _, elseBlock => Walk.elseBlock exits
  | _, guarded construct tag => fun n => Walk.guarded exits n construct tag
  | _, forLoop => Walk.forLoop exits
  | _, definition => Walk.definition exits
  | _, block => Walk.block exits
  | _, bracedList => Walk.bracedList exits
  | _, bracedBody => Walk.bracedBody exits

/-- Where the production is called. A statement is asked for only where one can start, and a declaration
only where a token is left. -/
def Ready {α : Type} (r : Routine α) (c : Cursor) : Prop :=
  match r with
  | statement => Walk.canStartStatement c = some (true, c)
  | declaration => c.stream.isAtEnd = false
  | _ => True

variable {α : Type} {c : Cursor} {ts : List Token}

private theorem isSome_of_canStartStatement (h : Walk.canStartStatement c = some (true, c)) :
    (Opening.of? c.remaining).isSome = true := by
  have hrun := Walk.run_canStartStatement pure c
  rw [bind_pure, h] at hrun
  exact (congrArg Prod.fst (Option.some.inj hrun)).symm

/-- Where it is called, every production either yields something or records one error. -/
theorem disciplined (exits : Exits) (r : Routine α) (hc : c.Over ts) (hr : r.Ready c) :
    Disciplined (r.walk exits) c := by
  obtain ⟨hprimary, hexpression, harray⟩ := Walk.nested_traces (maxNesting - c.depth)
  have hlevel := Walk.level_traces exits (maxNesting - c.depth)
  have hc := hc.at
  cases r with
  | expectKind kind => exact (Traces.expectKind kind).disciplined hc
  | expectWord word => exact expectWord_disciplined word hc
  | call => exact (Walk.call_traces hexpression).disciplined hc
  | arguments =>
    exact (Walk.commaSeparated_traces hexpression Walk.arguments.eq_2).disciplined hc
  | array => exact harray.disciplined hc
  | arrayBody => exact (Walk.arrayBody_traces hexpression).disciplined hc
  | elements =>
    exact (Walk.commaSeparated_traces (Walk.element_traces hexpression) Walk.elements.eq_2).disciplined hc
  | element => exact (Walk.element_traces hexpression).disciplined hc
  | expression => exact hexpression.disciplined hc
  | operands left => exact (Walk.operands_traces hprimary left).disciplined hc
  | primary => exact hprimary.disciplined hc
  | group => exact (Walk.group_traces hexpression).disciplined hc
  | conditionHeader construct => exact (Walk.conditionHeader_traces hlevel construct).disciplined hc
  | print => exact (Walk.print_traces hlevel).disciplined hc
  | input => exact Walk.input_traces.disciplined hc
  | reply => exact (Walk.reply_traces hlevel).disciplined hc
  | number => exact Walk.number_traces.disciplined hc
  | numbers =>
    exact (Walk.commaSeparated_traces Walk.number_traces Walk.numbers.eq_2).disciplined hc
  | lineList => exact Walk.lineList_traces.disciplined hc
  | named => exact (Walk.named_traces hlevel).disciplined hc
  | declaration =>
    have hleft : c.remaining ≠ [] := by
      simpa [Ready, TokenStream.isAtEnd, TokenStream.length, Cursor.remaining,
        TokenStream.remaining] using of_decide_eq_false hr
    obtain ⟨t, rest, hts⟩ := List.exists_cons_of_ne_nil hleft
    exact (Walk.declaration_follows hlevel hc hts).disciplined hc
  | parameters => exact Walk.parameters_traces.disciplined hc
  | statement =>
    obtain ⟨o, ho⟩ := Option.isSome_iff_exists.mp (isSome_of_canStartStatement hr)
    exact (Walk.statement_follows hlevel hc ho).disciplined hc
  | ifChain => exact (Walk.ifChain_traces hlevel).disciplined hc
  | branches => exact (Walk.branches_traces hlevel).disciplined hc
  | elseBlock => exact (Walk.elseBlock_traces hlevel).disciplined hc
  | guarded construct tag => exact (Walk.guarded_traces hlevel construct tag).disciplined hc
  | forLoop => exact (Walk.forLoop_traces hlevel).disciplined hc
  | definition => exact (Walk.definition_traces (Walk.block_traces hlevel)).disciplined hc
  | block => exact (Walk.block_traces hlevel).disciplined hc
  | bracedList => exact hlevel.braces.disciplined hc
  | bracedBody => exact (Walk.bracedBody_traces hlevel).disciplined hc

end Routine

/-- Among statements in a row, the one that fails has recorded the only error. -/
theorem statements_disciplined (exits : Exits) {c : Cursor} {ts : List Token} (hc : c.Over ts) :
    ∃ list d, Yields (Walk.statements exits) c list d ∧ c.GoesOn d ∧ (d.errors = c.errors ∨
      ∃ message, d.errors = c.errors ++ [⟨d.stream.position, message⟩]) := by
  have hg := Walk.statements_gathers (Walk.level_traces exits _) hc.at
  rw [Walk.Gathers] at hg
  generalize Production.gather _ c.remaining = g at hg
  obtain ⟨list, stop⟩ := g
  cases stop with
  | ok rest => exact ⟨list, _, hg.2, goesOn_moveTo hc.at hg.1, .inl rfl⟩
  | error f =>
    have hmove := goesOn_moveTo hc.at hg.1
    exact ⟨list, _, hg.2.2, ⟨rfl, hmove.forward, hmove.inside, rfl⟩, .inr ⟨_, rfl⟩⟩

theorem leftoverFailure?_isStatement {list : List Tree} {rest : List Token} {f : Failure}
    (h : leftoverFailure? list rest = some f) : f.mismatch.isStatement = false := by
  cases list <;> cases rest <;> cases h <;> rfl

/-- A program has the error of a single failure, if it has one, and this is never that a token begins no
statement. -/
theorem exists_failure (ts : List Token) : ∃ failure? : Option Failure,
    (parse ts).errors = failure?.toList.map (·.toError ts.length) ∧
      ∀ f, failure? = some f → f.mismatch.isStatement = false := by
  have hg := Walk.start_gathers .plain ts
  have hremaining : (Cursor.start ts).remaining = ts := rfl
  rw [Walk.Gathers, hremaining] at hg
  cases hgather : Production.gather
      (Production.statement? (Production.statement maxNesting maxNesting)) ts with
  | mk list stop =>
    rw [hgather] at hg
    refine ⟨failureOf? list stop, by rw [parse, parseWithin_eq hgather], fun f hf => ?_⟩
    cases stop with
    | error g =>
      cases hf
      exact hg.2.1
    | ok rest => exact leftoverFailure?_isStatement hf

/-- A program has one error at most, noticed at one of its tokens or at their end. Every production that
reads a part of it keeps to this wherever it is called: it yields something and records nothing, or yields
nothing and records one error. Parsing with a cursor therefore ends as `parse` does, and what stands at the
exits makes no difference, for none of them is taken. -/
theorem parse_reports_once (ts : List Token) :
    (parse ts).errors.length ≤ 1 ∧
    (parse ts).errorCount = (parse ts).errors.length ∧
    (∀ e ∈ (parse ts).errors, e.index ≤ ts.length ∧ e.mismatch.isStatement = false) ∧
    ∀ exits : Exits,
      Yields (Walk.program exits) (.start ts) (parse ts).tree (.final ts (parse ts).errors) ∧
      ∀ c : Cursor, c.Over ts →
        (∀ {α : Type} (r : Routine α), r.Ready c → Disciplined (r.walk exits) c) ∧
        ∃ list d, Yields (Walk.statements exits) c list d ∧ c.GoesOn d ∧
          (d.errors = c.errors ∨
            ∃ message, d.errors = c.errors ++ [⟨d.stream.position, message⟩]) := by
  obtain ⟨failure?, herrors, hstatement⟩ := exists_failure ts
  refine ⟨?_, rfl, fun e he => ?_, fun exits => ⟨Walk.program_yields exits ts, fun c hc => ?_⟩⟩
  · rw [herrors, List.length_map]
    exact Option.length_toList_le
  · rw [herrors] at he
    obtain ⟨f, hf, rfl⟩ := List.mem_map.mp he
    exact ⟨Nat.sub_le _ _, hstatement f (Option.mem_toList.mp hf)⟩
  · exact ⟨fun r hr => r.disciplined exits hc hr, statements_disciplined exits hc⟩

/-- A statement can start with `x =`, and it is disciplined although its value is missing. -/
theorem parse_reports_once_missingValue : Routine.statement.Ready (.start missingValue) ∧
    Disciplined (Routine.statement.walk .plain) (.start missingValue) := by
  have hready : Routine.statement.Ready (.start missingValue) := rfl
  have hover : (Cursor.start missingValue).Over missingValue :=
    ⟨rfl, Nat.zero_le _, Nat.zero_le _⟩
  exact ⟨hready, (((parse_reports_once missingValue).2.2.2 .plain).2 _ hover).1 .statement hready⟩

end SlangScript
