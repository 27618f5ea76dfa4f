import SlangScript.Proofs.CursorStatements
import SlangScript.Proofs.EarliestError

/-! The cursor goes through the statements in braces and those of a whole program as `parse` does, to the
same tree and the same error. -/
namespace SlangScript

open Cursor

namespace Production

theorem statement_shortens {limit room : Nat} {ts rest : List Token} {s : Tree}
    (h : statement limit room ts = .ok (s, rest)) : rest.length < ts.length := by
  obtain ⟨w, rfl, hw⟩ := (statement_reads limit (Nat.le_refl room)).sound trivial h
  have := List.length_pos_iff.mpr (hw.ne_nil rfl)
  rw [List.length_append]
  omega

end Production

namespace Walk
variable {exits : Exits} {room : Nat} {c : Cursor}

/-- The statements end where the rounds of a production end. Where one of these fails, one error is
recorded, and the statements before it are kept. -/
def Gathers (exits : Exits) (p : Production Tree) (c : Cursor) : Prop :=
  match Production.gather (Production.statement? p) c.remaining with
  | (list, .ok rest) => rest <:+ c.remaining ∧ Yields (statements exits) c list (c.moveTo rest)
  | (list, .error f) => f.rest <:+ c.remaining ∧ f.mismatch.isStatement = false ∧
      Yields (statements exits) c list ((c.moveTo f.rest).record f.mismatch.message)

/-- Where no statement can start, the statements are at their end. -/
theorem statements_none (hc : c.At room) (ho : Opening.of? c.remaining = none) :
    Yields (statements exits) c [] (c.moveTo c.remaining) := by
  rw [moveTo_remaining hc]
  refine .unfold (.of_forall fun n => ?_) (statements.eq_2 exits)
  rw [run_canStartStatement, ho]
  rfl

/-- Where one can start, it is read first. -/
theorem statements_some {o : Opening} {a : Option Tree} {list : List Tree} {d e : Cursor}
    (ho : Opening.of? c.remaining = some o) (ha : Yields (statement exits) c a d)
    (hlist : Yields (fun n => match a with
      | some s => do
        let ss ← statements exits n
        return s :: ss
      | none => return []) d list e) : Yields (statements exits) c list e := by
  refine .unfold ((ha.and hlist).mono fun n hn => ?_) (statements.eq_2 exits)
  rw [run_canStartStatement, ho]
  exact (run_bind hn.1 _).trans hn.2

theorem statements_gathers (h : TracesLevel exits room (Production.level maxNesting room))
    (hc : c.At room) : Gathers exits (Production.statement maxNesting room) c := by
  induction hlen : c.remaining.length using Nat.strongRecOn generalizing c with
  | ind len ih =>
    subst hlen
    rw [Gathers, Production.gather]
    cases ho : Opening.of? c.remaining with
    | none =>
      rw [Production.statement?_none ho]
      exact ⟨List.suffix_refl _, statements_none hc ho⟩
    | some o =>
      rw [Production.statement?_some ho]
      have hs := statement_follows h hc ho
      have hrun : Production.statement maxNesting room c.remaining =
          (Production.level maxNesting room).statementOf o c.remaining := by
        rw [Production.statement_eq, Level.statement, Production.run_look, ho]
      rw [Follows, ← hrun] at hs
      cases hp : Production.statement maxNesting room c.remaining with
      | error f =>
        rw [hp] at hs
        rw [Production.bind_eq_error.mpr (.inl hp)]
        exact ⟨hs.1, hs.2.1, statements_some ho hs.2.2 (.of_forall fun _ => rfl)⟩
      | ok r =>
        obtain ⟨s, rest⟩ := r
        rw [hp] at hs
        have hlt := Production.statement_shortens hp
        have hrest : (c.moveTo rest).remaining = rest := remaining_moveTo hs.1
        have hmore := ih _ hlt (hc.moveTo rest) (congrArg List.length hrest)
        have hlist {ss : List Tree} {d : Cursor} (hss : Yields (statements exits) (c.moveTo rest) ss d) :
            Yields (statements exits) c (s :: ss) d :=
          statements_some ho hs.2 (hss.bind (.of_forall fun _ => rfl))
        rw [Production.run_bind hp, Production.run_pure]
        simp only [hlt, ↓reduceIte]
        rw [Gathers, hrest] at hmore
        generalize Production.gather _ rest = g at hmore ⊢
        obtain ⟨more, stop⟩ := g
        cases stop with
        | ok left => exact ⟨hmore.1.trans hs.1, hlist hmore.2⟩
        | error f => exact ⟨hmore.1.trans hs.1, hmore.2.1, hlist hmore.2.2⟩

theorem run_errorCount {β : Type} (k : Nat → Walk β) (c : Cursor) :
    (errorCount >>= k) c = k c.errors.length c := rfl

/-- That a statement has failed is seen from the number of errors. -/
theorem Gathers.follows {p : Production Tree} {k : Nat → List Tree → Walk (Option Tree)}
    {f : List Tree → Production Tree} (hg : Gathers exits p c) (hc : c.At room)
    (hk : ∀ list, Traces room (fun n => k n list) (f list)) : Follows (fun n => do
      let before ← errorCount
      let list ← statements exits n
      if (← errorCount) ≠ before then return none else k n list)
      (Production.many (Production.statement? p) >>= f) c := by
  rw [Gathers] at hg
  cases hgather : Production.gather (Production.statement? p) c.remaining with
  | mk list stop =>
    rw [hgather] at hg
    cases stop with
    | ok rest =>
      have hmany : Production.many (Production.statement? p) c.remaining = .ok (list, rest) := by
        rw [Production.many, hgather]
      have hcount : (c.moveTo rest).errors.length = c.errors.length := rfl
      refine (hk list _ (hc.moveTo rest)).onward hg.1 (fun hd => ?_) (Production.run_bind hmany)
      refine (hg.2.bind (hd.congr fun n => ?_)).congr fun n => run_errorCount _ c
      rw [run_errorCount, if_neg (not_not_intro hcount)]
    | error e =>
      have hmany : Production.many (Production.statement? p) c.remaining = .error e := by
        rw [Production.many, hgather]
      have hcount : ((c.moveTo e.rest).record e.mismatch.message).errors.length ≠ c.errors.length := by
        simp [record, moveTo]
      refine .of_error (Production.bind_eq_error.mpr (.inl hmany)) hg.1 hg.2.1 ?_
      refine (hg.2.2.bind (.of_forall fun n => ?_)).congr fun n => run_errorCount _ c
      rw [run_errorCount, if_pos hcount]
      rfl

theorem bracedBody_traces (h : TracesLevel exits room (Production.level maxNesting room)) :
    Traces room (bracedBody exits) (Production.braced (Production.statement maxNesting room)) := by
  refine .unfold ?_ (bracedBody.eq_2 exits)
  exact .expect (fun _ => rfl) fun _ c hc =>
    (statements_gathers h hc).follows hc fun _ =>
      .expect (fun _ => rfl) fun _ => .pure _

theorem level_traces (exits : Exits) (room : Nat) :
    TracesLevel exits room (Production.level maxNesting room) := by
  induction room with
  | zero =>
    obtain ⟨-, hexpression, harray⟩ := nested_traces 0
    exact ⟨hexpression, harray, .unfold .nested_tooDeep (bracedList.eq_2 exits)⟩
  | succ room ih =>
    obtain ⟨-, hexpression, harray⟩ := nested_traces (room + 1)
    exact ⟨hexpression, harray, .unfold (.nested (bracedBody_traces ih)) (bracedList.eq_2 exits)⟩

end Walk

/-- An error of the outcome, as it is recorded. -/
def SyntaxError.recorded (e : SyntaxError) : RecordedError := ⟨e.index, e.message⟩

/-- The cursor when all is parsed. It stands at the error, or else at the end. -/
def Cursor.final (tokens : List Token) (errors : List SyntaxError) : Cursor :=
  ⟨⟨tokens, (errors.head?.map (·.index)).getD tokens.length⟩, errors.map (·.recorded), 0⟩

namespace Walk

/-- A program is gathered from the front of its tokens. -/
theorem start_gathers (exits : Exits) (ts : List Token) :
    Gathers exits (Production.statement maxNesting maxNesting) (.start ts) :=
  statements_gathers (level_traces exits maxNesting) ⟨Nat.zero_le _, Nat.zero_add _⟩

/-- The cursor parses as `parse` does, whatever is done where no statement begins. -/
theorem program_yields (exits : Exits) (ts : List Token) :
    Yields (program exits) (.start ts) (parse ts).tree (.final ts (parse ts).errors) := by
  have hg := start_gathers exits ts
  have hremaining : (Cursor.start ts).remaining = ts := rfl
  rw [Gathers, hremaining] at hg
  cases hgather : Production.gather
      (Production.statement? (Production.statement maxNesting maxNesting)) ts with
  | mk list stop =>
    rw [hgather] at hg
    rw [parse, parseWithin_eq hgather]
    cases stop with
    | error f =>
      exact (hg.2.2.bind (.of_forall fun _ => rfl)).congr fun n => run_errorCount _ (.start ts)
    | ok rest =>
      have hcount : ((Cursor.start ts).moveTo rest).errors.length = (Cursor.start ts).errors.length :=
        rfl
      have hrest : ((Cursor.start ts).moveTo rest).remaining = rest := remaining_moveTo hg.1
      refine (hg.2.bind (.of_forall fun n => ?_)).congr fun n => run_errorCount _ (.start ts)
      rw [run_errorCount, if_pos hcount]
      cases list with
      | nil => rfl
      | cons s ss =>
        rw [if_neg (by simp), run_current, hrest]
        cases rest <;> rfl

end Walk

end SlangScript
