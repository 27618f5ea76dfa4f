import SlangScript.Proofs.StatementCompleteness

/-! The programs that are accepted are those that the grammar derives, and the tree of a program is the
one that the grammar gives it. -/
namespace SlangScript

namespace Production
variable {α : Type} {round : Production (Option α)} {ts rest : List Token} {items : List α}

theorem many_eq_ok : many round ts = .ok (items, rest) ↔ gather round ts = (items, .ok rest) := by
  rw [many]
  constructor
  · intro h
    split at h
    · cases h; assumption
    · cases h
  · intro h
    rw [h]

end Production

variable {limit : Nat} {ts : List Token} {ss : List Tree}

/-- Without an error, statements have been gathered up to the last token, and there is one at least. -/
theorem parseWithin_errors_eq_nil :
    (parseWithin limit ts).errors = [] ↔ ∃ ss, ss ≠ [] ∧ Production.gather
      (Production.statement? (Production.statement limit limit)) ts = (ss, .ok []) := by
  rw [parseWithin]
  generalize Production.gather _ ts = g
  obtain ⟨ss, stop⟩ := g
  cases stop with
  | error f => simp
  | ok rest => cases ss <;> cases rest <;> simp [leftoverFailure?]

/-- Where the grammar derives the tokens as a program, they are accepted, with the derived tree. -/
theorem parseWithin_of_derives (h : Derives .statements limit ts ss) (hss : ss ≠ []) :
    parseWithin limit ts = ⟨Tree.program ss, []⟩ := by
  have hgather := Production.many_eq_ok.mp (Production.statements_complete
    (Production.statement_completes limit limit)
    (fun h => Level.isSome_of_statement (by rwa [Production.statement_eq] at h))
    h (next_nil _) rfl)
  rw [List.append_nil] at hgather
  have hne : ss.isEmpty = false := by simpa using hss
  simp [parseWithin, hgather, leftoverFailure?, hne]

theorem parse_of_derives (h : Derives .statements maxNesting ts ss) (hss : ss ≠ []) :
    parse ts = ⟨Tree.program ss, []⟩ := parseWithin_of_derives h hss

/-- Where the tokens are accepted, the grammar derives them as a program. -/
theorem derives_of_parse (h : (parse ts).errors = []) :
    ∃ ss, ss ≠ [] ∧ Derives .statements maxNesting ts ss ∧ (parse ts).tree = Tree.program ss := by
  obtain ⟨ss, hne, hg⟩ := parseWithin_errors_eq_nil.mp h
  obtain ⟨w, hts, hw⟩ := (Production.statement?_reads
    (Production.statement_reads maxNesting (Nat.le_refl maxNesting))).gather_ok
      (Production.statements_piecewise maxNesting) hg
  rw [List.append_nil] at hts
  refine ⟨ss, hne, hts ▸ hw, ?_⟩
  simp only [parse, parseWithin, hg]

/-- Whatever stopped a program, the statements in its tree are those that the grammar derives from
tokens at its front. -/
theorem exists_derives_tree (limit : Nat) (ts : List Token) :
    ∃ w rest ss, ts = w ++ rest ∧ Derives .statements limit w ss ∧
      (parseWithin limit ts).tree = Tree.program ss := by
  have hreads := Production.statement?_reads (Production.statement_reads limit (Nat.le_refl limit))
  have hpieces := Production.statements_piecewise limit
  rw [parseWithin]
  cases hg : Production.gather (Production.statement? (Production.statement limit limit)) ts with
  | mk ss stop =>
    cases stop with
    | error f =>
      obtain ⟨w, u, hts, hw, -⟩ := hreads.gather_error hpieces hg
      exact ⟨w, _, ss, hts, by simpa using hw [] [] .done, rfl⟩
    | ok rest =>
      obtain ⟨w, hts, hw⟩ := hreads.gather_ok hpieces hg
      exact ⟨w, rest, ss, hts, hw, rfl⟩

/-- A program is accepted exactly when it is one statement or more by the rules of the grammar, with
brackets nested no deeper than the limit. -/
theorem errorCount_eq_zero_iff_derives (ts : List Token) :
    (parse ts).errorCount = 0 ↔ ∃ ss, ss ≠ [] ∧ Derives .statements maxNesting ts ss := by
  rw [ParseOutcome.errorCount, List.length_eq_zero_iff]
  constructor
  · intro h
    obtain ⟨ss, hss, hd, -⟩ := derives_of_parse h
    exact ⟨ss, hss, hd⟩
  · rintro ⟨ss, hss, hd⟩
    rw [parse_of_derives hd hss]

end SlangScript
