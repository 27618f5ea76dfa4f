import SlangScript.Proofs.NestingCap

/-! What is kept of a program that is rejected: the statements in front of the one that fails, as they
are read where nothing follows them, and nothing of that one. -/
namespace SlangScript

/-- A repetition stops as it would where the last round begins, and the pieces before are complete. -/
theorem Reads.gather_stop {α : Type} {n : Nat} {round : Production (Option α)} {Q : Rule (Option α)}
    {M : Rule (List α)} (h : Reads Anything n round Q) (hQ : Piecewise Q M) {ts : List Token}
    {items : List α} {stop : Except Failure (List Token)}
    (hg : Production.gather round ts = (items, stop)) :
    ∃ w mid, ts = w ++ mid ∧ M w items ∧ Production.gather round mid = ([], stop) := by
  have hempty : M [] [] := hQ.stop [] hQ.empty
  induction ts using Production.gather.induct round generalizing items with
  | case1 ts e he =>
    have hstop := Production.gather_of_error he
    cases hstop.symm.trans hg
    exact ⟨[], ts, rfl, hempty, hstop⟩
  | case2 ts mid hr =>
    have hstop := Production.gather_of_none hr
    cases hstop.symm.trans hg
    exact ⟨[], ts, rfl, hempty, hstop⟩
  | case3 ts a mid hr hlt more stop' hm ih =>
    rw [Production.gather_of_some hr hlt, hm] at hg
    cases hg
    obtain ⟨u, rfl, hu⟩ := h.sound trivial hr
    obtain ⟨w, left, rfl, hw, hstop⟩ := ih hm
    exact ⟨u ++ w, left, by simp, hQ.step hu hw, hstop⟩
  | case4 ts a mid hr hlt =>
    obtain ⟨u, rfl, hu⟩ := h.sound trivial hr
    cases u with
    | nil => exact absurd hu (hQ.progress a)
    | cons t u =>
      refine absurd ?_ hlt
      simp only [List.cons_append, List.length_cons, List.length_append]
      omega

/-- Statements end in front of the tokens at which another one cannot begin. -/
theorem statements_stop {limit : Nat} {ts rest : List Token} (h : Production.gather
    (Production.statement? (Production.statement limit limit)) ts = ([], .ok rest)) : rest = ts := by
  obtain ⟨w, rfl, hw⟩ := (Production.statement?_reads
    (Production.statement_reads limit (Nat.le_refl limit))).gather_ok
      (Production.statements_piecewise limit) h
  cases hw
  rfl

/-- The tokens of a rejected program are those of the statements that are kept and, behind them, tokens
of which nothing is kept. -/
theorem exists_kept_of_error {limit : Nat} {ts : List Token} {e : SyntaxError}
    (he : e ∈ (parseWithin limit ts).errors) :
    ∃ w mid ss i, ts = w ++ mid ∧ Derives .statements limit w ss ∧ e.index = w.length + i ∧
      (parseWithin limit ts).tree = Tree.program ss ∧
      (parseWithin limit mid).tree = Tree.program [] ∧
      (parseWithin limit mid).errors.map (·.index) = [i] := by
  have hreads := Production.statement?_reads
    (Production.statement_reads limit (Nat.le_refl limit))
  have hpieces := Production.statements_piecewise limit
  obtain ⟨ss, stop, hg⟩ : ∃ ss stop, Production.gather (Production.statement?
      (Production.statement limit limit)) ts = (ss, stop) := ⟨_, _, rfl⟩
  obtain ⟨w, mid, rfl, hw, hstop⟩ := hreads.gather_stop hpieces hg
  have hmid := parseWithin_eq hstop
  rw [parseWithin_eq hg] at he ⊢
  obtain ⟨f, hf, rfl⟩ := List.mem_map.mp he
  rw [Option.mem_toList] at hf
  cases stop with
  | error f' =>
    cases hf
    obtain ⟨u, v, hsplit, -⟩ := hreads.gather_error hpieces hstop
    have hle : f.rest.length ≤ mid.length := by
      rw [hsplit]
      simp only [List.length_append]
      omega
    refine ⟨w, mid, ss, mid.length - f.rest.length, rfl, hw, ?_, rfl, by rw [hmid], by rw [hmid]; rfl⟩
    simp only [Failure.toError, List.length_append]
    omega
  | ok rest =>
    obtain rfl := statements_stop hstop
    refine ⟨w, rest, ss, 0, rfl, hw, ?_, rfl, by rw [hmid], ?_⟩
    · simp [Failure.toError, leftoverFailure?_rest hf]
    · rw [hmid]
      simp [failureOf?, leftoverFailure?, Failure.toError]

/-- A program that is rejected keeps the statements before the one that fails. Where there are any, they
are the program that the tokens before it are, with the same tree; and those from there on keep no
statement, and fail at the same token. -/
theorem parse_keeps {ts : List Token} {e : SyntaxError} (he : (parse ts).errors.head? = some e)
    (hkept : (parse ts).tree.statements ≠ []) :
    ∃ p ≤ e.index, parse (ts.take p) = ⟨(parse ts).tree, []⟩ ∧
      (parse (ts.drop p)).tree = Tree.program [] ∧
      (parse (ts.drop p)).errors.map (·.index) = [e.index - p] := by
  obtain ⟨w, mid, ss, i, rfl, hd, hindex, htree, hnone, herrors⟩ :=
    exists_kept_of_error (List.mem_of_head? he)
  have hss : ss ≠ [] := by
    rintro rfl
    exact hkept (by rw [parse, htree]; rfl)
  refine ⟨w.length, hindex ▸ Nat.le_add_right _ _, ?_, ?_, ?_⟩
  · rw [List.take_left, parse_of_derives hd hss, parse, htree]
  · rw [List.drop_left]
    exact hnone
  · rw [List.drop_left, hindex, Nat.add_sub_cancel_left]
    exact herrors

/-- `x sus (y) { z z = )`, where a value is missing in the block. -/
def brokenBlock : List Token :=
  [.ofKind .identifier, ⟨.keyword, "sus", .origin⟩, .ofKind (.bracket .openParen),
    .ofKind .identifier, .ofKind (.bracket .closeParen), .ofKind (.bracket .openBrace),
    .ofKind .identifier, .ofKind .identifier, .ofKind (.operator .assign),
    .ofKind (.bracket .closeParen)]

theorem brokenBlock_keeps :
    (parse brokenBlock).errors.head? =
      some ⟨9, .expression (some (.ofKind (.bracket .closeParen)))⟩ ∧
    (parse brokenBlock).tree.statements ≠ [] ∧
    ∃ p ≤ 9, parse (brokenBlock.take p) = ⟨(parse brokenBlock).tree, []⟩ ∧
      (parse (brokenBlock.drop p)).tree = Tree.program [] ∧
      (parse (brokenBlock.drop p)).errors.map (·.index) = [9 - p] := by
  have he : (parse brokenBlock).errors.head? =
      some ⟨9, .expression (some (.ofKind (.bracket .closeParen)))⟩ := by decide +kernel
  have hkept : (parse brokenBlock).tree.statements ≠ [] := by decide +kernel
  exact ⟨he, hkept, parse_keeps he hkept⟩

end SlangScript
