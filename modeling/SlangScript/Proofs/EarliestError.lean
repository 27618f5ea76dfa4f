import SlangScript.Proofs.Acceptance
import SlangScript.Proofs.Lookahead

/-! The first error is noticed as early as it can be: what stands before it begins some program, and what
stands behind it is not looked at. -/
namespace SlangScript
variable {n limit : Nat} {w v ts : List Token} {ss : List Tree} {e : SyntaxError}

theorem Derives.statements_append {rs : List Tree} (h : Derives .statements n w ss)
    (hv : Derives .statements n v rs) : Derives .statements n (w ++ v) (ss ++ rs) := by
  refine h.statements_induction (P := fun w ss => Derives .statements n (w ++ v) (ss ++ rs)) hv ?_
  intro w u s ss hs _ ih
  rw [List.append_assoc]
  exact .next hs ih

/-- A name alone is a statement. -/
private theorem Derives.name_statement (n : Nat) : ∃ t, Derives .statements n [.ofKind .identifier] [t] :=
  ⟨_, .next (v := []) (.unterminated (.alone rfl)) .done⟩

/-- Behind statements that are complete, another one may always stand. -/
theorem exists_program (h : Derives .statements maxNesting w ss) :
    ∃ v, (parse (w ++ v)).errorCount = 0 := by
  obtain ⟨t, ht⟩ := Derives.name_statement maxNesting
  exact ⟨_, by rw [parse_of_derives (h.statements_append ht) (by simp)]; rfl⟩

theorem Failure.toError_index {f : Failure} (h : ts = w ++ f.rest) :
    (f.toError ts.length).index = w.length := by
  subst h
  simp [Failure.toError]

/-- The failure of a program whose statements have been gathered. -/
def failureOf? (items : List Tree) : Except Failure (List Token) → Option Failure
  | .error f => some f
  | .ok rest => leftoverFailure? items rest

theorem parseWithin_eq {items : List Tree} {stop : Except Failure (List Token)}
    (h : Production.gather (Production.statement? (Production.statement limit limit)) ts =
      (items, stop)) :
    parseWithin limit ts =
      ⟨Tree.program items, (failureOf? items stop).toList.map (·.toError ts.length)⟩ := by
  rw [parseWithin, h]
  cases stop <;> rfl

theorem leftoverFailure?_rest {rest : List Token} {f : Failure}
    (h : leftoverFailure? ss rest = some f) : f.rest = rest := by
  cases ss <;> cases rest <;> simp [leftoverFailure?] at h <;> cases h <;> rfl

/-- Whether tokens are left, and which one is next, is all that is noticed of them. -/
private theorem leftoverFailure?_congr {rest rest' : List Token} (h : rest'.head? = rest.head?) :
    (leftoverFailure? ss rest').map (·.mismatch) = (leftoverFailure? ss rest).map (·.mismatch) := by
  cases rest with
  | nil => rw [List.head?_eq_none_iff.mp h]
  | cons t rest =>
    obtain ⟨more, rfl⟩ := List.head?_eq_some_iff.mp h
    cases ss <;> rfl

/-- The tokens before an error begin statements, whose brackets may nest deeper than those of the
program. -/
theorem exists_derives_of_error (he : e ∈ (parseWithin limit ts).errors) (hn : limit ≤ n)
    (hopen : openings (ts.take e.index) < n) :
    ∃ v ss, Derives .statements n (ts.take e.index ++ v) ss := by
  have hreads := Production.statement?_reads (Production.statement_reads limit hn)
  have hpieces := Production.statements_piecewise n
  obtain ⟨items, stop, hg⟩ : ∃ items stop, Production.gather (Production.statement?
      (Production.statement limit limit)) ts = (items, stop) := ⟨_, _, rfl⟩
  rw [parseWithin_eq hg] at he
  obtain ⟨f, hf, rfl⟩ := List.mem_map.mp he
  rw [Option.mem_toList] at hf
  cases stop with
  | error f =>
    cases hf
    obtain ⟨w, u, hts, hw, hu⟩ := hreads.gather_error hpieces hg
    rw [← List.append_assoc] at hts
    have htake : ts.take (w ++ u).length = w ++ u := by rw [hts, List.take_left]
    rw [Failure.toError_index hts, htake] at hopen ⊢
    obtain ⟨v, o, ho⟩ := hu (by simp only [openings_append] at hopen; omega)
    refine ⟨v, ?_⟩
    rw [List.append_assoc]
    cases o with
    | none => exact ⟨_, hw _ _ (hpieces.stop _ ho)⟩
    | some s => exact ⟨_, by simpa using hw _ _ (hpieces.step ho .done)⟩
  | ok rest =>
    obtain ⟨w, hts, hw⟩ := hreads.gather_ok hpieces hg
    have hrest := leftoverFailure?_rest hf
    rw [Failure.toError_index (hrest ▸ hts), hts, List.take_left]
    exact ⟨[], items, by simpa using hw⟩

/-- The tokens before the first error begin a program, unless too many brackets stand among them. -/
theorem exists_program_of_error (he : (parse ts).errors.head? = some e)
    (hopen : openings (ts.take e.index) < maxNesting) :
    ∃ v, (parse (ts.take e.index ++ v)).errorCount = 0 := by
  obtain ⟨v, ss, hd⟩ := exists_derives_of_error (List.mem_of_head? he) (Nat.le_refl maxNesting) hopen
  obtain ⟨x, hx⟩ := exists_program hd
  exact ⟨v ++ x, by simpa using hx⟩

/-- What is parsed, and where it fails, depends on the tokens up to the first error. -/
theorem parseWithin_settled (limit : Nat) (ts : List Token) :
    ∃ w rest items failure?, ts = w ++ rest ∧ ∀ rest', rest'.head? = rest.head? →
      parseWithin limit (w ++ rest') =
        ⟨Tree.program items, (failure? : Option Mismatch).toList.map (⟨w.length, ·⟩)⟩ := by
  obtain ⟨w, rest, items, stop, rfl, hw⟩ :=
    (Production.statement?_settled (Production.statement_settled limit limit)).gather ts
  cases stop with
  | some m =>
    refine ⟨w, rest, items, some m, rfl, fun rest' hr => ?_⟩
    simp [parseWithin_eq (hw rest' hr), stopping, failureOf?, Failure.toError]
  | none =>
    refine ⟨w, rest, items, (leftoverFailure? items rest).map (·.mismatch), rfl, fun rest' hr => ?_⟩
    rw [parseWithin_eq (hw rest' hr), ← leftoverFailure?_congr hr]
    simp only [stopping, failureOf?]
    cases hf : leftoverFailure? items rest' with
    | none => rfl
    | some f => simp [Failure.toError, leftoverFailure?_rest hf]

/-- The first error of a program is noticed at the earliest token at which it can be. The tokens before
it begin a program that is accepted, unless the limit on nesting could have been met among them; and
whatever tokens follow the one where it is noticed, the outcome is the same. -/
theorem first_error_earliest {ts : List Token} {e : SyntaxError}
    (he : (parse ts).errors.head? = some e) :
    (openings (ts.take e.index) < maxNesting →
      ∃ v, (parse (ts.take e.index ++ v)).errorCount = 0) ∧
    (e.index < ts.length → ∀ ts', ts.take (e.index + 1) <+: ts' →
      parse ts' = parse ts ∧ (parse ts').errorCount ≠ 0) := by
  refine ⟨exists_program_of_error he, fun hlt ts' hts' => ?_⟩
  obtain ⟨w, rest, items, failure?, rfl, hw⟩ := parseWithin_settled maxNesting ts
  have hts : parse (w ++ rest) = _ := hw rest rfl
  rw [hts] at he ⊢
  cases failure? with
  | none => cases he
  | some m =>
    cases he
    cases rest with
    | nil => simp at hlt
    | cons t rest =>
      have htake : (w ++ t :: rest).take (w.length + 1) = w ++ [t] := by
        rw [List.take_length_add_append]; rfl
      rw [htake] at hts'
      obtain ⟨more, rfl⟩ := hts'
      rw [parse, List.append_assoc, hw ([t] ++ more) rfl]
      exact ⟨rfl, by simp [ParseOutcome.errorCount]⟩

/-- `x = )`, where a parenthesis stands in the place of a value. -/
def missingValue : List Token :=
  [.ofKind .identifier, .ofKind (.operator .assign), .ofKind (.bracket .closeParen)]

theorem missingValue_first_error :
    (parse missingValue).errors.head? =
      some ⟨2, .expression (some (.ofKind (.bracket .closeParen)))⟩ ∧
    (∃ v, (parse (missingValue.take 2 ++ v)).errorCount = 0) ∧
    ∀ ts', missingValue.take 3 <+: ts' →
      parse ts' = parse missingValue ∧ (parse ts').errorCount ≠ 0 := by
  have he : (parse missingValue).errors.head? =
      some ⟨2, .expression (some (.ofKind (.bracket .closeParen)))⟩ := by decide +kernel
  exact ⟨he, (first_error_earliest he).1 (by decide), (first_error_earliest he).2 (by decide)⟩

end SlangScript
