import Mathlib.Tactic.Ring
import SlangScript.Proofs.Balance

/-! Where a block ends, by the number of its braces: at the first place where as many have been closed as
opened. -/
namespace SlangScript

/-- The opening braces less the closing ones. -/
def braceBalance (ts : List Token) : Int :=
  ts.countP (·.isBracket .openBrace) - ts.countP (·.isBracket .closeBrace)

/-- With `outer` braces open in front of the tokens, the token `e` is the first one up to which as many
have been closed as opened. -/
structure BlockEnds (outer : Int) (ts : List Token) (e : Nat) : Prop where
  lt_length : e < ts.length
  even : outer + braceBalance (ts.take (e + 1)) = 0
  first : ∀ i < e, outer + braceBalance (ts.take (i + 1)) ≠ 0

section Balance
variable {t : Token} {ts us : List Token}

@[simp] theorem braceBalance_nil : braceBalance [] = 0 := rfl

theorem braceBalance_cons (t : Token) (ts : List Token) :
    braceBalance (t :: ts) = braceBalance [t] + braceBalance ts := by
  simp only [braceBalance, List.countP_cons, List.countP_nil]
  push_cast
  ring

theorem braceBalance_open (h : t.kind = .bracket .openBrace) : braceBalance [t] = 1 := by
  simp [braceBalance, Token.isBracket, h]

theorem braceBalance_close (h : t.kind = .bracket .closeBrace) : braceBalance [t] = -1 := by
  simp [braceBalance, Token.isBracket, h]

theorem braceBalance_other (h : t.isBrace = false) : braceBalance [t] = 0 := by
  rw [Token.isBrace, Bool.or_eq_false_iff] at h
  simp [braceBalance, h]

/-- A token opens a block, closes one or is no brace. -/
theorem Token.brace_cases (t : Token) : t.kind = .bracket .openBrace ∨
    t.kind = .bracket .closeBrace ∨ t.isBrace = false := by
  by_cases ho : t.kind = .bracket .openBrace
  · exact .inl ho
  · by_cases hc : t.kind = .bracket .closeBrace
    · exact .inr (.inl hc)
    · exact .inr (.inr (isBrace_eq_false ho hc))

end Balance

namespace BlockEnds
variable {outer : Int} {e : Nat} {t : Token} {ts us : List Token}

theorem not_nil : ¬ BlockEnds outer [] e := fun h => Nat.not_lt_zero e h.lt_length

theorem zero_iff : BlockEnds outer (t :: ts) 0 ↔ outer + braceBalance [t] = 0 :=
  ⟨fun h => h.even, fun h => ⟨Nat.zero_lt_succ _, h, nofun⟩⟩

/-- Past its first token a block ends where it ends with that token in front. -/
theorem succ_iff : BlockEnds outer (t :: ts) (e + 1) ↔
    outer + braceBalance [t] ≠ 0 ∧ BlockEnds (outer + braceBalance [t]) ts e := by
  have hstep (i : Nat) : outer + braceBalance ((t :: ts).take (i + 1 + 1)) =
      outer + braceBalance [t] + braceBalance (ts.take (i + 1)) := by
    rw [List.take_succ_cons, braceBalance_cons, add_assoc]
  constructor
  · intro h
    refine ⟨h.first 0 (Nat.zero_lt_succ e), Nat.lt_of_succ_lt_succ h.lt_length, ?_, fun i hi => ?_⟩
    · rw [← hstep]
      exact h.even
    · rw [← hstep]
      exact h.first (i + 1) (Nat.succ_lt_succ hi)
  · rintro ⟨hzero, h⟩
    refine ⟨Nat.succ_lt_succ h.lt_length, (hstep e).trans h.even, fun i hi => ?_⟩
    cases i with
    | zero => exact hzero
    | succ i =>
      rw [hstep]
      exact h.first i (Nat.lt_of_succ_lt_succ hi)

/-- A block ends in one place. -/
theorem unique {e' : Nat} (h : BlockEnds outer ts e) (h' : BlockEnds outer ts e') : e = e' := by
  rcases Nat.lt_trichotomy e e' with hlt | heq | hgt
  · exact absurd h.even (h'.first e hlt)
  · exact heq
  · exact absurd h'.even (h.first e' hgt)

/-- The end of a block does not depend on what stands behind it. -/
theorem append (h : BlockEnds outer ts e) (us : List Token) : BlockEnds outer (ts ++ us) e := by
  have htake {i : Nat} (hi : i ≤ e) : (ts ++ us).take (i + 1) = ts.take (i + 1) :=
    List.take_append_of_le_length (Nat.lt_of_le_of_lt hi h.lt_length)
  refine ⟨?_, ?_, fun i hi => ?_⟩
  · rw [List.length_append]
    exact Nat.lt_add_right _ h.lt_length
  · rw [htake (Nat.le_refl e)]
    exact h.even
  · rw [htake (Nat.le_of_lt hi)]
    exact h.first i hi

end BlockEnds

/-- The search for the end of a block finds it, and notices what stands inside. -/
theorem blockEnd?_eq_some_iff {index inner e : Nat} {before nonEmpty : Bool} {ts : List Token} :
    blockEnd? index inner before ts = some (e, nonEmpty) ↔ ∃ j, e = index + j ∧
      BlockEnds (inner + 1) ts j ∧ nonEmpty = (before || (ts.take j).any fun t => !t.isBrace) := by
  induction ts generalizing index inner before with
  | nil => simp [blockEnd?, BlockEnds.not_nil]
  | cons t ts ih =>
    rw [← Nat.or_exists_add_one]
    simp only [BlockEnds.zero_iff, BlockEnds.succ_iff]
    rcases t.brace_cases with h | h | h
    · have hopen : (inner + 1 + 1 : Int) ≠ 0 := by omega
      rw [blockEnd?_open h, ih, braceBalance_open h]
      simp [hopen, Token.isBrace_of_open h, Nat.add_assoc, Nat.add_comm 1]
    · rw [braceBalance_close h]
      cases inner with
      | zero => simp [blockEnd?_found h, eq_comm]
      | succ inner =>
        have hopen : ((inner + 1 : Nat) + 1 + -1 : Int) = inner + 1 := by omega
        have hne : (inner + 1 : Int) ≠ 0 := by omega
        rw [blockEnd?_close h, ih, hopen]
        simp [hne, Token.isBrace_of_close h, Nat.add_assoc, Nat.add_comm 1]
    · have hopen : (inner + 1 : Int) ≠ 0 := by omega
      rw [blockEnd?_other h, ih, braceBalance_other h]
      simp [hopen, h, Nat.add_assoc, Nat.add_comm 1]

end SlangScript
