import Mathlib.Order.Lattice.Nat
import SlangScript.Proofs.BlockExtent

/-! The search for the end of a block as a loop that counts open braces. The count does not fall below
zero, and the loop ends at the first place where it comes back to it. -/
namespace SlangScript

/-- How a search for the closing brace ends. -/
inductive BraceSearch where
  | found (index : Nat) (nonEmpty : Bool)
  /-- The tokens end while braces are open. -/
  | exhausted
  /-- A brace is closed where none is open. -/
  | underflow
  deriving DecidableEq, Repr

/-- The search from the token with this index on, where `depth` braces are open and `nonEmpty` tells
whether anything but a brace has been met. -/
def searchBrace (index depth : Nat) (nonEmpty : Bool) : List Token → BraceSearch
  | [] => .exhausted
  | t :: rest =>
    if t.isBracket .openBrace then searchBrace (index + 1) (depth + 1) nonEmpty rest
    else if t.isBracket .closeBrace then
      match depth with
      | 0 => .underflow
      | n + 1 => if n = 0 then .found index nonEmpty else searchBrace (index + 1) n nonEmpty rest
    else searchBrace (index + 1) depth true rest

section Search
variable {index depth inner : Nat} {nonEmpty : Bool} {t : Token} {ts : List Token}

theorem searchBrace_open (h : t.kind = .bracket .openBrace) :
    searchBrace index depth nonEmpty (t :: ts) = searchBrace (index + 1) (depth + 1) nonEmpty ts := by
  simp [searchBrace, Token.isBracket, h]

theorem searchBrace_close (h : t.kind = .bracket .closeBrace) :
    searchBrace index (inner + 1 + 1) nonEmpty (t :: ts) =
      searchBrace (index + 1) (inner + 1) nonEmpty ts := by
  simp [searchBrace, Token.isBracket, h]

theorem searchBrace_found (h : t.kind = .bracket .closeBrace) :
    searchBrace index 1 nonEmpty (t :: ts) = .found index nonEmpty := by
  simp [searchBrace, Token.isBracket, h]

theorem searchBrace_underflow (h : t.kind = .bracket .closeBrace) :
    searchBrace index 0 nonEmpty (t :: ts) = .underflow := by
  simp [searchBrace, Token.isBracket, h]

theorem searchBrace_other (h : t.isBrace = false) :
    searchBrace index depth nonEmpty (t :: ts) = searchBrace (index + 1) depth true ts := by
  rw [Token.isBrace, Bool.or_eq_false_iff] at h
  simp only [searchBrace, h, Bool.false_eq_true, ↓reduceIte]

/-- Where a brace is open, the search finds the end of the block or comes to the end of the tokens. -/
theorem searchBrace_inside (index inner : Nat) (nonEmpty : Bool) (ts : List Token) :
    searchBrace index (inner + 1) nonEmpty ts =
      (blockEnd? index inner nonEmpty ts).elim .exhausted fun found => .found found.1 found.2 := by
  induction ts generalizing index inner nonEmpty with
  | nil => rfl
  | cons t ts ih =>
    rcases t.brace_cases with h | h | h
    · rw [searchBrace_open h, blockEnd?_open h, ih]
    · cases inner with
      | zero => rw [searchBrace_found h, blockEnd?_found h, Option.elim_some]
      | succ inner => rw [searchBrace_close h, blockEnd?_close h, ih]
    · rw [searchBrace_other h, blockEnd?_other h, ih]

/-- In front of the first brace nothing is counted. -/
theorem searchBrace_skip (index : Nat) (nonEmpty : Bool) (ts : List Token) :
    let before := (ts.takeWhile fun t => !t.isBrace).length
    searchBrace index 0 nonEmpty ts = searchBrace (index + before) 0 (nonEmpty || decide (0 < before))
      (ts.dropWhile fun t => !t.isBrace) := by
  induction ts generalizing index nonEmpty with
  | nil => rfl
  | cons t ts ih =>
    by_cases h : t.isBrace = true
    · simp [h]
    · replace h : t.isBrace = false := by simpa using h
      rw [searchBrace_other h, ih]
      simp [h, Nat.add_assoc, Nat.add_comm 1]

/-- The extent of a block is what the search comes to, wherever it begins. -/
theorem matchingBrace_eq_search {tokens : List Token} {start : Nat} {o : Token}
    (ho : tokens[start]? = some o) : matchingBrace tokens start =
      match searchBrace start 0 false (tokens.drop start) with
      | .found e nonEmpty => .ok (e, nonEmpty)
      | .exhausted => .error (.unclosed ⟨.missingCloseBrace, o.span⟩)
      | .underflow => .error .unopened := by
  obtain ⟨hlt, rfl⟩ := List.getElem?_eq_some_iff.mp ho
  rw [matchingBrace, searchBrace_skip, List.drop_eq_getElem_cons hlt]
  dsimp only
  cases hrest : (tokens[start] :: tokens.drop (start + 1)).dropWhile fun t => !t.isBrace with
  | nil => rfl
  | cons brace inside =>
    dsimp only
    rcases brace.brace_cases with h | h | h
    · have hopen : brace.isBracket .openBrace = true := by simp [Token.isBracket, h]
      rw [searchBrace_open h, searchBrace_inside, if_pos hopen, Bool.false_or]
      cases blockEnd? _ 0 _ inside <;> rfl
    · have hopen : ¬ brace.isBracket .openBrace = true := by simp [Token.isBracket, h]
      rw [searchBrace_underflow h, if_neg hopen]
    · have hbrace := List.head?_dropWhile_not (fun t : Token => !t.isBrace)
        (tokens[start] :: tokens.drop (start + 1))
      rw [hrest] at hbrace
      exact absurd h (by simpa using hbrace)

end Search

/-- The places behind `start` up to which, from `start` on, as many braces are closed as opened. -/
def evenPlaces (tokens : List Token) (start : Nat) : Set Nat :=
  {e | start < e ∧ e < tokens.length ∧
    (tokens.extract start (e + 1)).countP (·.isBracket .closeBrace) =
      (tokens.extract start (e + 1)).countP (·.isBracket .openBrace)}

section EvenPlaces
variable {tokens rest : List Token} {start e : Nat} {o : Token}

/-- Behind a brace that opens, these are the places where the balance of what follows it is even. -/
theorem mem_evenPlaces_iff (hdrop : tokens.drop start = o :: rest) (ho : o.kind = .bracket .openBrace) :
    e ∈ evenPlaces tokens start ↔
      ∃ j, e = start + 1 + j ∧ j < rest.length ∧ 1 + braceBalance (rest.take (j + 1)) = 0 := by
  have hlength := congrArg List.length hdrop
  rw [List.length_drop, List.length_cons] at hlength
  have heven (j : Nat) : (tokens.extract start (start + 1 + j + 1)).countP (·.isBracket .closeBrace) =
      (tokens.extract start (start + 1 + j + 1)).countP (·.isBracket .openBrace) ↔
      1 + braceBalance (rest.take (j + 1)) = 0 := by
    have hcount : start + 1 + j + 1 - start = j + 1 + 1 := by omega
    rw [List.extract_eq_take_drop, hcount, hdrop, List.take_succ_cons, ← braceBalance_open ho,
      ← braceBalance_cons, braceBalance]
    omega
  constructor
  · rintro ⟨hstart, hlt, hcount⟩
    obtain ⟨j, rfl⟩ := Nat.exists_eq_add_of_le (Nat.succ_le_of_lt hstart)
    exact ⟨j, rfl, by omega, (heven j).mp hcount⟩
  · rintro ⟨j, rfl, hj, hbalance⟩
    exact ⟨by omega, by omega, (heven j).mpr hbalance⟩

/-- The first of them is where the block ends. -/
theorem isLeast_evenPlaces_iff (hdrop : tokens.drop start = o :: rest)
    (ho : o.kind = .bracket .openBrace) :
    IsLeast (evenPlaces tokens start) e ↔ ∃ j, e = start + 1 + j ∧ BlockEnds 1 rest j := by
  simp only [IsLeast, lowerBounds, mem_evenPlaces_iff hdrop ho]
  constructor
  · rintro ⟨⟨j, rfl, hj, hbalance⟩, hleast⟩
    refine ⟨j, rfl, hj, hbalance, fun i hi heven => ?_⟩
    have hle := hleast ⟨i, rfl, Nat.lt_trans hi hj, heven⟩
    omega
  · rintro ⟨j, rfl, h⟩
    refine ⟨⟨j, rfl, h.lt_length, h.even⟩, ?_⟩
    rintro _ ⟨i, rfl, hi, heven⟩
    by_contra hlt
    exact h.first i (by omega) heven

/-- The search from inside the block finds the first of them, and tells whether anything but a brace
stands in front of it. -/
theorem blockEnd?_eq_some_iff_isLeast {nonEmpty : Bool} (hdrop : tokens.drop start = o :: rest)
    (ho : o.kind = .bracket .openBrace) : blockEnd? (start + 1) 0 false rest = some (e, nonEmpty) ↔
      IsLeast (evenPlaces tokens start) e ∧
        (nonEmpty = true ↔ ∃ t ∈ tokens.extract (start + 1) e, t.isBrace = false) := by
  have hinside (j : Nat) : (nonEmpty = true ↔
      ∃ t ∈ tokens.extract (start + 1) (start + 1 + j), t.isBrace = false) ↔
      nonEmpty = (false || (rest.take j).any fun t => !t.isBrace) := by
    have hany : ((rest.take j).any fun t => !t.isBrace) = true ↔
        ∃ t ∈ rest.take j, t.isBrace = false := by
      simp only [List.any_eq_true, Bool.not_eq_true']
    rw [List.extract_eq_take_drop, Nat.add_sub_cancel_left, ← List.drop_drop, hdrop,
      List.drop_succ_cons, List.drop_zero, Bool.false_or, ← hany, ← Bool.eq_iff_iff]
  rw [blockEnd?_eq_some_iff, isLeast_evenPlaces_iff hdrop ho]
  constructor
  · rintro ⟨j, rfl, hj, hnonEmpty⟩
    exact ⟨⟨j, rfl, hj⟩, (hinside j).mpr hnonEmpty⟩
  · rintro ⟨⟨j, rfl, hj⟩, hnonEmpty⟩
    exact ⟨j, rfl, hj, (hinside j).mp hnonEmpty⟩

theorem blockEnd?_eq_none_iff (hdrop : tokens.drop start = o :: rest)
    (ho : o.kind = .bracket .openBrace) :
    blockEnd? (start + 1) 0 false rest = none ↔ evenPlaces tokens start = ∅ := by
  rw [← not_iff_not, ← ne_eq, Option.ne_none_iff_exists', ← ne_eq, ← Set.nonempty_iff_ne_empty]
  constructor
  · rintro ⟨⟨e, nonEmpty⟩, h⟩
    exact ⟨e, ((blockEnd?_eq_some_iff_isLeast hdrop ho).mp h).1.1⟩
  · intro hplaces
    obtain ⟨j, -, hj⟩ := (isLeast_evenPlaces_iff hdrop ho).mp (isLeast_csInf hplaces)
    exact ⟨_, blockEnd?_eq_some_iff.mpr ⟨j, rfl, hj, rfl⟩⟩

end EvenPlaces

/-- From a brace that opens, the block ends at the first place behind it up to which as many braces are
closed as opened, and it is not empty where a token between the two is no brace. Where there is no such
place, the brace is reported as not closed. The count of open braces never falls below zero. -/
theorem matchingBrace_first {tokens : List Token} {start : Nat} {o : Token}
    (ho : tokens[start]? = some o) (hopen : o.kind = .bracket .openBrace) :
    (∀ e nonEmpty, matchingBrace tokens start = .ok (e, nonEmpty) ↔
      IsLeast (evenPlaces tokens start) e ∧
        (nonEmpty = true ↔ ∃ t ∈ tokens.extract (start + 1) e, t.isBrace = false)) ∧
    (matchingBrace tokens start = .error (.unclosed ⟨.missingCloseBrace, o.span⟩) ↔
      evenPlaces tokens start = ∅) ∧
    searchBrace start 0 false (tokens.drop start) ≠ .underflow := by
  obtain ⟨hlt, rfl⟩ := List.getElem?_eq_some_iff.mp ho
  have hdrop := List.drop_eq_getElem_cons hlt
  have hsearch : searchBrace start 0 false (tokens.drop start) =
      (blockEnd? (start + 1) 0 false (tokens.drop (start + 1))).elim .exhausted
        fun found => .found found.1 found.2 := by
    rw [hdrop, searchBrace_open hopen, searchBrace_inside]
  have hmatch := matchingBrace_eq_search ho
  rw [hsearch] at hmatch
  refine ⟨fun e nonEmpty => ?_, ?_, ?_⟩
  · rw [← blockEnd?_eq_some_iff_isLeast hdrop hopen, hmatch]
    cases blockEnd? (start + 1) 0 false (tokens.drop (start + 1)) <;> simp
  · rw [← blockEnd?_eq_none_iff hdrop hopen, hmatch]
    cases blockEnd? (start + 1) 0 false (tokens.drop (start + 1)) <;> simp
  · rw [hsearch]
    cases blockEnd? (start + 1) 0 false (tokens.drop (start + 1)) <;> simp

/-- The tokens of `x { { } y } }`, where the last brace closes nothing. -/
def nestedBlock : List Token :=
  [⟨.identifier, "x", .origin⟩, ⟨.bracket .openBrace, "\x7b", .origin⟩,
    ⟨.bracket .openBrace, "\x7b", .origin⟩,
    ⟨.bracket .closeBrace, "\x7d", .origin⟩, ⟨.identifier, "y", .origin⟩,
    ⟨.bracket .closeBrace, "\x7d", .origin⟩, ⟨.bracket .closeBrace, "\x7d", .origin⟩]

theorem nestedBlock_first :
    matchingBrace nestedBlock 1 = .ok (5, true) ∧ IsLeast (evenPlaces nestedBlock 1) 5 ∧
      searchBrace 1 0 false (nestedBlock.drop 1) ≠ .underflow := by
  have hfirst := @matchingBrace_first nestedBlock 1 _ rfl rfl
  have hmatch : matchingBrace nestedBlock 1 = .ok (5, true) := by decide
  exact ⟨hmatch, ((hfirst.1 5 true).mp hmatch).1, hfirst.2.2⟩

end SlangScript
