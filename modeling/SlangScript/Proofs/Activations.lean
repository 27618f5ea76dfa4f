import SlangScript.Proofs.Progress

/-! Productions at work within one another. The cursor goes forward from one to the next, and where it stays
the rank goes down, so that every production comes to its end. -/
namespace SlangScript

open Script

/-- All of this is so on the way from the first cursor to the second. -/
structure Progress.Holds (p : Progress) (c d : Cursor) : Prop where
  tokens : d.stream.tokens = c.stream.tokens
  forward : c.stream.position ≤ d.stream.position
  inside : d.stream.position ≤ d.stream.tokens.length
  depth : d.depth = c.depth + p.opened
  nesting : d.depth ≤ maxNesting
  taken : p.taken = true → c.stream.position < d.stream.position
  left : p.left = true → d.stream.position < d.stream.tokens.length

theorem Cursor.lt_of_isSome {c : Cursor} (h : c.stream.current?.isSome = true) :
    c.stream.position < c.stream.tokens.length := by
  simpa [TokenStream.current?, TokenStream.peek?] using h

namespace Progress.Holds
variable {p : Progress} {c d : Cursor}

/-- What the next token is tells whether there is one. -/
theorem look (h : p.Holds c d) {left : Bool} (hleft : left = true → d.stream.current?.isSome = true) :
    Holds { p with left } c d :=
  { h with left := fun hl => Cursor.lt_of_isSome (hleft hl) }

theorem ne_nil (h : p.Holds c d) (hleft : p.left = true) : d.remaining ≠ [] := by
  have := h.left hleft
  simpa [Cursor.remaining, TokenStream.remaining] using this

theorem record (h : p.Holds c d) (message : String) : p.Holds c (d.record message) :=
  { h with }

/-- A token is taken. -/
theorem take (h : p.Holds c d) {t : Token} {ts : List Token} (hd : d.remaining = t :: ts) :
    Holds ⟨true, false, p.opened⟩ c (d.moveTo ts) := by
  have hlength := (show d.At (maxNesting - d.depth) from
    ⟨h.inside, Nat.add_sub_of_le h.nesting⟩).length_remaining
  rw [hd, List.length_cons] at hlength
  have hmove : d.stream.position < (d.moveTo ts).stream.position := by
    simp only [Cursor.moveTo]
    omega
  exact {
    tokens := h.tokens
    forward := h.forward.trans hmove.le
    inside := Nat.sub_le _ _
    depth := h.depth
    nesting := h.nesting
    taken := fun _ => h.forward.trans_lt hmove
    left := fun hleft => absurd hleft Bool.false_ne_true }

theorem expect (h : p.Holds c d) (expected : String) (accepts : Token → Bool) :
    ∃ t e, Walk.expect expected accepts d = some (t, e) ∧
      Holds ⟨p.taken || t.isSome, false, p.opened⟩ c e := by
  have hstay : Holds ⟨p.taken, false, p.opened⟩ c d := h.look nofun
  cases hd : d.remaining with
  | nil => exact ⟨none, _, Walk.expect_end hd, by simpa using hstay.record _⟩
  | cons t ts =>
    cases ht : accepts t with
    | true => exact ⟨some t, _, Walk.expect_taken hd ht, by simpa using h.take hd⟩
    | false => exact ⟨none, _, Walk.expect_refused hd ht, by simpa using hstay.record _⟩

end Progress.Holds

/-- A walk ends as it does with nothing behind it. -/
theorem Walk.run_alone {α : Type} {m : Walk α} {c d : Cursor} {a : α}
    (h : (m >>= Pure.pure) c = (Pure.pure a : Walk α) d) : m c = some (a, d) :=
  (congrFun (bind_pure m) c).symm.trans h

/-- Every step ends, and what is known behind it holds. -/
theorem Step.holds {α : Type} (s : Step α) {p : Progress} {c d : Cursor} (h : p.Holds c d)
    (hs : s.Allowed p) : ∃ a e, s.walk d = some (a, e) ∧ (s.after a p).Holds c e := by
  cases s with
  | current => exact ⟨_, d, rfl, h.look id⟩
  | peekIsAssign offset => exact ⟨_, d, rfl, h⟩
  | advance =>
    cases hd : d.remaining with
    | nil =>
      refine ⟨none, d, Walk.run_alone (Walk.run_advance_end hd pure), { h with taken := ?_, left := nofun }⟩
      intro htaken
      have hleft : p.left = false := by
        rw [← Bool.not_eq_true]
        intro hl
        simpa [hd] using h.ne_nil hl
      exact h.taken (by simpa [Step.after, hleft] using htaken)
    | cons t ts =>
      exact ⟨some t, _, Walk.run_alone (Walk.run_advance hd pure), by simpa using h.take hd⟩
  | report message => exact ⟨(), _, rfl, h.record message⟩
  | errorCount => exact ⟨_, d, rfl, h⟩
  | expectKind kind => exact h.expect _ _
  | expectWord word => exact h.expect _ _
  | checkWord word => exact ⟨_, d, rfl, h.look Option.isSome_of_any⟩
  | checkKind kind => exact ⟨_, d, rfl, h.look Option.isSome_of_any⟩
  | currentOperator => exact ⟨_, d, rfl, h.look Option.isSome_of_isSome_bind⟩
  | skipDelimiter delimiter =>
    by_cases hnext : Next (·.kind ≠ .delimiter delimiter) d.remaining
    · have hskip := Walk.run_skipDelimiter_not hnext pure
      have hstay : Progress.Holds ⟨p.taken, false, p.opened⟩ c d := h.look nofun
      exact ⟨false, d, Walk.run_alone hskip, by simpa using hstay⟩
    · obtain ⟨t, ts, hts, ht⟩ := exists_next_of_not hnext
      have hskip := Walk.run_skipDelimiter hts (Decidable.not_not.mp ht) pure
      exact ⟨true, _, Walk.run_alone hskip, by simpa using h.take hts⟩
  | canStartStatement =>
    refine ⟨_, d, Walk.run_alone (Walk.run_canStartStatement pure d), h.look fun hstart => ?_⟩
    rw [Cursor.current?_eq]
    cases hd : d.remaining with
    | nil => simp [hd, Opening.of?] at hstart
    | cons t ts => rfl
  | enter =>
    by_cases hfull : maxNesting ≤ d.depth
    · exact ⟨false, _, if_pos hfull, h.record _⟩
    · refine ⟨true, _, if_neg hfull, { h with depth := ?_, nesting := Nat.not_le.mp hfull }⟩
      exact congrArg (· + 1) h.depth
  | leave =>
    refine ⟨(), _, rfl, { h with depth := ?_, nesting := (Nat.sub_le _ _).trans h.nesting }⟩
    have hopened : 0 < p.opened := hs
    have hdepth := h.depth
    simp only [Step.after]
    omega

theorem Callee.rank_le {α : Type} (r : Callee α) : r.rank ≤ 5 := by
  cases r with
  | routine r => cases r <;> simp
  | _ => simp

/-- A production at work: which one it is, and the cursor it has been called with. -/
structure Activation where
  {result : Type}
  callee : Callee result
  cursor : Cursor

/-- The script makes this call when it runs with this cursor. What stands behind a call comes about only where
that call has ended. -/
def Script.Calls {α : Type} : Script α → Cursor → Activation → Prop
  | .pure _, _, _ => False
  | .step s next, c, b => ∃ x d, s.walk c = some (x, d) ∧ (next x).Calls d b
  | .call r next, c, b => b = ⟨r, c⟩ ∨ ∃ x d, Yields r.walk c x d ∧ (next x).Calls d b

namespace Activation

/-- The first production calls the second. That a production does what its script does is
`Callee.run_script`. -/
def Calls (a b : Activation) : Prop := a.callee.script.Calls a.cursor b

abbrev position (a : Activation) : Nat := a.cursor.stream.position

/-- The remaining tokens, and where these are as many, the rank. -/
def measure (a : Activation) : Nat := 6 * a.cursor.remaining.length + a.callee.rank

/-- The production has been called in these tokens, and in front of one of them where it needs one. -/
structure Proper (a : Activation) (ts : List Token) : Prop where
  inTokens : a.cursor.Over ts
  atToken : a.callee.atToken = true → a.position < ts.length

/-- From the first production to the second a token has been taken, or the second is of lower rank. -/
structure Descends (a b : Activation) : Prop where
  tokens : b.cursor.stream.tokens = a.cursor.stream.tokens
  forward : a.position ≤ b.position
  further : a.position < b.position ∨ b.callee.rank < a.callee.rank

/-- The production comes to its end. It has gone forward in the same tokens, if it has moved, and as many
levels are open as before. Unless it may yield something without a token, it has taken one where it yields
something. -/
def Ends (a : Activation) : Prop :=
  ∃ x d, Yields a.callee.walk a.cursor x d ∧ a.cursor.GoesOn d ∧
    (a.callee.advances x = true → a.position < d.stream.position)

variable {a b c : Activation} {ts : List Token} {p : Progress} {d : Cursor}

theorem Descends.trans (hab : a.Descends b) (hbc : b.Descends c) : a.Descends c where
  tokens := hbc.tokens.trans hab.tokens
  forward := hab.forward.trans hbc.forward
  further := by
    have := hab.forward
    have := hbc.forward
    have := hab.further
    have := hbc.further
    omega

theorem Descends.measure_lt (h : a.Descends b) (ha : a.Proper ts) (hb : b.Proper ts) :
    b.measure < a.measure := by
  have hla : a.cursor.remaining.length + a.position = _ := ha.inTokens.at.length_remaining
  have hlb : b.cursor.remaining.length + b.position = _ := hb.inTokens.at.length_remaining
  have hrank := b.callee.rank_le
  have hforward := h.forward
  have hfurther := h.further
  rw [h.tokens] at hlb
  rw [measure, measure]
  omega

theorem proper_of_holds {β : Type} {q : Callee β} (ha : a.Proper ts) (h : p.Holds a.cursor d)
    (hq : q.atToken = true → p.left = true) : Proper ⟨q, d⟩ ts where
  inTokens := ⟨h.tokens.trans ha.inTokens.tokens, by
    rw [← ha.inTokens.tokens, ← h.tokens]
    exact h.inside, h.nesting⟩
  atToken := fun hat => by
    rw [← ha.inTokens.tokens, ← h.tokens]
    exact h.left (hq hat)

theorem descends_of_holds {β : Type} {q : Callee β} (h : p.Holds a.cursor d)
    (hq : p.taken = true ∨ q.rank < a.callee.rank) : a.Descends ⟨q, d⟩ where
  tokens := h.tokens
  forward := h.forward
  further := hq.imp_left h.taken

/-- Behind a call as much is known as it makes sure of. -/
theorem holds_of_ends {β : Type} {q : Callee β} {e : Cursor} {x : β} (h : p.Holds a.cursor d)
    (hgo : d.GoesOn e) (hmove : q.advances x = true → d.stream.position < e.stream.position) :
    Progress.Holds ⟨p.taken || q.advances x, false, p.opened⟩ a.cursor e where
  tokens := hgo.tokens.trans h.tokens
  forward := h.forward.trans hgo.forward
  inside := hgo.inside
  depth := hgo.depth.trans h.depth
  nesting := hgo.depth ▸ h.nesting
  taken := fun htaken => by
    rw [Bool.or_eq_true] at htaken
    obtain htaken | hadvances := htaken
    · exact (h.taken htaken).trans_le hgo.forward
    · exact h.forward.trans_lt (hmove hadvances)
  left := nofun

theorem goesOn_of_holds (h : p.Holds a.cursor d) (hopened : p.opened = 0) : a.cursor.GoesOn d where
  tokens := h.tokens
  forward := h.forward
  inside := h.inside
  depth := by rw [h.depth, hopened, Nat.add_zero]

/-- An orderly script ends if all ends that it calls. -/
theorem script_ends (ha : a.Proper ts) (hcalls : ∀ b, b.Proper ts → a.Descends b → b.Ends)
    (s : Script a.result) (hs : s.Orderly a.callee p) (h : p.Holds a.cursor d) :
    ∃ x e, Yields (fun n => s.run n) d x e ∧ a.cursor.GoesOn e ∧
      (a.callee.advances x = true → a.position < e.stream.position) := by
  induction s generalizing p d with
  | pure x =>
    exact ⟨x, d, .of_forall fun _ => rfl, goesOn_of_holds h hs.2, fun hx => h.taken (hs.1 hx)⟩
  | step s next ih =>
    obtain ⟨x, e, hwalk, he⟩ := s.holds h hs.1
    obtain ⟨y, f, hrun, hf⟩ := ih x (hs.2 x) he
    exact ⟨y, f, .bind (.of_forall fun _ => hwalk) hrun, hf⟩
  | call q next ih =>
    obtain ⟨x, e, hwalk, hgo, hmove⟩ :=
      hcalls ⟨q, d⟩ (proper_of_holds ha h hs.2.1) (descends_of_holds h hs.1)
    obtain ⟨y, f, hrun, hf⟩ := ih x (hs.2.2 x) (holds_of_ends h hgo hmove)
    exact ⟨y, f, hwalk.bind hrun, hf⟩

theorem start_holds (ha : a.Proper ts) :
    Progress.Holds ⟨false, a.callee.atToken, 0⟩ a.cursor a.cursor where
  tokens := rfl
  forward := le_rfl
  inside := ha.inTokens.at.inside
  depth := rfl
  nesting := ha.inTokens.depth
  taken := nofun
  left := ha.inTokens.tokens ▸ ha.atToken

/-- The induction is on the measure: whatever is called has a lower one. -/
theorem Proper.ends (ha : a.Proper ts) : a.Ends := by
  induction hn : a.measure using Nat.strongRecOn generalizing a with
  | ind n ih =>
    subst hn
    obtain ⟨x, e, hrun, he⟩ := script_ends ha
      (fun b hb hab => ih _ (hab.measure_lt ha hb) hb rfl) _ a.callee.orderly (start_holds ha)
    exact ⟨x, e, a.callee.yields_of_script hrun, he⟩

/-- What an orderly script calls is of lower rank, or stands behind a token that has been taken. -/
theorem script_calls (ha : a.Proper ts) (s : Script a.result) (hs : s.Orderly a.callee p)
    (h : p.Holds a.cursor d) (hb : s.Calls d b) : b.Proper ts ∧ a.Descends b := by
  induction s generalizing p d with
  | pure x => exact hb.elim
  | step s next ih =>
    obtain ⟨x, e, hwalk, he⟩ := s.holds h hs.1
    obtain ⟨y, f, hwalk', hb⟩ := hb
    cases hwalk.symm.trans hwalk'
    exact ih x (hs.2 x) he hb
  | call q next ih =>
    have hq : Proper ⟨q, d⟩ ts := proper_of_holds ha h hs.2.1
    obtain rfl | ⟨y, f, hyields, hb⟩ := hb
    · exact ⟨hq, descends_of_holds h hs.1⟩
    · obtain ⟨x, e, hwalk, hgo, hmove⟩ := hq.ends
      obtain ⟨rfl, rfl⟩ := hwalk.unique hyields
      exact ih x (hs.2.2 x) (holds_of_ends h hgo hmove) hb

theorem Calls.descends (h : a.Calls b) (ha : a.Proper ts) : b.Proper ts ∧ a.Descends b :=
  script_calls ha _ a.callee.orderly (start_holds ha) h

theorem nested_descends (ha : a.Proper ts) (h : Relation.TransGen Calls a b) :
    b.Proper ts ∧ a.Descends b := by
  induction h with
  | single h => exact h.descends ha
  | tail _ h ih =>
    obtain ⟨hb, hdescends⟩ := h.descends ih.1
    exact ⟨hb, ih.2.trans hdescends⟩

theorem Descends.position_lt (h : a.Descends b) (hsame : a.callee.Same b.callee) :
    a.position < b.position :=
  h.further.resolve_right (hsame.rank_eq ▸ lt_irrefl _)

end Activation

open Activation

/-- Every production comes to its end wherever it is called, with something yielded or nothing: as many levels
are open again, the tokens are the same, and the cursor has not moved back nor past their end. Where something
is yielded it has moved forward, unless there may be nothing to take. A production at work within another one
stands no further back, and a token has been taken in between if both are the same; a loop, too, goes on by
calling itself. So the remaining tokens, and then the rank, go down from call to call, and a program comes to
the end that `parse` gives it. -/
theorem activations_descend (ts : List Token) :
    Yields Callee.program.walk (.start ts) (parse ts).tree (.final ts (parse ts).errors) ∧
    ∀ a : Activation, a.Proper ts →
      a.Ends ∧ ∀ b, Relation.TransGen Calls a b →
        b.Proper ts ∧ a.position ≤ b.position ∧ (a.callee.Same b.callee → a.position < b.position) ∧
          b.measure < a.measure := by
  refine ⟨Walk.program_yields .plain ts, fun a ha => ⟨ha.ends, fun b hab => ?_⟩⟩
  obtain ⟨hb, hdescends⟩ := nested_descends ha hab
  exact ⟨hb, hdescends.forward, hdescends.position_lt, hdescends.measure_lt ha hb⟩

/-- The tokens of `{ { } }`. -/
def blockInBlock : List Token :=
  [⟨.bracket .openBrace, "\x7b", .origin⟩, ⟨.bracket .openBrace, "\x7b", .origin⟩,
    ⟨.bracket .closeBrace, "\x7d", .origin⟩, ⟨.bracket .closeBrace, "\x7d", .origin⟩]

/-- The statements in the first pair of braces are read behind one token. -/
theorem blockInBlock_descends :
    let outer : Activation := ⟨.statements, .start blockInBlock⟩
    let inner : Activation := ⟨.statements, ⟨⟨blockInBlock, 1⟩, [], 1⟩⟩
    outer.Proper blockInBlock ∧ outer.Ends ∧ Relation.TransGen Calls outer inner ∧
      outer.callee.Same inner.callee ∧ outer.position < inner.position := by
  intro outer inner
  have hproper : outer.Proper blockInBlock := ⟨⟨rfl, Nat.zero_le _, Nat.zero_le _⟩, nofun⟩
  let block : Activation := ⟨.routine .block, outer.cursor⟩
  let body : Activation := ⟨.routine .bracedBody, { outer.cursor with depth := 1 }⟩
  have hblock : Relation.TransGen Calls outer block := by
    have hstatement : outer.Calls ⟨.routine .statement, outer.cursor⟩ := ⟨true, _, rfl, .inl rfl⟩
    exact .head hstatement (.single ⟨some _, _, rfl, .inl rfl⟩)
  have hbody : Relation.TransGen Calls block body := by
    have hlist : block.Calls ⟨.routine .bracedList, outer.cursor⟩ := .inl rfl
    exact .head hlist (.single ⟨true, _, rfl, .inl rfl⟩)
  have hinner : body.Calls inner := ⟨some _, _, rfl, 0, _, rfl, .inl rfl⟩
  have hcalls := (hblock.trans hbody).tail hinner
  have hdescends := (activations_descend blockInBlock).2 outer hproper
  exact ⟨hproper, hdescends.1, hcalls, .refl _, (hdescends.2 inner hcalls).2.2.1 (.refl _)⟩

end SlangScript
