import Mathlib.Logic.Relation
import SlangScript.Proofs.Counterparts
import SlangScript.Validity.Program

/-! What the checks make of corresponding tokens. Of the places of tokens they look at one thing only:
whether two of them stand on one line. Where this agrees, the checks come to the same verdict, and point
at tokens that correspond. -/
namespace SlangScript

/-- The same cause, with texts that are the same or differ as `V` allows. -/
inductive LexErrorKind.Corresponds (V : String → String → Prop) : LexErrorKind → LexErrorKind → Prop
  | same (kind : LexErrorKind) : LexErrorKind.Corresponds V kind kind
  | expectedOpenParen {s s' : String} (h : Relation.ReflGen V s s') :
    LexErrorKind.Corresponds V (.expectedOpenParen s) (.expectedOpenParen s')
  | missingCloseParen {s s' : String} (h : Relation.ReflGen V s s') :
    LexErrorKind.Corresponds V (.missingCloseParen s) (.missingCloseParen s')
  | invalidParameter {s s' : String} (keyword expected : String) (h : Relation.ReflGen V s s') :
    LexErrorKind.Corresponds V (.invalidParameter keyword s expected)
      (.invalidParameter keyword s' expected)
  | missingSemicolon {s s' : String} (keyword : String) (h : Relation.ReflGen V s s') :
    LexErrorKind.Corresponds V (.missingSemicolon keyword s) (.missingSemicolon keyword s')
  | expectedBlock {s s' : String} (h : Relation.ReflGen V s s') :
    LexErrorKind.Corresponds V (.expectedBlock s) (.expectedBlock s')
  | emptyBlock {s s' : String} (h : Relation.ReflGen V s s') :
    LexErrorKind.Corresponds V (.emptyBlock s) (.emptyBlock s')
  | invalidFunctionParameter {f f' s s' : String} (hf : Relation.ReflGen V f f')
    (h : Relation.ReflGen V s s') :
    LexErrorKind.Corresponds V (.invalidFunctionParameter f s) (.invalidFunctionParameter f' s')
  | invalidLineEntry {s s' : String} (h : Relation.ReflGen V s s') :
    LexErrorKind.Corresponds V (.invalidLineEntry s) (.invalidLineEntry s')

/-- The same cause at places that correspond. -/
structure LexError.Corresponds (V : String → String → Prop) (W : Span → Span → Prop)
    (e e' : LexError) : Prop where
  kind : e.kind.Corresponds V e'.kind
  place : W e.span e'.span

/-- Verdicts of the same sort, with results that `A` relates. -/
inductive Verdicts {α β : Type} (V : String → String → Prop) (W : Span → Span → Prop)
    (A : α → β → Prop) : Except LexError α → Except LexError β → Prop
  | ok {a : α} {b : β} (h : A a b) : Verdicts V W A (.ok a) (.ok b)
  | error {e e' : LexError} (h : e.Corresponds V W e') : Verdicts V W A (.error e) (.error e')

/-- Headers whose parts correspond. -/
structure HeaderTokens.Corresponds (V : String → String → Prop) (W : Span → Span → Prop)
    (h h' : HeaderTokens) : Prop where
  parameters : Counterparts V W h.parameters h'.parameters
  close : h.close.Counterpart V W h'.close
  rest : Counterparts V W h.rest h'.rest

/-- Places stand on one line exactly when those that correspond to them do. -/
def KeepsLines (W : Span → Span → Prop) : Prop :=
  ∀ s s' r r', W s s' → W r r' → (r'.line = s'.line ↔ r.line = s.line)

variable {V : String → String → Prop} {W : Span → Span → Prop}

theorem Verdicts.of_ok {α β : Type} {A : α → β → Prop} {a : α} {y : Except LexError β}
    (h : Verdicts V W A (.ok a) y) : ∃ b, y = .ok b ∧ A a b := by
  cases h with
  | ok h => exact ⟨_, rfl, h⟩

theorem Verdicts.bind {α β γ δ : Type} {A : α → β → Prop} {B : γ → δ → Prop}
    {x : Except LexError α} {y : Except LexError β} {f : α → Except LexError γ}
    {g : β → Except LexError δ} (h : Verdicts V W A x y)
    (hf : ∀ a b, A a b → Verdicts V W B (f a) (g b)) : Verdicts V W B (x >>= f) (y >>= g) := by
  cases h with
  | ok h => exact hf _ _ h
  | error h => exact .error h

section Tokens
variable {t u head head' : Token} {before before' : Option Token} {ts us rest rest' : List Token}

/-- The text of a token is the same, or differs as free texts may. -/
theorem Token.Counterpart.text (h : t.Counterpart V W u) : Relation.ReflGen V t.lexeme u.lexeme := by
  cases hfree : t.kind.hasFreeText with
  | true => exact .single (h.free hfree)
  | false =>
    rw [h.fixed hfree]

theorem Token.Counterpart.word (h : t.Counterpart V W u) (ht : t.kind.isWord = true) :
    u.lexeme = t.lexeme := by
  apply h.fixed
  cases hk : t.kind <;> rw [hk] at ht <;> first | rfl | cases ht

/-- Blocks are told by the kinds of tokens. -/
theorem Counterparts.blockEnd? (h : Counterparts V W ts us) (index inner : Nat) (nonEmpty : Bool) :
    blockEnd? index inner nonEmpty us = blockEnd? index inner nonEmpty ts := by
  induction h generalizing index inner nonEmpty with
  | nil => rfl
  | cons ht h ih =>
    simp only [SlangScript.blockEnd?, ht.isBracket, ih]

theorem checkBlock_corresponds {after after' : String} (hbefore : t.Counterpart V W u)
    (hafter : Relation.ReflGen V after after') (h : Counterparts V W ts us) :
    Verdicts V W Eq (checkBlock t after ts) (checkBlock u after' us) := by
  cases h with
  | nil => exact .error ⟨.expectedBlock hafter, hbefore.place⟩
  | cons hopening h =>
    rw [checkBlock, checkBlock, hopening.isBracket, Counterparts.blockEnd? h]
    split
    · split
      · exact .ok rfl
      · exact .error ⟨.emptyBlock hafter, hopening.place⟩
      · exact .error ⟨.same _, hopening.place⟩
    · exact .error ⟨.expectedBlock hafter, hbefore.place⟩

/-- A header ends at tokens that correspond, since it ends with its line. -/
theorem collect?_corresponds (hlines : KeepsLines W) (hhead : head.Counterpart V W head')
    (h : Counterparts V W ts us) : Option.Rel (HeaderTokens.Corresponds V W)
      (HeaderTokens.collect? head.span.line ts) (HeaderTokens.collect? head'.span.line us) := by
  induction h with
  | nil => exact .none
  | cons ht h ih =>
    rw [HeaderTokens.collect?, HeaderTokens.collect?, ht.isBracket]
    simp only [ne_eq, hlines _ _ _ _ hhead.place ht.place]
    split
    · exact .none
    · split
      · exact .some ⟨.nil, ht, h⟩
      · generalize HeaderTokens.collect? head.span.line _ = found at ih ⊢
        generalize HeaderTokens.collect? head'.span.line _ = found' at ih ⊢
        cases ih with
        | none => exact .none
        | some hmore => exact .some ⟨.cons ht hmore.parameters, hmore.close, hmore.rest⟩

theorem after_corresponds (hlines : KeepsLines W) (hhead : head.Counterpart V W head')
    (h : Counterparts V W ts us) : Verdicts V W (HeaderTokens.Corresponds V W)
      (HeaderTokens.after head ts) (HeaderTokens.after head' us) := by
  cases h with
  | nil => exact .error ⟨.expectedOpenParen hhead.text, hhead.place⟩
  | cons hopening h =>
    rw [HeaderTokens.after, HeaderTokens.after, hopening.isBracket]
    split
    · have hheader := collect?_corresponds hlines hhead h
      generalize HeaderTokens.collect? head.span.line _ = found at hheader ⊢
      generalize HeaderTokens.collect? head'.span.line _ = found' at hheader ⊢
      cases hheader with
      | none => exact .error ⟨.missingCloseParen hhead.text, hhead.place⟩
      | some hheader => exact .ok hheader
    · exact .error ⟨.expectedOpenParen hhead.text, hhead.place⟩

theorem refusal_corresponds (keyword : String) (slot : HeaderSlot) (h : t.Counterpart V W u) :
    (slot.refusal keyword t).Corresponds V W (slot.refusal keyword u) := by
  cases slot with
  | semicolon => exact ⟨.missingSemicolon keyword h.text, h.place⟩
  | _ => exact ⟨.invalidParameter keyword _ h.text, h.place⟩

/-- The first of two corresponding lists of parameters that its slot refuses. -/
theorem find?_slots_corresponds (h : Counterparts V W ts us) (shape : List HeaderSlot) :
    Option.Rel (fun p q => p.1.Counterpart V W q.1 ∧ q.2 = p.2)
      ((ts.zip shape).find? fun p => !p.2.accepts p.1.kind)
      ((us.zip shape).find? fun p => !p.2.accepts p.1.kind) := by
  induction h generalizing shape with
  | nil => exact .none
  | cons ht h ih =>
    cases shape with
    | nil => exact .none
    | cons slot shape =>
      simp only [List.zip_cons_cons, List.find?_cons, ht.kind]
      split
      · exact .some ⟨ht, rfl⟩
      · exact ih shape

theorem checkShape_corresponds (hhead : head.Counterpart V W head') (keyword : String)
    (shape : List HeaderSlot) (h : Counterparts V W ts us) :
    Verdicts V W Eq (checkShape head keyword shape ts) (checkShape head' keyword shape us) := by
  have hempty : us.isEmpty = ts.isEmpty := by cases h <;> rfl
  rw [checkShape, checkShape, hempty, h.length_eq]
  split
  · exact .error ⟨.same _, hhead.place⟩
  · split
    · exact .error ⟨.same _, hhead.place⟩
    · have hfound := find?_slots_corresponds h shape
      generalize (ts.zip shape).find? _ = found at hfound ⊢
      generalize (us.zip shape).find? _ = found' at hfound ⊢
      cases hfound with
      | none => exact .ok rfl
      | some hp =>
        obtain ⟨hparameter, hslot⟩ := hp
        dsimp only
        rw [hslot]
        exact .error (refusal_corresponds keyword _ hparameter)

theorem checkConstruct_corresponds (hlines : KeepsLines W) (hhead : head.Counterpart V W head')
    (c : Construct) (h : Counterparts V W ts us) :
    Verdicts V W Eq (checkConstruct head c ts) (checkConstruct head' c us) := by
  apply (after_corresponds hlines hhead h).bind
  intro header header' hheader
  split
  · exact .ok rfl
  · apply (checkShape_corresponds hhead _ _ hheader.parameters).bind
    intro _ _ _
    exact checkBlock_corresponds hheader.close .refl hheader.rest

theorem checkElse_corresponds (hhead : head.Counterpart V W head') (h : Counterparts V W ts us) :
    Verdicts V W Eq (checkElse head ts) (checkElse head' us) := by
  rw [checkElse, checkElse, h.any_head? fun t u ht => ht.isWord _]
  split
  · exact .ok rfl
  · exact checkBlock_corresponds hhead .refl h

theorem checkDefinition_corresponds (hhead : head.Counterpart V W head')
    (h : Counterparts V W ts us) :
    Verdicts V W Eq (checkDefinition head ts) (checkDefinition head' us) := by
  rw [checkDefinition, checkDefinition, h.any_head? fun t u ht => by rw [ht.kind]]
  split
  · exact .ok rfl
  · exact .error ⟨.same _, hhead.place⟩

theorem find?_arguments_corresponds (h : Counterparts V W ts us) :
    Option.Rel (Token.Counterpart V W) (ts.find? fun p => !p.kind.isArgument)
      (us.find? fun p => !p.kind.isArgument) := by
  induction h with
  | nil => exact .none
  | cons ht h ih =>
    simp only [List.find?_cons, ht.kind]
    split
    · exact .some ht
    · exact ih

theorem checkFunction_corresponds (hlines : KeepsLines W)
    (hbefore : Option.Rel (Token.Counterpart V W) before before')
    (hhead : head.Counterpart V W head') (h : Counterparts V W ts us) :
    Verdicts V W Eq (checkFunction before head ts) (checkFunction before' head' us) := by
  apply (after_corresponds hlines hhead h).bind
  intro header header' hheader
  have htrend : before'.any (·.isWord "trend") = before.any (·.isWord "trend") := by
    cases hbefore with
    | none => rfl
    | some hb => exact hb.isWord _
  have hfound := find?_arguments_corresponds hheader.parameters
  generalize header.parameters.find? _ = found at hfound ⊢
  generalize header'.parameters.find? _ = found' at hfound ⊢
  cases hfound with
  | some hp => exact .error ⟨.invalidFunctionParameter hhead.text hp.text, hp.place⟩
  | none =>
    dsimp only
    rw [htrend]
    split
    · exact checkBlock_corresponds hheader.close hhead.text hheader.rest
    · exact .ok rfl

/-- Entries stand on the line of the list, and numbers are spelled alike. -/
theorem checkEntries_corresponds (hlines : KeepsLines W) (lineCount : Nat)
    (hhead : head.Counterpart V W head') (hopening : t.Counterpart V W u)
    (h : Counterparts V W ts us) : Verdicts V W Eq
      (checkEntries lineCount head.span.line t ts) (checkEntries lineCount head'.span.line u us) := by
  induction h with
  | nil => exact .error ⟨.same _, hopening.place⟩
  | cons ht h ih =>
    rw [checkEntries, checkEntries, ht.kind]
    simp only [ne_eq, hlines _ _ _ _ hhead.place ht.place]
    split
    · exact .error ⟨.same _, hopening.place⟩
    · split
      · exact .ok rfl
      · exact ih
      · rename_i hk
        rw [ht.fixed (by rw [hk]; rfl)]
        split
        · exact ih
        · exact .error ⟨.same _, ht.place⟩
      · exact .error ⟨.invalidLineEntry ht.text, ht.place⟩

theorem checkLineList_corresponds (hlines : KeepsLines W) (lineCount : Nat)
    (hhead : head.Counterpart V W head') (h : Counterparts V W ts us) :
    Verdicts V W Eq (checkLineList lineCount head ts) (checkLineList lineCount head' us) := by
  cases h with
  | nil => exact .ok rfl
  | cons hsign h =>
    unfold checkLineList
    dsimp only
    rw [hsign.operator?]
    split
    · cases h with
      | nil => exact .error ⟨.same _, hsign.place⟩
      | cons hopening h =>
        dsimp only
        rw [hopening.isBracket]
        split
        · exact checkEntries_corresponds hlines lineCount hhead hopening h
        · exact .error ⟨.same _, hsign.place⟩
    · exact .ok rfl

theorem checkToken_corresponds (hlines : KeepsLines W) (lineCount : Nat)
    (hbefore : Option.Rel (Token.Counterpart V W) before before') (ht : t.Counterpart V W u)
    (h : Counterparts V W ts us) :
    Verdicts V W Eq (checkToken lineCount before t ts) (checkToken lineCount before' u us) := by
  rw [checkToken, checkToken, ht.kind]
  cases hk : t.kind with
  | keyword =>
    dsimp only
    rw [ht.fixed (by rw [hk]; rfl)]
    split
    · exact checkConstruct_corresponds hlines ht _ h
    · split
      · exact checkElse_corresponds ht h
      · exact .ok rfl
  | reservedWord =>
    dsimp only
    rw [ht.fixed (by rw [hk]; rfl)]
    split
    · exact checkDefinition_corresponds ht h
    · exact .ok rfl
  | function => exact checkFunction_corresponds hlines hbefore ht h
  | identifier =>
    have hline : u.lexeme = "line" ↔ t.lexeme = "line" := ht.lexeme_line hk
    dsimp only
    simp only [hline]
    split
    · exact checkLineList_corresponds hlines lineCount ht h
    · exact .ok rfl
  | _ => exact .ok rfl

/-- The checks of corresponding tokens come to the same verdict. -/
theorem checkTokens_corresponds (hlines : KeepsLines W) (lineCount : Nat)
    (hbefore : Option.Rel (Token.Counterpart V W) before before') (h : Counterparts V W ts us) :
    Verdicts V W Eq (checkTokens lineCount before ts) (checkTokens lineCount before' us) := by
  induction h generalizing before before' with
  | nil => exact .ok rfl
  | cons ht h ih =>
    apply (checkToken_corresponds hlines lineCount hbefore ht h).bind
    intro _ _ _
    exact ih (.some ht)

end Tokens

end SlangScript
