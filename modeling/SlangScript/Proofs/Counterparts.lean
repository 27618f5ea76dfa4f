import Mathlib.Data.List.Forall2
import SlangScript.Proofs.NestingCap

/-! Programs that correspond token by token. The parser looks at the kinds of tokens, at the spelling of
words, and at whether a name is `line`. Where these agree it does the same with both programs: places do
not matter to it, and texts that it does not look at are only carried into the tree. -/
namespace SlangScript

/-- Kinds of token whose text is looked at by nothing, but for the name `line`. -/
def TokenKind.hasFreeText : TokenKind → Bool
  | identifier | function | floatNumber | string => true
  | _ => false

/-- Sorts of node whose text is that of such a token. -/
def Tag.hasFreeText : Tag → Bool
  | identifier | functionCall | functionDef | floatNumber | string => true
  | _ => false

/-- Tokens that differ in places, as `W` allows, and in free texts, as `V` allows. -/
structure Token.Counterpart (V : String → String → Prop) (W : Span → Span → Prop) (t u : Token) :
    Prop where
  kind : u.kind = t.kind
  place : W t.span u.span
  isLine : u.isLine ↔ t.isLine
  free : t.kind.hasFreeText = true → V t.lexeme u.lexeme
  fixed : t.kind.hasFreeText = false → u.lexeme = t.lexeme

/-- Tokens that correspond one by one. -/
abbrev Counterparts (V : String → String → Prop) (W : Span → Span → Prop) :
    List Token → List Token → Prop := List.Forall₂ (Token.Counterpart V W)

/-- Trees that differ in free texts, as `V` allows. -/
inductive Tree.Corresponds (V : String → String → Prop) : Tree → Tree → Prop
  | free {tag : Tag} {s s' : String} {ts us : List Tree} (htag : tag.hasFreeText = true) (hs : V s s')
    (hts : List.Forall₂ (Tree.Corresponds V) ts us) :
    Tree.Corresponds V (.node tag (some s) ts) (.node tag (some s') us)
  | fixed {tag : Tag} {value : Option String} {ts us : List Tree} (htag : tag.hasFreeText = false)
    (hts : List.Forall₂ (Tree.Corresponds V) ts us) :
    Tree.Corresponds V (.node tag value ts) (.node tag value us)

/-- The same complaint about tokens that correspond. -/
inductive Mismatch.Corresponds (V : String → String → Prop) (W : Span → Span → Prop) :
    Mismatch → Mismatch → Prop
  | expected (kind : TokenKind) {found found' : Option Token}
    (h : Option.Rel (Token.Counterpart V W) found found') :
    Mismatch.Corresponds V W (.expected kind found) (.expected kind found')
  | expression {found found' : Option Token} (h : Option.Rel (Token.Counterpart V W) found found') :
    Mismatch.Corresponds V W (.expression found) (.expression found')
  | parameterType {t u : Token} (h : t.Counterpart V W u) :
    Mismatch.Corresponds V W (.parameterType t) (.parameterType u)
  | statement {found found' : Option Token} (h : Option.Rel (Token.Counterpart V W) found found') :
    Mismatch.Corresponds V W (.statement found) (.statement found')
  | tooDeep (limit : Nat) : Mismatch.Corresponds V W (.tooDeep limit) (.tooDeep limit)
  | emptyProgram : Mismatch.Corresponds V W .emptyProgram .emptyProgram
  | leftover {t u : Token} (h : t.Counterpart V W u) :
    Mismatch.Corresponds V W (.leftover t) (.leftover u)

structure Failure.Corresponds (V : String → String → Prop) (W : Span → Span → Prop)
    (f f' : Failure) : Prop where
  mismatch : f.mismatch.Corresponds V W f'.mismatch
  rest : Counterparts V W f.rest f'.rest

section Tokens
variable {V : String → String → Prop} {W : Span → Span → Prop} {t u : Token} {ts us : List Token}

namespace Token.Counterpart

theorem isWord (h : t.Counterpart V W u) (word : String) : u.isWord word = t.isWord word := by
  rw [Token.isWord, Token.isWord, h.kind]
  cases hword : t.kind.isWord with
  | false => rfl
  | true =>
    have hfree : t.kind.hasFreeText = false := by
      cases hk : t.kind <;> rw [hk] at hword <;> first | rfl | cases hword
    rw [h.fixed hfree]

theorem isBracket (h : t.Counterpart V W u) (b : Bracket) : u.isBracket b = t.isBracket b := by
  rw [Token.isBracket, Token.isBracket, h.kind]

theorem operator? (h : t.Counterpart V W u) : u.operator? = t.operator? := by
  rw [Token.operator?, Token.operator?, h.kind]

/-- A name is `line` in both programs or in neither. -/
theorem lexeme_line (h : t.Counterpart V W u) (ht : t.kind = .identifier) :
    u.lexeme = "line" ↔ t.lexeme = "line" := by
  have hisLine := h.isLine
  rw [Token.isLine, Token.isLine, h.kind, ht] at hisLine
  simpa using hisLine

/-- The leaf that stands for a token as an operand has its free text. -/
theorem operand (h : t.Counterpart V W u) {tag : Tag} (ht : Tag.ofOperand? t.kind = some tag) :
    (Tree.leaf tag t.lexeme).Corresponds V (.leaf tag u.lexeme) := by
  cases hk : t.kind <;> rw [hk] at ht <;> cases ht
  case integer =>
    rw [h.fixed (by rw [hk]; rfl)]
    exact .fixed rfl .nil
  all_goals exact .free rfl (h.free (by rw [hk]; rfl)) .nil

end Token.Counterpart

namespace Counterparts

theorem head? (h : Counterparts V W ts us) :
    Option.Rel (Token.Counterpart V W) ts.head? us.head? := by
  cases h with
  | nil => exact .none
  | cons ht h => exact .some ht

theorem tail (h : Counterparts V W ts us) : Counterparts V W ts.tail us.tail := by
  cases h with
  | nil => exact .nil
  | cons ht h => exact h

/-- What the kinds of tokens decide is decided alike of the next tokens. -/
theorem any_head? (h : Counterparts V W ts us) {p : Token → Bool}
    (hp : ∀ t u, t.Counterpart V W u → p u = p t) : us.head?.any p = ts.head?.any p := by
  cases h with
  | nil => rfl
  | cons ht h => exact hp _ _ ht

/-- Corresponding tokens open the same sort of statement. -/
theorem opening (h : Counterparts V W ts us) : Opening.of? us = Opening.of? ts := by
  cases h with
  | nil => rfl
  | cons ht h =>
    rename_i t u ts us
    have hassign : us.head?.any (·.operator? = some .assign) =
        ts.head?.any (·.operator? = some .assign) :=
      Counterparts.any_head? h fun t u ht => by rw [ht.operator?]
    rw [Opening.of?, Opening.of?, ht.kind]
    cases hk : t.kind with
    | keyword | reservedWord =>
      rw [ht.fixed (by rw [hk]; rfl)]
    | identifier =>
      simp only [ht.lexeme_line hk, hassign]
    | bracket b => cases b <;> rfl
    | _ => rfl

end Counterparts

end Tokens

/-- Outcomes of the same sort, with results that `A` relates. -/
inductive Outcomes {α β : Type} (V : String → String → Prop) (W : Span → Span → Prop)
    (A : α → β → Prop) :
    Except Failure (α × List Token) → Except Failure (β × List Token) → Prop
  | ok {a : α} {b : β} {rest rest' : List Token} (ha : A a b) (h : Counterparts V W rest rest') :
    Outcomes V W A (.ok (a, rest)) (.ok (b, rest'))
  | error {f f' : Failure} (h : f.Corresponds V W f') : Outcomes V W A (.error f) (.error f')

/-- Productions that do alike with corresponding tokens. -/
def Parallel {α β : Type} (V : String → String → Prop) (W : Span → Span → Prop) (A : α → β → Prop)
    (p : Production α) (q : Production β) : Prop :=
  ∀ ts us, Counterparts V W ts us → Outcomes V W A (p ts) (q us)

/-- A production of trees does alike with corresponding tokens. -/
def Uniform (V : String → String → Prop) (W : Span → Span → Prop) (p : Production Tree) : Prop :=
  Parallel V W (Tree.Corresponds V) p p

/-- Repetitions that stop alike. -/
inductive StopsAlike (V : String → String → Prop) (W : Span → Span → Prop) :
    Except Failure (List Token) → Except Failure (List Token) → Prop
  | ok {rest rest' : List Token} (h : Counterparts V W rest rest') :
    StopsAlike V W (.ok rest) (.ok rest')
  | error {f f' : Failure} (h : f.Corresponds V W f') : StopsAlike V W (.error f) (.error f')

variable {V : String → String → Prop} {W : Span → Span → Prop}

section Outcomes
variable {α β : Type} {A : α → β → Prop} {f : Failure} {a : α} {rest : List Token}
  {outcome : Except Failure (β × List Token)}

theorem Outcomes.of_ok (h : Outcomes V W A (.ok (a, rest)) outcome) :
    ∃ b rest', outcome = .ok (b, rest') ∧ A a b ∧ Counterparts V W rest rest' := by
  cases h with
  | ok ha h => exact ⟨_, _, rfl, ha, h⟩

theorem Outcomes.of_error (h : Outcomes V W A (.error f) outcome) :
    ∃ f', outcome = .error f' ∧ f.Corresponds V W f' := by
  cases h with
  | error h => exact ⟨_, rfl, h⟩

theorem Outcomes.mono {B : α → β → Prop} {first : Except Failure (α × List Token)}
    (h : Outcomes V W A first outcome) (hAB : ∀ a b, A a b → B a b) :
    Outcomes V W B first outcome := by
  cases h with
  | ok ha h => exact .ok (hAB _ _ ha) h
  | error h => exact .error h

end Outcomes

namespace Parallel
open Production
variable {α β γ δ : Type} {A : α → β → Prop} {B : γ → δ → Prop} {p : Production α}
  {q : Production β} {f : α → Production γ} {g : β → Production δ} {ts us rest : List Token} {a : α}

theorem of_ok (h : Parallel V W A p q) (hts : Counterparts V W ts us) (hp : p ts = .ok (a, rest)) :
    ∃ b rest', q us = .ok (b, rest') ∧ A a b ∧ Counterparts V W rest rest' := by
  have hq := h ts us hts
  rw [hp] at hq
  exact hq.of_ok

theorem of_error {e : Failure} (h : Parallel V W A p q) (hts : Counterparts V W ts us)
    (hp : p ts = .error e) : ∃ e', q us = .error e' ∧ e.Corresponds V W e' := by
  have hq := h ts us hts
  rw [hp] at hq
  exact hq.of_error

theorem mono {A' : α → β → Prop} (h : Parallel V W A p q) (hA : ∀ a b, A a b → A' a b) :
    Parallel V W A' p q := fun ts us hts => (h ts us hts).mono hA

theorem pure {a : α} {b : β} (h : A a b) : Parallel V W A (Pure.pure a) (Pure.pure b) :=
  fun _ _ hts => .ok h hts

theorem fail {m m' : Mismatch} (h : m.Corresponds V W m') :
    Parallel V W A (Production.fail m) (Production.fail m') := fun _ _ hts => .error ⟨h, hts⟩

theorem bind (hp : Parallel V W A p q) (hf : ∀ a b, A a b → Parallel V W B (f a) (g b)) :
    Parallel V W B (p >>= f) (q >>= g) := by
  intro ts us hts
  cases hpts : p ts with
  | error e =>
    obtain ⟨e', hqus, he⟩ := hp.of_error hts hpts
    rw [bind_eq_error.mpr (.inl hpts), bind_eq_error.mpr (.inl hqus)]
    exact .error he
  | ok r =>
    obtain ⟨a, mid⟩ := r
    obtain ⟨b, mid', hqus, ha, hmid⟩ := hp.of_ok hts hpts
    rw [run_bind hpts, run_bind hqus]
    exact hf a b ha mid mid' hmid

/-- Where both read the same, they go on alike from it. -/
theorem bind_eq {q : Production α} {g : α → Production δ} (hp : Parallel V W Eq p q)
    (hf : ∀ a, Parallel V W B (f a) (g a)) : Parallel V W B (p >>= f) (q >>= g) := by
  apply hp.bind
  rintro a _ rfl
  exact hf a

theorem look {f : List Token → α} {g : List Token → β}
    (h : ∀ ts us, Counterparts V W ts us → A (f ts) (g us)) :
    Parallel V W A (Production.look f) (Production.look g) := fun ts us hts => .ok (h ts us hts) hts

theorem current : Parallel V W (Option.Rel (Token.Counterpart V W)) current current :=
  look fun _ _ h => h.head?

theorem atKind (kind : TokenKind) : Parallel V W Eq (atKind kind) (atKind kind) :=
  look fun _ _ h => (h.any_head? fun t u ht => by rw [ht.kind]).symm

theorem skip : Parallel V W Eq skip skip := fun _ _ h => .ok rfl h.tail

theorem expect (kind : TokenKind) :
    Parallel V W (fun t u => t.Counterpart V W u ∧ t.kind = kind) (expect kind) (expect kind) := by
  intro ts us h
  cases h with
  | nil => exact .error ⟨.expected kind .none, .nil⟩
  | cons ht h =>
    rw [Production.expect, Production.expect, ht.kind]
    split
    · exact .ok ⟨ht, ‹_›⟩ h
    · exact .error ⟨.expected kind (.some ht), .cons ht h⟩

theorem accept? {recognise : Token → Option γ}
    (hr : ∀ t u, t.Counterpart V W u → recognise u = recognise t) :
    Parallel V W Eq (accept? recognise) (accept? recognise) := by
  intro ts us h
  cases h with
  | nil => exact .ok rfl .nil
  | cons ht h =>
    rw [Production.accept?, Production.accept?, hr _ _ ht]
    split
    · exact .ok rfl h
    · exact .ok rfl (.cons ht h)

theorem skipIf (kind : TokenKind) : Parallel V W Eq (skipIf kind) (skipIf kind) := by
  intro ts us h
  rw [Production.skipIf, Production.skipIf, h.any_head? fun t u ht => by rw [ht.kind]]
  split
  · exact .ok rfl h.tail
  · exact .ok rfl h

end Parallel

/-! ### Repetition -/

section Repetition
open Production
variable {α β : Type} {A : α → β → Prop} {round : Production (Option α)}
  {round' : Production (Option β)}

theorem Parallel.gather (h : Parallel V W (Option.Rel A) round round') {ts us : List Token}
    (hts : Counterparts V W ts us) : List.Forall₂ A (gather round ts).1 (gather round' us).1 ∧
      StopsAlike V W (gather round ts).2 (gather round' us).2 := by
  induction ts using Production.gather.induct round generalizing us with
  | case1 ts e he =>
    obtain ⟨e', hus, hee⟩ := h.of_error hts he
    rw [gather_of_error he, gather_of_error hus]
    exact ⟨.nil, .error hee⟩
  | case2 ts mid hmid =>
    obtain ⟨_, mid', hus, ⟨⟩, hrest⟩ := h.of_ok hts hmid
    rw [gather_of_none hmid, gather_of_none hus]
    exact ⟨.nil, .ok hrest⟩
  | case3 ts a mid hmid hlt more stop hm ih =>
    obtain ⟨_, mid', hus, ⟨ha⟩, hrest⟩ := h.of_ok hts hmid
    have hlt' : mid'.length < us.length := by rwa [← hts.length_eq, ← hrest.length_eq]
    rw [gather_of_some hmid hlt, gather_of_some hus hlt']
    exact ⟨.cons ha (ih hrest).1, (ih hrest).2⟩
  | case4 ts a mid hmid hlt =>
    obtain ⟨_, mid', hus, ⟨ha⟩, hrest⟩ := h.of_ok hts hmid
    have hlt' : ¬ mid'.length < us.length := by rwa [← hts.length_eq, ← hrest.length_eq]
    rw [gather_of_last hmid hlt, gather_of_last hus hlt']
    exact ⟨.cons ha .nil, .ok hrest⟩

theorem Parallel.many (h : Parallel V W (Option.Rel A) round round') :
    Parallel V W (List.Forall₂ A) (many round) (many round') := by
  intro ts us hts
  obtain ⟨hitems, hstop⟩ := h.gather hts
  rw [Production.many, Production.many]
  cases hg : Production.gather round ts with
  | mk items stop =>
    cases hg' : Production.gather round' us with
    | mk items' stop' =>
      rw [hg, hg'] at hitems hstop
      cases hstop with
      | ok hrest => exact .ok hitems hrest
      | error hf => exact .error hf

end Repetition

end SlangScript
