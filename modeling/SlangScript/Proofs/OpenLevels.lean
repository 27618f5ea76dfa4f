import SlangScript.Proofs.NestingCap

/-! How many levels are open at a place among the tokens, and what productions keep of that. It is told
from the tokens in front of the place alone, with a stack of brackets. -/
namespace SlangScript

/-- A bracket of any sort. -/
def TokenKind.isBracket : TokenKind → Bool
  | bracket _ => true
  | _ => false

/-- A parenthesis behind this token belongs to a header, to arguments or to parameters. Behind any other
it groups. -/
def Token.heads (t : Token) : Bool :=
  t.kind = .function || t.kind.isWord && (Construct.ofKeyword? t.lexeme).isSome

/-- What stands in front of a place: the token there, and for each bracket that is still open, from the
innermost one on, whether it takes up a level. -/
structure Nesting where
  before : Option Token
  brackets : List Bool

namespace Nesting

def start : Nesting := ⟨none, []⟩

/-- One token further on. The bracket of a line list counts as that of an array literal, from which only
the statement around it tells it apart. It takes up no level, but no limit is exceeded in it either
(`Level.lineList_not_deep`). -/
def step (s : Nesting) (t : Token) : Nesting where
  before := some t
  brackets := match t.kind with
    | .bracket .openParen => (!s.before.any Token.heads) :: s.brackets
    | .bracket .openBracket | .bracket .openBrace => true :: s.brackets
    | .bracket _ => s.brackets.tail
    | _ => s.brackets

def after (s : Nesting) (ts : List Token) : Nesting := ts.foldl step s

def levels (s : Nesting) : Nat := s.brackets.count true

/-- A block must follow, the token in front of the place being `else` or a closing parenthesis. -/
def BlockDue (s : Nesting) : Prop :=
  ∃ t, s.before = some t ∧ (t.kind = .bracket .closeParen ∨ t.isWord "else" = true)

/-- A bracket is opened next, or a block must follow. -/
def Deepens (s : Nesting) (ts : List Token) : Prop :=
  (∃ t rest, ts = t :: rest ∧ t.opens = true) ∨ s.BlockDue

variable {s : Nesting} {t : Token} {w v : List Token} {b : Bracket}

@[simp] theorem after_cons (s : Nesting) (t : Token) (ts : List Token) :
    s.after (t :: ts) = (s.step t).after ts := rfl

theorem after_append (s : Nesting) (w v : List Token) : s.after (w ++ v) = (s.after w).after v :=
  List.foldl_append

@[simp] theorem step_before (s : Nesting) (t : Token) : (s.step t).before = some t := rfl

/-- A token that is no bracket leaves the brackets as they are. -/
theorem step_other (h : t.kind.isBracket = false) : (s.step t).brackets = s.brackets := by
  rw [step]
  cases hk : t.kind with
  | bracket b =>
    rw [hk] at h
    cases h
  | _ => rfl

theorem step_close (h : t.kind = .bracket b) (hb : b ∈ [.closeParen, .closeBracket, .closeBrace]) :
    (s.step t).brackets = s.brackets.tail := by
  rw [step, h]
  cases b with
  | closeParen | closeBracket | closeBrace => rfl
  | _ => simp at hb

theorem step_open (h : t.kind = .bracket b) (hb : b ∈ [.openBracket, .openBrace]) :
    (s.step t).brackets = true :: s.brackets := by
  rw [step, h]
  cases b with
  | openBracket | openBrace => rfl
  | _ => simp at hb

theorem step_paren (h : t.kind = .bracket .openParen) :
    (s.step t).brackets = (!s.before.any Token.heads) :: s.brackets := by
  rw [step, h]

end Nesting

/-- How many braced lists, array literals and grouping parentheses are open behind the tokens, where no
line list is. -/
def openLevels (ts : List Token) : Nat := (Nesting.start.after ts).levels

/-- What is said of a place, by what stands in front of it and by the tokens ahead. -/
abbrev Assertion : Type := Nesting → List Token → Prop

/-- So many levels are open, and one more is about to be opened. -/
structure Exceeds (limit : Nat) (s : Nesting) (ts : List Token) : Prop where
  levels : s.levels = limit
  deepens : s.Deepens ts

/-- From a place of which `P` is said, the production comes to one of which `Q` is said, or it fails. It
complains about the depth only where the limit is about to be exceeded. -/
def Leads {α : Type} (limit : Nat) (P : Assertion) (p : Production α) (Q : α → Assertion) : Prop :=
  ∀ s ts, P s ts → match p ts with
    | .ok (a, rest) => ∃ w, ts = w ++ rest ∧ Q a (s.after w) rest
    | .error f => ∃ w, ts = w ++ f.rest ∧
        ∀ l, f.mismatch = .tooDeep l → Exceeds limit (s.after w) f.rest

namespace Leads
open Production
variable {α β : Type} {limit : Nat} {P P' : Assertion} {p : Production α} {f : α → Production β}
  {Q Q' : α → Assertion} {R : β → Assertion} {s : Nesting} {ts rest : List Token}

theorem of_ok (h : Leads limit P p Q) (hs : P s ts) {a : α} (hp : p ts = .ok (a, rest)) :
    ∃ w, ts = w ++ rest ∧ Q a (s.after w) rest := by
  have := h s ts hs
  rwa [hp] at this

theorem of_error (h : Leads limit P p Q) (hs : P s ts) {e : Failure} (hp : p ts = .error e) :
    ∃ w, ts = w ++ e.rest ∧
      ∀ l, e.mismatch = .tooDeep l → Exceeds limit (s.after w) e.rest := by
  have := h s ts hs
  rwa [hp] at this

theorem intro (hok : ∀ s ts a rest, P s ts → p ts = .ok (a, rest) →
      ∃ w, ts = w ++ rest ∧ Q a (s.after w) rest)
    (herror : ∀ s ts e, P s ts → p ts = .error e → ∃ w, ts = w ++ e.rest ∧
      ∀ l, e.mismatch = .tooDeep l → Exceeds limit (s.after w) e.rest) : Leads limit P p Q := by
  intro s ts hs
  split
  · exact hok s ts _ _ hs ‹_›
  · exact herror s ts _ hs ‹_›

theorem weaken (h : Leads limit P p Q) (hP : ∀ s ts, P' s ts → P s ts) : Leads limit P' p Q :=
  fun s ts hs => h s ts (hP s ts hs)

theorem mono (h : Leads limit P p Q) (hQ : ∀ a s ts, Q a s ts → Q' a s ts) : Leads limit P p Q' := by
  refine .intro (fun s ts a rest hs hp => ?_) fun s ts e hs hp => h.of_error hs hp
  obtain ⟨w, hts, hw⟩ := h.of_ok hs hp
  exact ⟨w, hts, hQ a _ _ hw⟩

theorem pure {a : α} (h : ∀ s ts, P s ts → Q a s ts) : Leads limit P (Pure.pure a) Q :=
  fun s ts hs => ⟨[], rfl, h s ts hs⟩

theorem fail {m : Mismatch} (hm : ∀ l, m ≠ .tooDeep l) : Leads limit P (Production.fail m) Q :=
  fun _ _ _ => ⟨[], rfl, fun l hl => absurd hl (hm l)⟩

theorem tooDeep {l : Nat} (h : ∀ s ts, P s ts → Exceeds limit s ts) :
    Leads limit P (Production.tooDeep l : Production α) Q :=
  fun s ts hs => ⟨[], rfl, fun _ _ => h s ts hs⟩

theorem look {γ : Type} {g : List Token → γ} {k : γ → Production β}
    (h : ∀ c, Leads limit (fun s ts => P s ts ∧ g ts = c) (k c) R) :
    Leads limit P (Production.look g >>= k) R := fun s ts hs => h (g ts) s ts ⟨hs, rfl⟩

theorem bind (hp : Leads limit P p Q) (hf : ∀ a, Leads limit (Q a) (f a) R) :
    Leads limit P (p >>= f) R := by
  refine .intro (fun s ts b rest hs h => ?_) fun s ts e hs h => ?_
  · obtain ⟨a, mid, ha, hb⟩ := bind_eq_ok.mp h
    obtain ⟨w, rfl, hw⟩ := hp.of_ok hs ha
    obtain ⟨v, rfl, hv⟩ := (hf a).of_ok hw hb
    exact ⟨w ++ v, by simp, by rwa [Nesting.after_append]⟩
  · rcases bind_eq_error.mp h with h | ⟨a, mid, ha, hb⟩
    · exact hp.of_error hs h
    · obtain ⟨w, rfl, hw⟩ := hp.of_ok hs ha
      obtain ⟨v, hmid, hv⟩ := (hf a).of_error hw hb
      exact ⟨w ++ v, by rw [List.append_assoc, ← hmid], by rwa [Nesting.after_append]⟩

theorem skip {Q : Unit → Assertion} (hnil : ∀ s, ¬ P s [])
    (h : ∀ s t ts, P s (t :: ts) → Q () (s.step t) ts) : Leads limit P Production.skip Q := by
  intro s ts hs
  cases ts with
  | nil => exact absurd hs (hnil s)
  | cons t ts => exact ⟨[t], rfl, h s t ts hs⟩

theorem expect {kind : TokenKind} {Q : Token → Assertion}
    (h : ∀ s t ts, P s (t :: ts) → t.kind = kind → Q t (s.step t) ts) :
    Leads limit P (Production.expect kind) Q := by
  refine .intro (fun s ts t rest hs hp => ?_) fun s ts e hs hp => ⟨[], (expect_eq_error hp).symm, ?_⟩
  · obtain ⟨rfl, ht⟩ := expect_eq_ok.mp hp
    exact ⟨[t], rfl, h s t rest hs ht⟩
  · exact fun l hl => absurd hl (expect_not_deep hp l)

theorem accept? {recognise : Token → Option α} {Q : Option α → Assertion}
    (hnone : ∀ s ts, P s ts → Q none s ts)
    (hsome : ∀ s t ts a, P s (t :: ts) → recognise t = some a → Q (some a) (s.step t) ts) :
    Leads limit P (Production.accept? recognise) Q := by
  intro s ts hs
  rcases accept?_cases recognise ts with h | ⟨t, a, rest, rfl, ha, h⟩
  · rw [h]
    exact ⟨[], rfl, hnone s ts hs⟩
  · rw [h]
    exact ⟨[t], rfl, hsome s t rest a hs ha⟩

theorem skipIf {kind : TokenKind} {Q : Bool → Assertion} (hfalse : ∀ s ts, P s ts → Q false s ts)
    (htrue : ∀ s t ts, P s (t :: ts) → t.kind = kind → Q true (s.step t) ts) :
    Leads limit P (Production.skipIf kind) Q := by
  intro s ts hs
  rw [Production.skipIf]
  cases hnext : ts.head?.any (·.kind = kind) with
  | true =>
    obtain ⟨t, ht, hkind⟩ := (Option.any_eq_true _ _).mp hnext
    obtain ⟨rest, rfl⟩ := List.head?_eq_some_iff.mp ht
    exact ⟨[t], rfl, htrue s t rest hs (of_decide_eq_true hkind)⟩
  | false => exact ⟨[], rfl, hfalse s ts hs⟩

section Repetition
variable {round : Production (Option α)} {I : Assertion}

/-- What each round keeps, all of them keep. -/
theorem gather (h : Leads limit I round fun _ => I) (hs : I s ts) :
    match (Production.gather round ts).2 with
    | .ok rest => ∃ w, ts = w ++ rest ∧ I (s.after w) rest
    | .error e => ∃ w, ts = w ++ e.rest ∧
        ∀ l, e.mismatch = .tooDeep l → Exceeds limit (s.after w) e.rest := by
  induction ts using Production.gather.induct round generalizing s with
  | case1 ts e he =>
    rw [gather_of_error he]
    exact h.of_error hs he
  | case2 ts mid hr =>
    rw [gather_of_none hr]
    exact h.of_ok hs hr
  | case3 ts a mid hr hlt more stop hm ih =>
    rw [gather_of_some hr hlt]
    obtain ⟨w, rfl, hw⟩ := h.of_ok hs hr
    have hmore := ih hw
    cases hstop : (Production.gather round mid).2 with
    | ok rest =>
      rw [hstop] at hmore
      obtain ⟨v, rfl, hv⟩ := hmore
      exact ⟨w ++ v, by simp, by rwa [Nesting.after_append]⟩
    | error e =>
      rw [hstop] at hmore
      obtain ⟨v, hmid, hv⟩ := hmore
      exact ⟨w ++ v, by rw [List.append_assoc, ← hmid], by rwa [Nesting.after_append]⟩
  | case4 ts a mid hr hlt =>
    rw [gather_of_last hr hlt]
    exact h.of_ok hs hr

theorem many (h : Leads limit I round fun _ => I) :
    Leads limit I (Production.many round) fun _ => I := by
  intro s ts hs
  have hg := h.gather hs
  rw [Production.many]
  cases hgather : Production.gather round ts with
  | mk items stop =>
    rw [hgather] at hg
    cases stop <;> exact hg

end Repetition

end Leads

/-- These brackets are open. -/
def Inside (bs : List Bool) : Assertion := fun s _ => s.brackets = bs

/-- These brackets are open, and the token in front of the place is of the sort `X`. -/
def Behind (bs : List Bool) (X : Token → Prop) : Assertion := fun s _ =>
  s.brackets = bs ∧ ∃ t, s.before = some t ∧ X t

/-- These brackets are open, and a parenthesis groups. -/
def Groups (bs : List Bool) : Assertion := fun s _ =>
  s.brackets = bs ∧ s.before.any Token.heads = false

/-- These brackets are open, and one that takes up a level is about to be. -/
def Opens (bs : List Bool) : Assertion := fun s ts => s.brackets = bs ∧ s.Deepens ts

/-- Where a bracket is opened next, one more level is about to be. -/
theorem opens_of_ahead {bs : List Bool} {s : Nesting} {ts : List Token} {b : Bracket}
    (hb : b ∈ [.openParen, .openBracket, .openBrace]) (hs : s.brackets = bs)
    (hts : Ahead (·.kind = .bracket b) Anything ts) : Opens bs s ts := by
  obtain ⟨t, rest, rfl, ht, -⟩ := hts
  refine ⟨hs, .inl ⟨t, rest, rfl, ?_⟩⟩
  simp only [List.mem_cons, List.not_mem_nil, or_false] at hb
  rcases hb with rfl | rfl | rfl <;> simp [Token.opens, Token.isBracket, ht]

/-- These brackets are open, and the tokens ahead are of the sort `X`. -/
def Facing (bs : List Bool) (X : List Token → Prop) : Assertion := fun s ts => s.brackets = bs ∧ X ts

/-- Where a token may have been accepted. -/
def Accepted {α : Type} (bs : List Bool) (recognise : Token → Option α) : Option α → Assertion
  | none => Inside bs
  | some a => Behind bs fun t => recognise t = some a

/-- Where a token of a kind may have been skipped. -/
def Skipped (bs : List Bool) (kind : TokenKind) : Bool → Assertion
  | false => Inside bs
  | true => Behind bs (·.kind = kind)

section Tokens
variable {t : Token}

theorem not_bracket_of_kind {kind : TokenKind} (h : t.kind = kind) (hkind : kind.isBracket = false) :
    t.kind.isBracket = false := h ▸ hkind

theorem not_bracket_of_operator {op : Operator} (h : t.operator? = some op) :
    t.kind.isBracket = false := not_bracket_of_kind (Token.operator?_eq_some_iff.mp h) rfl

theorem not_bracket_of_filtered {op : Operator} {p : Operator → Bool}
    (h : t.operator?.filter p = some op) : t.kind.isBracket = false :=
  not_bracket_of_operator (Option.filter_eq_some_iff.mp h).1

theorem not_bracket_of_word (h : t.kind.isWord = true) : t.kind.isBracket = false := by
  cases hk : t.kind with
  | bracket b =>
    rw [hk] at h
    cases h
  | _ => rfl

theorem not_bracket_of_isWord {word : String} (h : t.isWord word = true) : t.kind.isBracket = false :=
  not_bracket_of_word ((Bool.and_eq_true _ _).mp h).1

theorem not_bracket_of_operand {tag : Tag} (h : Tag.ofOperand? t.kind = some tag) :
    t.kind.isBracket = false := by
  cases hk : t.kind with
  | bracket b =>
    rw [hk] at h
    cases h
  | _ => rfl

theorem heads_of_kind {kind : TokenKind} (h : t.kind = kind)
    (hkind : (kind = .function || kind.isWord) = false) : t.heads = false := by
  rw [Bool.or_eq_false_iff] at hkind
  rw [Token.heads, h, hkind.1, hkind.2]
  rfl

theorem heads_of_function (h : t.kind = .function) : t.heads = true := by
  simp [Token.heads, h]

theorem heads_of_filtered {op : Operator} {p : Operator → Bool}
    (h : t.operator?.filter p = some op) : t.heads = false :=
  heads_of_kind (Token.operator?_eq_some_iff.mp (Option.filter_eq_some_iff.mp h).1) rfl

theorem heads_of_construct {c : Construct} (h : t.isWord c.keyword = true) : t.heads = true := by
  simp only [Token.isWord, Bool.and_eq_true, decide_eq_true_eq] at h
  have hc : Construct.ofKeyword? c.keyword = some c := by cases c <;> rfl
  simp [Token.heads, h.1, h.2, hc]

end Tokens

namespace Leads
open Production
variable {α : Type} {limit : Nat} {bs : List Bool} {x : Bool} {b : Bracket} {kind : TokenKind}
  {X Y : Token → Prop} {p : Production α} {Q : α → Assertion}

theorem from_behind (h : Leads limit (Inside bs) p Q) : Leads limit (Behind bs X) p Q :=
  h.weaken fun _ _ hs => hs.1

theorem grouping (h : Leads limit (Groups bs) p Q) (hX : ∀ t, X t → t.heads = false) :
    Leads limit (Behind bs X) p Q := by
  refine h.weaken ?_
  rintro s ts ⟨hbrackets, t, ht, hx⟩
  exact ⟨hbrackets, by rw [ht]; exact hX t hx⟩

theorem of_head (h : Leads limit (Behind bs (·.heads = true)) p Q) (hX : ∀ t, X t → t.heads = true) :
    Leads limit (Behind bs X) p Q := by
  refine h.weaken ?_
  rintro s ts ⟨hbrackets, t, ht, hx⟩
  exact ⟨hbrackets, t, ht, hX t hx⟩

/-- What a block may follow is a place where one has to. -/
theorem due (h : Leads limit (Opens bs) p Q)
    (hX : ∀ t, X t → t.kind = .bracket .closeParen ∨ t.isWord "else" = true) :
    Leads limit (Behind bs X) p Q := by
  refine h.weaken ?_
  rintro s ts ⟨hbrackets, t, ht, hx⟩
  exact ⟨hbrackets, .inr ⟨t, ht, hX t hx⟩⟩

theorem expect_other (hkind : kind.isBracket = false) :
    Leads limit (Inside bs) (Production.expect kind) fun _ => Behind bs (·.kind = kind) := by
  refine .expect fun s t ts hs ht => ⟨?_, t, rfl, ht⟩
  rw [Nesting.step_other (not_bracket_of_kind ht hkind)]
  exact hs

theorem expect_close (hb : b ∈ [.closeParen, .closeBracket, .closeBrace]) :
    Leads limit (Inside (x :: bs)) (Production.expect (.bracket b)) fun _ =>
      Behind bs (·.kind = .bracket b) := by
  refine .expect fun s t ts hs ht => ⟨?_, t, rfl, ht⟩
  have hs : s.brackets = x :: bs := hs
  rw [Nesting.step_close ht hb, hs, List.tail_cons]

theorem expect_open (hb : b ∈ [.openBracket, .openBrace]) :
    Leads limit (Inside bs) (Production.expect (.bracket b)) fun _ =>
      Behind (true :: bs) (·.kind = .bracket b) := by
  refine .expect fun s t ts hs ht => ⟨?_, t, rfl, ht⟩
  have hs : s.brackets = bs := hs
  rw [Nesting.step_open ht hb, hs]

/-- The parenthesis of a header takes up no level. -/
theorem expect_header : Leads limit (Behind bs (·.heads = true))
    (Production.expect (.bracket .openParen)) fun _ => Behind (false :: bs) (·.kind = .bracket .openParen) := by
  refine .expect fun s t ts hs ht => ⟨?_, t, rfl, ht⟩
  obtain ⟨hbrackets, u, hu, hheads⟩ := hs
  simp [Nesting.step_paren ht, hu, hheads, hbrackets]

theorem skip_facing {pre : List Token → Prop} (hX : ∀ t, X t → t.kind.isBracket = false) :
    Leads limit (Facing bs (Ahead X pre)) Production.skip fun _ s ts => Behind bs X s ts ∧ pre ts := by
  refine .skip ?_ ?_
  · rintro s ⟨-, t, rest, h, -⟩
    cases h
  · rintro s t ts ⟨hbrackets, _, _, ⟨⟩, ht, hpre⟩
    refine ⟨⟨?_, t, rfl, ht⟩, hpre⟩
    rw [Nesting.step_other (hX t ht), hbrackets]

theorem accept?_other {recognise : Token → Option α}
    (hother : ∀ t a, recognise t = some a → t.kind.isBracket = false) :
    Leads limit (Inside bs) (Production.accept? recognise) (Accepted bs recognise) := by
  refine .accept? (fun _ _ hs => hs) fun s t ts a hs ha => ⟨?_, t, rfl, ha⟩
  rw [Nesting.step_other (hother t a ha)]
  exact hs

theorem skipIf_other (hkind : kind.isBracket = false) :
    Leads limit (Inside bs) (Production.skipIf kind) (Skipped bs kind) := by
  refine .skipIf (fun _ _ hs => hs) fun s t ts hs ht => ⟨?_, t, rfl, ht⟩
  rw [Nesting.step_other (not_bracket_of_kind ht hkind)]
  exact hs

end Leads

end SlangScript
