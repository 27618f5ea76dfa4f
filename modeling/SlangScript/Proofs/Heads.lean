import SlangScript.Proofs.Headers

/-! Heads: the words that a block belongs to. Where the grammar lets a head begin something, the tokens
that follow it may be exchanged for any header and block of its sort. -/
namespace SlangScript

/-- The words of the constructs that have a header and a block. -/
def blockWords : List String := ["sus", "talk", "mood", "forreal"]

/-- A word that a block belongs to. -/
def Token.isHead (t : Token) : Bool := t.kind.isWord && ("else" :: blockWords).contains t.lexeme

/-- Tokens none of which is a head. -/
def Headless (w : List Token) : Prop := ∀ t ∈ w, t.isHead = false

namespace Token
variable {t : Token}

theorem isHead_of_isWord {word : String} (h : t.isWord word = true)
    (hword : word ∈ "else" :: blockWords) : t.isHead = true := by
  simp_all [isWord, isHead]

theorem isWord_inj {a b : String} (ha : t.isWord a = true) (hb : t.isWord b = true) : a = b := by
  simp only [isWord, Bool.and_eq_true, decide_eq_true_eq] at ha hb
  exact ha.2.symm.trans hb.2

theorem not_isHead_of_kind {kind : TokenKind} (h : t.kind = kind) (hk : kind.isWord = false) :
    t.isHead = false := by
  simp [isHead, h, hk]

theorem not_isHead_of_operator {op : Operator} (h : t.operator? = some op) : t.isHead = false :=
  not_isHead_of_kind (operator?_eq_some_iff.mp h) rfl

theorem not_isHead_of_operand {tag : Tag} (h : Tag.ofOperand? t.kind = some tag) :
    t.isHead = false := not_isHead_of_kind rfl (Tag.not_isWord_of_ofOperand? h)

theorem not_isHead_of_isWord {word : String} (h : t.isWord word = true)
    (hword : word ∉ "else" :: blockWords) : t.isHead = false := by
  simp_all [isWord, isHead]

theorem not_isHead_of_declares (h : t.declares) : t.isHead = false := by
  have hwords : ∀ word ∈ declarationWords, word ∉ "else" :: blockWords := by decide
  have hmem : t.lexeme ∈ declarationWords := by simpa [isDeclarationWord] using h.2
  have hword : t.isWord t.lexeme = true := by simp [isWord, h.1]
  exact not_isHead_of_isWord hword (hwords _ hmem)

end Token

/-- The parts that hold no block. Parameters do not count here, since any word may be their type. -/
def Part.isBlockless : Part → Bool
  | .operand | .expression | .call | .element | .array | .number | .assigned | .simple => true
  | .separated item | .listed item => item.isBlockless
  | _ => false

namespace Headless
variable {t : Token} {w v : List Token}

@[simp] theorem nil : Headless [] := nofun

@[simp] theorem cons_iff : Headless (t :: w) ↔ t.isHead = false ∧ Headless w := List.forall_mem_cons

@[simp] theorem append_iff : Headless (w ++ v) ↔ Headless w ∧ Headless v := List.forall_mem_append

end Headless

open Token in
/-- Heads stand in front of blocks only, and as the types of parameters. -/
theorem Derives.headless {part : Part} {n : Nat} {w : List Token} {ts : List Tree}
    (h : Derives part n w ts) (hpart : part.isBlockless = true) : Headless w := by
  induction h with
  | literal ht => simp [not_isHead_of_operand ht]
  | stepped ht ho =>
    have ho := (Option.filter_eq_some_iff.mp ho).1
    simp [not_isHead_of_operand ht, not_isHead_of_operator ho]
  | binary hl ho hr ihl ihr =>
    have ho := (Option.filter_eq_some_iff.mp ho).1
    simp [ihl rfl, ihr rfl, not_isHead_of_operator ho]
  | grouped ho he hc ih => simp [ih rfl, not_isHead_of_kind ho rfl, not_isHead_of_kind hc rfl]
  | call hf ho hs hc ih =>
    simp [ih rfl, not_isHead_of_kind hf rfl, not_isHead_of_kind ho rfl, not_isHead_of_kind hc rfl]
  | array ho hs hc ih => simp [ih rfl, not_isHead_of_kind ho rfl, not_isHead_of_kind hc rfl]
  | arrayOperand ha ih | single ha ih | callElement ha ih | expressionElement ha ih
  | assignedArray ha ih | assignedExpression ha hw ih | called ha ih => exact ih rfl
  | number ht => simp [not_isHead_of_kind ht rfl]
  | one he ih | listed he ih => exact ih hpart
  | more he hc hs ihe ihs => simp [ihe hpart, ihs hpart, not_isHead_of_kind hc rfl]
  | unlisted => simp
  | declaration hk hx => simp [not_isHead_of_declares hk, not_isHead_of_kind hx rfl]
  | initialised hk hx ho hop he ih =>
    simp [ih rfl, not_isHead_of_declares hk, not_isHead_of_kind hx rfl, not_isHead_of_operator ho]
  | print hk ho he hc ih =>
    simp [ih rfl, not_isHead_of_isWord hk (by decide), not_isHead_of_kind ho rfl,
      not_isHead_of_kind hc rfl]
  | input hk ho hx hc =>
    simp [not_isHead_of_isWord hk (by decide), not_isHead_of_kind ho rfl,
      not_isHead_of_kind hx rfl, not_isHead_of_kind hc rfl]
  | reply hk he ih => simp [ih rfl, not_isHead_of_isWord hk (by decide)]
  | lineList hx hs ho hns hc ih =>
    simp [ih rfl, not_isHead_of_kind hx.1 rfl, not_isHead_of_operator hs,
      not_isHead_of_kind ho rfl, not_isHead_of_kind hc rfl]
  | alone hx => simp [not_isHead_of_kind hx rfl]
  | counted hx ho hop => simp [not_isHead_of_kind hx rfl, not_isHead_of_operator ho]
  | assignment hx ho hop hline he ih =>
    simp [ih rfl, not_isHead_of_kind hx rfl, not_isHead_of_operator ho]
  | _ => cases hpart

/-- The tokens begin such a part. -/
def Viable (part : Part) (w : List Token) : Prop := ∃ n v ts, Derives part n (w ++ v) ts

/-- Whether a part stands for one tree. -/
def Part.isSingle : Part → Bool
  | .parameters | .separated _ | .listed _ | .branches | .statements => false
  | _ => true

theorem Derives.exists_tree {part : Part} {n : Nat} {w : List Token} {ts : List Tree}
    (h : Derives part n w ts) (hpart : part.isSingle = true) : ∃ t, ts = [t] := by
  cases h with
  | parameters | trailingComma | one | more | unlisted | listed | unbranched | elseIf | elseBlock
  | done | next => cases hpart
  | _ => exact ⟨_, rfl⟩

namespace Viable
variable {part : Part} {n : Nat} {k o c e s : Token} {w v b : List Token} {t : Tree} {tag : Tag}

/-- What the tokens begin may be as deep as one likes. -/
theorem exists_ge (h : Viable part w) (n : Nat) : ∃ m v ts, n ≤ m ∧ Derives part m (w ++ v) ts := by
  obtain ⟨m, v, ts, h⟩ := h
  exact ⟨max n m, v, ts, Nat.le_max_left n m, h.mono (Nat.le_max_right n m)⟩

theorem exists_tree (h : Viable part w) (hpart : part.isSingle = true) (n : Nat) :
    ∃ m v t, n ≤ m ∧ Derives part m (w ++ v) [t] := by
  obtain ⟨m, v, ts, hm, h⟩ := h.exists_ge n
  obtain ⟨t, rfl⟩ := h.exists_tree hpart
  exact ⟨m, v, t, hm, h⟩

theorem braces (ho : o.kind = .bracket .openBrace) (h : Viable .statements w) :
    Viable .braces (o :: w) := by
  obtain ⟨n, v, ss, h⟩ := h
  have hb := Derives.braces (c := .ofKind (.bracket .closeBrace)) ho h rfl
  exact ⟨_, v ++ [.ofKind (.bracket .closeBrace)], _, by simpa using hb⟩

theorem first (h : Viable .statement w) : Viable .statements w := by
  obtain ⟨m, v, s, -, h⟩ := h.exists_tree rfl 0
  exact ⟨m, v, _, by simpa using Derives.next h .done⟩

theorem next (hs : Derives .statement n w [t]) (h : Viable .statements v) :
    Viable .statements (w ++ v) := by
  obtain ⟨m, x, ss, hm, h⟩ := h.exists_ge n
  exact ⟨m, x, _, by simpa using Derives.next (hs.mono hm) h⟩

theorem guarded (ho : o.kind = .bracket .openParen) (he : Derives .expression n w [t])
    (hc : c.kind = .bracket .closeParen) (h : Viable .braces b) :
    Viable (.guarded tag) (o :: (w ++ c :: b)) := by
  obtain ⟨m, x, list, hm, h⟩ := h.exists_tree rfl n
  exact ⟨m, x, _, by simpa using Derives.guarded ho (he.mono hm) hc h⟩

theorem elseIf (he : e.isWord "else" = true) (hs : s.isWord "sus" = true)
    (h : Viable (.guarded .elseIfBlock) w) : Viable .branches (e :: s :: w) := by
  obtain ⟨m, x, b, -, h⟩ := h.exists_tree rfl 0
  exact ⟨m, x, _, by simpa using Derives.elseIf he hs h .unbranched⟩

theorem elseIf_next (he : e.isWord "else" = true) (hs : s.isWord "sus" = true)
    (hb : Derives (.guarded .elseIfBlock) n w [t]) (h : Viable .branches v) :
    Viable .branches (e :: s :: (w ++ v)) := by
  obtain ⟨m, x, bs, hm, h⟩ := h.exists_ge n
  exact ⟨m, x, _, by simpa using Derives.elseIf he hs (hb.mono hm) h⟩

theorem elseBlock (he : e.isWord "else" = true) (h : Viable .braces w) :
    Viable .branches (e :: w) := by
  obtain ⟨m, x, list, -, h⟩ := h.exists_tree rfl 0
  exact ⟨m, x, _, .elseBlock he h⟩

theorem ifChain (hk : k.isWord "sus" = true) (h : Viable (.guarded .ifBlock) w) :
    Viable .statement (k :: w) := by
  obtain ⟨m, x, b, -, h⟩ := h.exists_tree rfl 0
  exact ⟨m, x, _, by simpa using Derives.ifChain hk h .unbranched⟩

theorem ifChain_next (hk : k.isWord "sus" = true) (hb : Derives (.guarded .ifBlock) n w [t])
    (h : Viable .branches v) : Viable .statement (k :: (w ++ v)) := by
  obtain ⟨m, x, bs, hm, h⟩ := h.exists_ge n
  exact ⟨m, x, _, by simpa using Derives.ifChain hk (hb.mono hm) h⟩

theorem whileLoop (hk : k.isWord "talk" = true) (h : Viable (.guarded .whileStmt) w) :
    Viable .statement (k :: w) := by
  obtain ⟨m, x, s, -, h⟩ := h.exists_tree rfl 0
  exact ⟨m, x, _, .whileLoop hk h⟩

theorem switch (hk : k.isWord "mood" = true) (h : Viable (.guarded .switchStmt) w) :
    Viable .statement (k :: w) := by
  obtain ⟨m, x, s, -, h⟩ := h.exists_tree rfl 0
  exact ⟨m, x, _, .switch hk h⟩

theorem forLoop {s₁ s₂ : Token} {u : List Token} {start test step : Tree}
    (hk : k.isWord "forreal" = true) (ho : o.kind = .bracket .openParen)
    (hu : Derives .expression n u [start]) (hs₁ : s₁.kind = .delimiter .semicolon)
    (hv : Derives .expression n v [test]) (hs₂ : s₂.kind = .delimiter .semicolon)
    (hw : Derives .expression n w [step]) (hc : c.kind = .bracket .closeParen)
    (h : Viable .braces b) :
    Viable .statement (k :: o :: (u ++ s₁ :: (v ++ s₂ :: (w ++ c :: b)))) := by
  obtain ⟨m, x, list, hm, h⟩ := h.exists_tree rfl n
  have hs := Derives.forLoop hk ho (hu.mono hm) hs₁ (hv.mono hm) hs₂ (hw.mono hm) hc h
  exact ⟨m, x, _, by simpa using hs⟩

theorem definition {f : Token} {ps : List Tree} (hk : k.isWord "trend" = true)
    (hf : f.kind = .function) (ho : o.kind = .bracket .openParen)
    (hps : Derives .parameters n w ps) (hc : c.kind = .bracket .closeParen) (h : Viable .braces b) :
    Viable .statement (k :: f :: o :: (w ++ c :: b)) := by
  obtain ⟨m, x, list, hm, h⟩ := h.exists_tree rfl n
  exact ⟨m, x, _, by simpa using Derives.definition hk hf ho (hps.mono hm) hc h⟩

theorem block (h : Viable .braces w) : Viable .statement w := by
  obtain ⟨m, x, list, -, h⟩ := h.exists_tree rfl 0
  exact ⟨m, x, _, .block h⟩

end Viable

/-- What may stand behind a head in the place of what does, up to the brace that opens its block. -/
structure Suits (k : Token) (g : List Token) : Prop where
  isHead : k.isHead = true
  guarded : ∀ word ∈ ["sus", "talk", "mood"], k.isWord word = true → ∀ tag, Viable (.guarded tag) g
  forLoop : k.isWord "forreal" = true → Viable .statement (k :: g)
  elseBlock : k.isWord "else" = true → Viable .braces g

/-- A function's name and a parenthesis stand here that has not been closed. -/
def InParameters (x : List Token) : Prop :=
  ∃ before f o inside, x = before ++ f :: o :: inside ∧ f.kind = .function ∧
    ∀ t ∈ inside, t.kind ≠ .bracket .closeParen

theorem InParameters.append (w : List Token) {x : List Token} (h : InParameters x) :
    InParameters (w ++ x) := by
  obtain ⟨before, f, o, inside, rfl, hf, hinside⟩ := h
  exact ⟨w ++ before, f, o, inside, by simp, hf, hinside⟩

section Place
variable {k l : Token} {w v x y : List Token}

/-- A token is the first one or one of the others. -/
theorem exists_cons_split (h : l :: w = x ++ k :: y) :
    (x = [] ∧ l = k) ∨ ∃ r, x = l :: r ∧ w = r ++ k :: y := by
  refine (List.cons_eq_append_iff.mp h).imp_left fun ⟨hx, hy⟩ => ⟨hx, ?_⟩
  exact (List.cons.inj hy).1.symm

/-- A token of two parts is one of the first or of the second. -/
theorem exists_split (h : w ++ v = x ++ k :: y) :
    (∃ r, w = x ++ k :: r) ∨ ∃ r, x = w ++ r ∧ v = r ++ k :: y := by
  rcases List.append_eq_append_iff.mp h with ⟨r, hx, hv⟩ | ⟨r, hw, hy⟩
  · exact .inr ⟨r, hx, hv⟩
  · cases r with
    | nil => exact .inr ⟨[], by simpa using hw.symm, by simpa using hy.symm⟩
    | cons t r =>
      obtain ⟨rfl, -⟩ := List.cons.inj hy
      exact .inl ⟨r, hw⟩

theorem Headless.absurd (hw : Headless w) (hk : k.isHead = true) (h : w = x ++ k :: y) : False := by
  have hno := hw k (by simp [h])
  rw [hk] at hno
  cases hno

/-- A head is not among tokens without one. -/
theorem Headless.split (hw : Headless w) (hk : k.isHead = true) (h : w ++ v = x ++ k :: y) :
    ∃ r, x = w ++ r ∧ v = r ++ k :: y :=
  (exists_split h).resolve_left fun ⟨_, hr⟩ => hw.absurd hk hr

theorem Headless.split_right (hv : Headless v) (hk : k.isHead = true) (h : w ++ v = x ++ k :: y) :
    ∃ r, w = x ++ k :: r :=
  (exists_split h).resolve_right fun ⟨_, _, hr⟩ => hv.absurd hk hr

end Place

/-- The parts that blocks stand in. -/
def Part.holdsBlocks : Part → Bool
  | .braces | .guarded _ | .branches | .statement | .statements => true
  | _ => false

/-- Parameters end in front of the parenthesis that closes them. -/
theorem Derives.parameters_open {n : Nat} {w : List Token} {ps : List Tree}
    (h : Derives .parameters n w ps) : ∀ t ∈ w, t.kind ≠ .bracket .closeParen := by
  have hsep : ∀ {w ps}, Derives (.separated .parameter) n w ps →
      ∀ t ∈ w, t.kind ≠ .bracket .closeParen := by
    intro w ps hs
    have hone : ∀ {w p}, Derives .parameter n w [p] → ∀ t ∈ w, t.kind ≠ .bracket .closeParen := by
      intro w p hp
      cases hp with
      | parameter ht hx =>
        rename_i t x
        have ht : t.kind ≠ .bracket .closeParen := by
          intro hk
          rw [hk] at ht
          cases ht
        simp [ht, hx]
    refine hs.separated_induction (P := fun w _ => ∀ t ∈ w, t.kind ≠ .bracket .closeParen) hone ?_
    intro w v c p ps hp hc _ ih
    rw [List.forall_mem_append, List.forall_mem_cons]
    exact ⟨hone hp, by simp [hc], ih⟩
  cases h with
  | parameters hs =>
    cases hs with
    | unlisted => nofun
    | listed hs => exact hsep hs
  | trailingComma hs hc =>
    rw [List.forall_mem_append]
    exact ⟨hsep hs, by simp [hc]⟩

/-- Behind a head that the grammar allows, whatever suits it is allowed as well. -/
theorem Derives.viable_head {part : Part} {n : Nat} {w : List Token} {ts : List Tree} {k : Token}
    {g : List Token} (hg : Suits k g) (h : Derives part n w ts) (hpart : part.holdsBlocks = true)
    {x y : List Token} (hw : w = x ++ k :: y) : InParameters x ∨ Viable part (x ++ k :: g) := by
  have hk := hg.isHead
  induction h generalizing x y with
  | braces ho hs hc ih =>
    rename_i n o c w ss
    have hout : Headless [o] := by simp [Token.not_isHead_of_kind ho rfl]
    have hend : Headless [c] := by simp [Token.not_isHead_of_kind hc rfl]
    obtain ⟨r, rfl, hr⟩ := hout.split hk hw
    obtain ⟨y', hy'⟩ := hend.split_right hk hr
    refine (ih rfl hy').imp (.append [o]) fun hv => ?_
    simpa using hv.braces ho
  | guarded ho he hc hb ihe ihb =>
    rename_i n tag o c w b e list
    have hout : Headless (o :: (w ++ [c])) := by
      simp [he.headless rfl, Token.not_isHead_of_kind ho rfl, Token.not_isHead_of_kind hc rfl]
    obtain ⟨r, rfl, hr⟩ := hout.split (v := b) hk (by simpa using hw)
    refine (ihb rfl hr).imp (.append _) fun hv => ?_
    simpa using hv.guarded ho he hc
  | unbranched => simp at hw
  | elseIf he hs hb hbs ihb ihbs =>
    rename_i n e s w v b bs
    rcases exists_cons_split hw with ⟨rfl, rfl⟩ | ⟨r, rfl, hr⟩
    · exact .inr ((hg.elseBlock he).elseBlock he)
    · rcases exists_cons_split hr with ⟨rfl, rfl⟩ | ⟨r, rfl, hsplit⟩
      · exact .inr ((hg.guarded "sus" (by simp) hs .elseIfBlock).elseIf he hs)
      · rcases exists_split hsplit with ⟨y', hy'⟩ | ⟨r, rfl, hv⟩
        · exact (ihb rfl hy').imp (.append [e, s]) fun hw => hw.elseIf he hs
        · refine (ihbs rfl hv).imp (.append (e :: s :: w)) fun hv => ?_
          simpa using hv.elseIf_next he hs hb
  | elseBlock he hb ih =>
    rename_i n e w list
    rcases exists_cons_split hw with ⟨rfl, rfl⟩ | ⟨r, rfl, hr⟩
    · exact .inr ((hg.elseBlock he).elseBlock he)
    · exact (ih rfl hr).imp (.append [e]) fun hv => hv.elseBlock he
  | unterminated hs ih => exact ((hs.headless rfl).absurd hk hw).elim
  | terminated hs ht ih =>
    rename_i n t w s
    have hall : Headless (w ++ [t]) := by simp [hs.headless rfl, Token.not_isHead_of_kind ht rfl]
    exact (hall.absurd hk hw).elim
  | ifChain hs hb hbs ihb ihbs =>
    rename_i n s w v b bs
    rcases exists_cons_split hw with ⟨rfl, rfl⟩ | ⟨r, rfl, hr⟩
    · exact .inr ((hg.guarded "sus" (by simp) hs .ifBlock).ifChain hs)
    · rcases exists_split hr with ⟨y', hy'⟩ | ⟨r, rfl, hv⟩
      · exact (ihb rfl hy').imp (.append [s]) fun hw => hw.ifChain hs
      · refine (ihbs rfl hv).imp (.append (s :: w)) fun hv => ?_
        simpa using hv.ifChain_next hs hb
  | forLoop hl ho hu hs₁ hv hs₂ hx hc hb ihu ihv ihx ihb =>
    rename_i n l o s₁ s₂ c u v x b start test step list
    rcases exists_cons_split hw with ⟨rfl, rfl⟩ | ⟨r, rfl, hr⟩
    · exact .inr (hg.forLoop hl)
    · have hout : Headless (o :: (u ++ s₁ :: (v ++ s₂ :: (x ++ [c])))) := by
        simp [hu.headless rfl, hv.headless rfl, hx.headless rfl, Token.not_isHead_of_kind ho rfl,
          Token.not_isHead_of_kind hs₁ rfl, Token.not_isHead_of_kind hs₂ rfl,
          Token.not_isHead_of_kind hc rfl]
      obtain ⟨r, rfl, hbr⟩ := hout.split (v := b) hk (by simpa using hr)
      refine (ihb rfl hbr).imp (.append (l :: _)) fun hb => ?_
      simpa using hb.forLoop hl ho hu hs₁ hv hs₂ hx hc
  | whileLoop hl hs ih =>
    rename_i n l w s
    rcases exists_cons_split hw with ⟨rfl, rfl⟩ | ⟨r, rfl, hr⟩
    · exact .inr ((hg.guarded "talk" (by simp) hl .whileStmt).whileLoop hl)
    · exact (ih rfl hr).imp (.append [l]) fun hv => hv.whileLoop hl
  | switch hl hs ih =>
    rename_i n l w s
    rcases exists_cons_split hw with ⟨rfl, rfl⟩ | ⟨r, rfl, hr⟩
    · exact .inr ((hg.guarded "mood" (by simp) hl .switchStmt).switch hl)
    · exact (ih rfl hr).imp (.append [l]) fun hv => hv.switch hl
  | definition hd hf ho hps hc hb ihps ihb =>
    rename_i n d f o c w b ps list
    have hout : Headless [d, f, o] := by
      simp [Token.not_isHead_of_isWord hd (by decide), Token.not_isHead_of_kind hf rfl,
        Token.not_isHead_of_kind ho rfl]
    have hend : Headless [c] := by simp [Token.not_isHead_of_kind hc rfl]
    obtain ⟨r, rfl, hr⟩ := hout.split hk hw
    rcases exists_split hr with ⟨y', hy'⟩ | ⟨r, rfl, hv⟩
    · -- A head may also be the type of a parameter, which nothing behind it belongs to.
      have hopen := hps.parameters_open
      exact .inl ⟨[d], f, o, r, rfl, hf, fun t ht => hopen t (by simp [hy', ht])⟩
    · obtain ⟨r, rfl, hbr⟩ := hend.split hk hv
      refine (ihb rfl hbr).imp (fun hin => .append [d, f, o] (.append w (.append [c] hin)))
        fun hv => ?_
      simpa using hv.definition hd hf ho hps hc
  | block hb ih => exact (ih rfl hw).imp_right Viable.block
  | done => simp at hw
  | next hs hss ihs ihss =>
    rename_i n w v s ss
    rcases exists_split hw with ⟨y', hy'⟩ | ⟨r, rfl, hr⟩
    · exact (ihs rfl hy').imp_right Viable.first
    · refine (ihss rfl hr).imp (.append w) fun hv => ?_
      simpa using hv.next hs
  | _ => cases hpart

end SlangScript
