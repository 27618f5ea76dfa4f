import SlangScript.Proofs.Heads
import SlangScript.Proofs.NestingCap
import SlangScript.Proofs.Tables

/-! What the checks of a text spare its parser. Between a head and its block the parser finds nothing
wrong, but for brackets that nest too deep, and no block that belongs to a head is open where the tokens
end. -/
namespace SlangScript

/-- A header in parentheses stands behind the token at `p`, up to the first parenthesis that closes one,
and the brace at `o` follows it. -/
def Headed (ts : List Token) (p o : Nat) : Prop :=
  ∃ l inside c b after, ts.drop (p + 1) = l :: (inside ++ c :: b :: after) ∧
    l.kind = .bracket .openParen ∧ (∀ t ∈ inside, t.kind ≠ .bracket .closeParen) ∧
    c.kind = .bracket .closeParen ∧ b.kind = .bracket .openBrace ∧ o = p + inside.length + 3

/-- The block that the brace at `o` opens belongs to the head at `p`. -/
inductive OwnsBlock (ts : List Token) : Nat → Nat → Prop
  | construct {p o : Nat} {k : Token} {word : String} (hk : ts[p]? = some k)
    (hword : word ∈ blockWords) (hkw : k.isWord word = true) (h : Headed ts p o) : OwnsBlock ts p o
  | elseBlock {p : Nat} {k b : Token} (hk : ts[p]? = some k) (hkw : k.isWord "else" = true)
    (hb : ts[p + 1]? = some b) (hopen : b.kind = .bracket .openBrace) : OwnsBlock ts p (p + 1)
  | definition {p o : Nat} {k f : Token} (hk : ts[p]? = some k) (hkw : k.isWord "trend" = true)
    (hf : ts[p + 1]? = some f) (hfun : f.kind = .function) (h : Headed ts (p + 1) o) :
    OwnsBlock ts p o

/-! ### Blocks and the end of the tokens -/

section Blocks
variable {before : Token} {after : String} {rest : List Token}

theorem exists_blockEnd_of_checkBlock (h : checkBlock before after rest = .ok ()) :
    ∃ b inside found, rest = b :: inside ∧ b.kind = .bracket .openBrace ∧
      blockEnd? 1 0 false inside = some found := by
  cases rest with
  | nil => cases h
  | cons b inside =>
    rw [checkBlock] at h
    split at h
    · rename_i hb
      cases hend : blockEnd? 1 0 false inside with
      | none => rw [hend] at h; cases h
      | some found => exact ⟨b, inside, found, rfl, by simpa [Token.isBracket] using hb, hend⟩
    · cases h

open Production in
/-- Statements that are still being read where the tokens end leave their braces open. -/
theorem exists_balanced_of_error {limit room : Nat} {inside : List Token} {f : Failure}
    (h : (many (statement? (statement limit room)) >>= fun list =>
      expect (.bracket .closeBrace) >>= fun _ => pure (Tree.node .statementList none list)) inside =
        .error f)
    (hend : f.rest = []) : ∃ v, Balanced (inside ++ v) := by
  have hstatement := statement_reads limit (Nat.le_max_left room (openings inside + 1))
  have hreads : Reads Anything _ (many (statement? (statement limit room))) _ :=
    .many (statement?_reads hstatement) (statements_piecewise _)
  rcases bind_eq_error.mp h with hmany | ⟨list, mid, hmany, hclose⟩
  · obtain ⟨u, hu, hv⟩ := hreads.viable trivial hmany
    rw [hend, List.append_nil] at hu
    subst hu
    obtain ⟨v, ss, hd⟩ := hv (by omega)
    exact ⟨v, hd.balanced⟩
  · obtain ⟨w, rfl, hd⟩ := hreads.sound trivial hmany
    rcases bind_eq_error.mp hclose with hexpect | ⟨c, last, -, hpure⟩
    · obtain rfl := hend.symm.trans (expect_eq_error hexpect)
      exact ⟨[], by simpa using hd.balanced⟩
    · cases hpure

open Production in
/-- Where the checks have found the end of a block, its statements are not read to the end of the
tokens in vain. -/
theorem braces_error_rest {limit room : Nat} {f : Failure}
    (hok : checkBlock before after rest = .ok ())
    (h : (level limit room).braces rest = .error f) : f.rest ≠ [] := by
  obtain ⟨b, inside, found, rfl, hb, hfound⟩ := exists_blockEnd_of_checkBlock hok
  cases room with
  | zero =>
    cases h
    exact List.cons_ne_nil b inside
  | succ room =>
    intro hend
    have hinside := (run_expect hb inside _).symm.trans h
    obtain ⟨v, hv⟩ := exists_balanced_of_error hinside hend
    rw [hv.blockEnd?_of_append] at hfound
    cases hfound

end Blocks

/-! ### Headers -/

/-- Two ways to come to a first closing parenthesis are one. -/
theorem eq_of_first_close {u v r s : List Token} {c d : Token}
    (hu : ∀ t ∈ u, t.kind ≠ .bracket .closeParen) (hv : ∀ t ∈ v, t.kind ≠ .bracket .closeParen)
    (hc : c.kind = .bracket .closeParen) (hd : d.kind = .bracket .closeParen)
    (h : u ++ c :: r = v ++ d :: s) : c = d ∧ r = s := by
  induction u generalizing v with
  | nil =>
    cases v with
    | nil => exact List.cons.inj h
    | cons t v => exact absurd ((List.cons.inj h).1 ▸ hc) (hv t (.head _))
  | cons t u ih =>
    rw [List.forall_mem_cons] at hu
    cases v with
    | nil => exact absurd ((List.cons.inj h).1 ▸ hd) hu.1
    | cons t' v => exact ih hu.2 (List.forall_mem_cons.mp hv).2 (List.cons.inj h).2

namespace Arguments
variable {u r s : List Token} {c d k : Token}

theorem eq_of_first_close (h : Arguments (u ++ d :: r) c s)
    (hu : ∀ t ∈ u, t.kind ≠ .bracket .closeParen) (hd : d.kind = .bracket .closeParen) :
    d = c ∧ r = s := by
  induction u with
  | nil => exact h.eq_of_close hd
  | cons t u ih =>
    rw [List.forall_mem_cons] at hu
    exact ih (h.not_of_kind hu.1).2 hu.2

theorem isArgument_of_open (h : Arguments (u ++ k :: r) c s)
    (hu : ∀ t ∈ u, t.kind ≠ .bracket .closeParen) (hk : k.kind ≠ .bracket .closeParen) :
    k.kind.isArgument = true := by
  induction u with
  | nil => exact (h.not_of_kind hk).1
  | cons t u ih =>
    rw [List.forall_mem_cons] at hu
    exact ih (h.not_of_kind hu.1).2 hu.2

end Arguments

namespace Checked
variable {k : Token} {x y rest : List Token}

/-- A head is never read as the type of a parameter. -/
theorem not_inParameters (h : Checked (x ++ k :: y)) (hk : k.isHead = true) : ¬ InParameters x := by
  rintro ⟨before, f, o, inside, rfl, hf, hinside⟩
  have hf' : Checked (f :: o :: (inside ++ k :: y)) := h.of_suffix ⟨before, by simp⟩
  obtain ⟨o', inside', c, s, heq, harg⟩ := hf'.arguments hf
  obtain ⟨rfl, rfl⟩ := List.cons.inj heq
  simp only [Token.isHead, Bool.and_eq_true] at hk
  have hclose : k.kind ≠ .bracket .closeParen := by
    intro hkind
    rw [hkind] at hk
    cases hk.1
  have hkind := TokenKind.eq_reservedWord hk.1 (harg.isArgument_of_open hinside hclose)
  have hreserved := (h.spelled k (by simp)).2 hkind
  have hwords : ∀ word ∈ reservedWords, ("else" :: blockWords).contains word = false := by decide
  rw [hwords _ hreserved] at hk
  cases hk.2

/-- Behind the head of a construct stand a header that fits it and a block. -/
theorem header {c : Construct} {slots : List HeaderSlot} (h : Checked (k :: rest))
    (hk : k.isWord c.keyword = true) (hc : c.shape = some slots) :
    ∃ l ps close b after, rest = l :: (ps ++ close :: b :: after) ∧ l.kind = .bracket .openParen ∧
      Fits ps slots ∧ close.kind = .bracket .closeParen ∧ b.kind = .bracket .openBrace ∧
      checkBlock close c.keyword (b :: after) = .ok () := by
  obtain ⟨l, ps, close, s, rfl, hl, hclose, hfits, hblock⟩ :=
    header_of_checkConstruct hc (h.construct hk)
  obtain ⟨b, after, -, rfl, hb, -⟩ := exists_blockEnd_of_checkBlock hblock
  exact ⟨l, ps, close, b, after, rfl, hl, hfits, hclose, hb, hblock⟩

end Checked

namespace Suits
variable {n : Nat} {k l c b : Token} {ps : List Token} {e : Tree}

private theorem viable_brace (hb : b.kind = .bracket .openBrace) : Viable .braces [b] :=
  .braces hb ⟨0, [], [], .done⟩

theorem of_condition {word : String} (hk : k.isWord word = true)
    (hword : word ∈ ["sus", "talk", "mood"]) (hl : l.kind = .bracket .openParen)
    (he : Derives .expression n ps [e]) (hc : c.kind = .bracket .closeParen)
    (hb : b.kind = .bracket .openBrace) : Suits k (l :: (ps ++ [c, b])) where
  isHead :=
    have hwords : ∀ word ∈ ["sus", "talk", "mood"], word ∈ "else" :: blockWords := by decide
    Token.isHead_of_isWord hk (hwords word hword)
  guarded _ _ _ tag := (viable_brace hb).guarded hl he hc
  forLoop hf := absurd (Token.isWord_inj hk hf ▸ hword) (by decide)
  elseBlock he := absurd (Token.isWord_inj hk he ▸ hword) (by decide)

theorem of_loop (hk : k.isWord "forreal" = true) (hl : l.kind = .bracket .openParen)
    (hps : Fits ps [.value, .assignment, .value, .semicolon, .value, .comparison, .value,
      .semicolon, .value, .incDec]) (hc : c.kind = .bracket .closeParen)
    (hb : b.kind = .bracket .openBrace) : Suits k (l :: (ps ++ [c, b])) where
  isHead := Token.isHead_of_isWord hk (by decide)
  guarded word hword hw := absurd (Token.isWord_inj hk hw ▸ hword) (by decide)
  forLoop _ := by
    obtain ⟨u, s₁, v, s₂, x, e₁, e₂, e₃, rfl, hs₁, hs₂, ⟨hu, -⟩, ⟨hv, -⟩, hx, -⟩ := exists_loop 0 hps
    simpa using (viable_brace hb).forLoop hk hl hu hs₁ hv hs₂ hx hc
  elseBlock he := absurd (Token.isWord_inj hk he) (by decide)

theorem of_else (hk : k.isWord "else" = true) (hb : b.kind = .bracket .openBrace) :
    Suits k [b] where
  isHead := Token.isHead_of_isWord hk (by decide)
  guarded word hword hw := absurd (Token.isWord_inj hk hw ▸ hword) (by decide)
  forLoop hf := absurd (Token.isWord_inj hk hf) (by decide)
  elseBlock _ := viable_brace hb

end Suits

/-- The words of blocks are those of the constructs whose headers have a shape. -/
theorem exists_construct {word : String} (h : word ∈ blockWords) :
    ∃ c : Construct, c.keyword = word ∧ c.requiresBlock = true := by
  simp only [blockWords, List.mem_cons, List.not_mem_nil, or_false] at h
  rcases h with rfl | rfl | rfl | rfl
  · exact ⟨.conditional, rfl, rfl⟩
  · exact ⟨.whileLoop, rfl, rfl⟩
  · exact ⟨.switch, rfl, rfl⟩
  · exact ⟨.forLoop, rfl, rfl⟩

/-- What stands behind the head of a construct suits it. -/
theorem Checked.suits {c : Construct} {k : Token} {rest : List Token} (h : Checked (k :: rest))
    (hk : k.isWord c.keyword = true) (hc : c.requiresBlock = true) :
    ∃ l inside close b after, rest = l :: (inside ++ close :: b :: after) ∧
      l.kind = .bracket .openParen ∧ (∀ t ∈ inside, t.kind ≠ .bracket .closeParen) ∧
      close.kind = .bracket .closeParen ∧ b.kind = .bracket .openBrace ∧
      Suits k (l :: (inside ++ [close, b])) := by
  obtain ⟨slots, hslots⟩ := Option.isSome_iff_exists.mp hc
  obtain ⟨l, ps, close, b, after, rfl, hl, hfits, hclose, hb, -⟩ := h.header hk hslots
  refine ⟨l, ps, close, b, after, rfl, hl, hfits.not_close, hclose, hb, ?_⟩
  cases c with
  | print | input => cases hc
  | conditional | whileLoop =>
    cases hslots
    obtain ⟨e, he, -⟩ := exists_condition 0 hfits
    exact .of_condition hk (by decide) hl he hclose hb
  | switch =>
    cases hslots
    obtain ⟨e, he, -⟩ := exists_subject 0 hfits
    exact .of_condition hk (by decide) hl he hclose hb
  | forLoop =>
    cases hslots
    exact .of_loop hk hl hfits hclose hb

/-! ### The place of an error -/

theorem Viable.of_append {part : Part} {w v : List Token} (h : Viable part (w ++ v)) :
    Viable part w := by
  obtain ⟨n, x, ts, h⟩ := h
  exact ⟨n, v ++ x, ts, by simpa using h⟩

section Errors
variable {ts : List Token} {e : SyntaxError}

theorem viable_of_error (he : e ∈ (parse ts).errors) : Viable .statements (ts.take e.index) := by
  have hn := Nat.le_max_left maxNesting (openings (ts.take e.index) + 1)
  obtain ⟨v, ss, hd⟩ := exists_derives_of_error he hn (by omega)
  exact ⟨_, v, ss, hd⟩

/-- With the token where an error is noticed no program begins, however deep its brackets may nest. -/
theorem not_viable_of_error (he : e ∈ (parse ts).errors)
    (hdeep : ∀ limit, e.mismatch ≠ .tooDeep limit) (hlt : e.index < ts.length) :
    ¬ Viable .statements (ts.take (e.index + 1)) := by
  rintro ⟨n, v, ss, hd⟩
  obtain ⟨w, rest, items, failure?, rfl, hw⟩ := parseWithin_settled maxNesting ts
  rw [parse, hw rest rfl] at he
  cases failure? with
  | none => cases he
  | some m =>
    obtain rfl := List.mem_singleton.mp he
    cases rest with
    | nil => simp at hlt
    | cons t rest =>
      rw [List.take_length_add_append, List.take_succ_cons, List.take_zero, List.append_assoc] at hd
      have hss : ss ≠ [] := by
        rintro rfl
        generalize hnil : w ++ ([t] ++ v) = u at hd
        cases hd
        simp at hnil
      have herror := hw ([t] ++ v) rfl
      rcases parseWithin_capped (Nat.le_max_left maxNesting n) (w ++ ([t] ++ v)) with
        hsame | ⟨index, hlimit, -⟩
      · rw [parseWithin_of_derives (hd.mono (Nat.le_max_right maxNesting n)) hss, herror] at hsame
        cases hsame
      · rw [herror] at hlimit
        cases hlimit
        exact hdeep maxNesting rfl

/-- An error behind a head is noticed behind the brace of its block. -/
theorem error_past_head {x g rest : List Token} {k : Token} (he : e ∈ (parse ts).errors)
    (hdeep : ∀ limit, e.mismatch ≠ .tooDeep limit) (hts : ts = x ++ k :: (g ++ rest))
    (hg : Suits k g) (hx : ¬ InParameters x) (hlt : x.length < e.index) :
    x.length + g.length < e.index := by
  refine Nat.lt_of_not_le fun hle => ?_
  have hwhole : ts = (x ++ k :: g) ++ rest := by simp [hts]
  have hlen : (x ++ k :: g).length = x.length + g.length + 1 := by simp [Nat.add_assoc]
  refine not_viable_of_error he hdeep (by rw [hwhole, List.length_append]; omega) ?_
  rw [hwhole, List.take_append_of_le_length (by omega)]
  have hbefore := viable_of_error he
  obtain ⟨j, hj⟩ := Nat.exists_eq_add_of_lt hlt
  rw [hts, hj, Nat.add_assoc, List.take_length_add_append, List.take_succ_cons] at hbefore
  obtain ⟨n, v, ss, hd⟩ := hbefore
  have hsuits := (hd.viable_head hg rfl (List.append_assoc x _ v)).resolve_left hx
  rw [← List.take_append_drop (e.index + 1) (x ++ k :: g)] at hsuits
  exact hsuits.of_append

end Errors

theorem lex_checked {source : String} {lines : List TokenLine} (h : lex source = .ok lines) :
    Checked (TokenLine.flatten lines) := by
  obtain ⟨ht, hc⟩ := lex_eq_ok_iff.mp h
  exact ⟨_, _, hc, tokenize_spelled ht⟩

section Places
variable {ts : List Token} {p o : Nat} {k : Token}

theorem drop_of_getElem? (h : ts[p]? = some k) : ts.drop p = k :: ts.drop (p + 1) := by
  obtain ⟨hp, rfl⟩ := List.getElem?_eq_some_iff.mp h
  exact List.drop_eq_getElem_cons hp

theorem Checked.drop (h : Checked ts) (hk : ts[p]? = some k) : Checked (k :: ts.drop (p + 1)) :=
  h.of_suffix (drop_of_getElem? hk ▸ List.drop_suffix p ts)

/-- The block behind a header begins where it ends. -/
theorem Headed.drop (h : Headed ts p o) : ∃ l inside c b after,
    ts.drop (p + 1) = l :: (inside ++ c :: b :: after) ∧
      (∀ t ∈ inside, t.kind ≠ .bracket .closeParen) ∧ c.kind = .bracket .closeParen ∧
      ts.drop o = b :: after := by
  obtain ⟨l, inside, c, b, after, hdrop, -, hinside, hc, -, rfl⟩ := h
  refine ⟨l, inside, c, b, after, hdrop, hinside, hc, ?_⟩
  rw [show p + inside.length + 3 = p + 1 + (inside.length + 1 + 1) by omega, ← List.drop_drop, hdrop,
    List.drop_succ_cons, List.drop_length_add_append]
  rfl

/-- A block that belongs to a head has passed its check. -/
theorem OwnsBlock.checked (h : OwnsBlock ts p o) (hts : Checked ts) :
    ∃ before after, checkBlock before after (ts.drop o) = .ok () := by
  cases h with
  | construct hk hword hkw h =>
    obtain ⟨c, rfl, hc⟩ := exists_construct hword
    obtain ⟨slots, hslots⟩ := Option.isSome_iff_exists.mp hc
    obtain ⟨l, ps, close, b, after, hdrop, -, hfits, hclose, -, hblock⟩ :=
      (hts.drop hk).header hkw hslots
    obtain ⟨l', inside, close', b', after', hdrop', hinside, hclose', ho⟩ := h.drop
    obtain ⟨-, hrest⟩ := eq_of_first_close hinside hfits.not_close hclose' hclose
      (List.cons.inj (hdrop'.symm.trans hdrop)).2
    exact ⟨_, _, by rw [ho, hrest, hblock]⟩
  | elseBlock hk hkw hb hopen =>
    have hcheck := (hts.drop hk).checkElse hkw
    rw [checkElse, drop_of_getElem? hb] at hcheck
    rw [drop_of_getElem? hb]
    exact ⟨_, _, by simpa [Token.isWord, hopen, TokenKind.isWord] using hcheck⟩
  | definition hk hkw hf hfun h =>
    have hdef := hts.drop hk
    rw [drop_of_getElem? hf] at hdef
    obtain ⟨l, inside, c, rest, hdrop, harg, hblock⟩ := hdef.definition hkw hfun
    obtain ⟨l', inside', c', b, after, hdrop', hinside, hclose, ho⟩ := h.drop
    obtain ⟨-, rfl⟩ := List.cons.inj (hdrop.symm.trans hdrop')
    obtain ⟨-, hrest⟩ := harg.eq_of_first_close hinside hclose
    exact ⟨_, _, by rw [ho, hrest, hblock]⟩

end Places

namespace Checked
variable {ts : List Token} {p o : Nat} {k : Token} {e : SyntaxError}

/-- No error is noticed within what suits a head. -/
theorem error_past (h : Checked ts) (he : e ∈ (parse ts).errors)
    (hdeep : ∀ limit, e.mismatch ≠ .tooDeep limit) (hk : ts[p]? = some k) {g rest : List Token}
    (hdrop : ts.drop (p + 1) = g ++ rest) (hg : Suits k g) (hlt : p < e.index) :
    p + g.length < e.index := by
  have hts : ts = ts.take p ++ k :: (g ++ rest) := by
    rw [← hdrop, ← drop_of_getElem? hk, List.take_append_drop]
  have hlen : (ts.take p).length = p :=
    List.length_take_of_le (Nat.le_of_lt (List.getElem?_eq_some_iff.mp hk).1)
  have hpast := error_past_head he hdeep hts hg ((hts ▸ h).not_inParameters hg.isHead) (by omega)
  omega

theorem construct_preempts (h : Checked ts) (he : e ∈ (parse ts).errors)
    (hdeep : ∀ limit, e.mismatch ≠ .tooDeep limit) (hk : ts[p]? = some k) {word : String}
    (hword : word ∈ blockWords) (hkw : k.isWord word = true) :
    ∃ o, Headed ts p o ∧ ¬ (p < e.index ∧ e.index ≤ o) := by
  obtain ⟨c, rfl, hc⟩ := exists_construct hword
  obtain ⟨l, inside, close, b, after, hdrop, hl, hinside, hclose, hb, hg⟩ :=
    (h.drop hk).suits hkw hc
  refine ⟨_, ⟨l, inside, close, b, after, hdrop, hl, hinside, hclose, hb, rfl⟩, ?_⟩
  rintro ⟨hlt, hle⟩
  have hsplit : ts.drop (p + 1) = l :: (inside ++ [close, b]) ++ after := by simp [hdrop]
  have hpast := h.error_past he hdeep hk hsplit hg hlt
  simp only [List.length_cons, List.length_append, List.length_nil] at hpast
  omega

theorem else_preempts (h : Checked ts) (he : e ∈ (parse ts).errors)
    (hdeep : ∀ limit, e.mismatch ≠ .tooDeep limit) (hk : ts[p]? = some k)
    (hkw : k.isWord "else" = true) (hno : ts[p + 1]?.any (·.isWord "sus") = false) :
    e.index ≠ p + 1 := by
  intro hindex
  have hcheck := (h.drop hk).checkElse hkw
  rw [SlangScript.checkElse, List.head?_drop, hno] at hcheck
  obtain ⟨b, inside, -, hdrop, hb, -⟩ := exists_blockEnd_of_checkBlock hcheck
  have hsplit : ts.drop (p + 1) = [b] ++ inside := hdrop
  have hpast := h.error_past he hdeep hk hsplit (.of_else hkw hb) (by omega)
  simp only [List.length_singleton] at hpast
  omega

theorem block_preempts (h : Checked ts) (ho : OwnsBlock ts p o) {limit room : Nat} {f : Failure}
    (hf : (Production.level limit room).braces (ts.drop o) = .error f) :
    (f.toError ts.length).index < ts.length := by
  obtain ⟨before, after, hok⟩ := ho.checked h
  have hrest := List.length_pos_iff.mpr (braces_error_rest hok hf)
  obtain ⟨b, inside, -, hdrop, -, -⟩ := exists_blockEnd_of_checkBlock hok
  have hlen := congrArg List.length hdrop
  simp only [List.length_drop, List.length_cons] at hlen
  simp only [Failure.toError]
  omega

end Checked

/-- The checks of a text come before its parser at the heads of blocks. Whatever is wrong with checked
tokens, but for brackets that nest too deep, is not noticed behind the head of a construct and up to the
brace of its block, nor at the brace behind a plain `else`; and a block that belongs to a head, however
many levels are left for it, does not fail at the end of the tokens. -/
theorem lex_preempts {source : String} {lines : List TokenLine} (h : lex source = .ok lines) :
    (∀ e ∈ (parse (TokenLine.flatten lines)).errors, (∀ limit, e.mismatch ≠ .tooDeep limit) →
      ∀ p k, (TokenLine.flatten lines)[p]? = some k →
        (∀ word ∈ blockWords, k.isWord word = true →
          ∃ o, Headed (TokenLine.flatten lines) p o ∧ ¬ (p < e.index ∧ e.index ≤ o)) ∧
        (k.isWord "else" = true →
          (TokenLine.flatten lines)[p + 1]?.any (·.isWord "sus") = false → e.index ≠ p + 1)) ∧
    ∀ p o, OwnsBlock (TokenLine.flatten lines) p o → ∀ room f,
      (Production.level maxNesting room).braces ((TokenLine.flatten lines).drop o) = .error f →
        (f.toError (TokenLine.flatten lines).length).index < (TokenLine.flatten lines).length := by
  have hchecked := lex_checked h
  constructor
  · intro e he hdeep p k hk
    exact ⟨fun word => hchecked.construct_preempts he hdeep hk,
      hchecked.else_preempts he hdeep hk⟩
  · intro p o ho room f
    exact hchecked.block_preempts ho

/-- The tokens of `sus (a == 1) { x } else { y = ) }`. -/
def strayParenthesis : List Token :=
  [⟨.keyword, "sus", ⟨1, 1, 3⟩⟩, ⟨.bracket .openParen, "(", ⟨1, 5, 1⟩⟩,
    ⟨.identifier, "a", ⟨1, 6, 1⟩⟩, ⟨.operator .equalTo, "==", ⟨1, 8, 2⟩⟩,
    ⟨.integer, "1", ⟨1, 11, 1⟩⟩, ⟨.bracket .closeParen, ")", ⟨1, 12, 1⟩⟩,
    ⟨.bracket .openBrace, "\x7b", ⟨1, 14, 1⟩⟩, ⟨.identifier, "x", ⟨1, 16, 1⟩⟩,
    ⟨.bracket .closeBrace, "\x7d", ⟨1, 18, 1⟩⟩, ⟨.keyword, "else", ⟨1, 20, 4⟩⟩,
    ⟨.bracket .openBrace, "\x7b", ⟨1, 25, 1⟩⟩, ⟨.identifier, "y", ⟨1, 27, 1⟩⟩,
    ⟨.operator .assign, "=", ⟨1, 29, 1⟩⟩, ⟨.bracket .closeParen, ")", ⟨1, 31, 1⟩⟩,
    ⟨.bracket .closeBrace, "\x7d", ⟨1, 33, 1⟩⟩]

theorem strayParenthesis_preempted :
    (parse strayParenthesis).errors =
      [⟨13, .expression (some ⟨.bracket .closeParen, ")", ⟨1, 31, 1⟩⟩)⟩] ∧
    (∃ o, Headed strayParenthesis 0 o ∧ ¬ (0 < 13 ∧ 13 ≤ o)) ∧ 13 ≠ 9 + 1 ∧
    ∀ room f, (Production.level maxNesting room).braces (strayParenthesis.drop 10) = .error f →
      (f.toError 15).index < 15 := by
  have hlex : lex "sus (a == 1) \x7b x \x7d else \x7b y = ) \x7d" = .ok [⟨1, strayParenthesis⟩] := by
    have hsome : (lex "sus (a == 1) \x7b x \x7d else \x7b y = ) \x7d").toOption =
        some [⟨1, strayParenthesis⟩] := by decide +kernel
    cases h : lex "sus (a == 1) \x7b x \x7d else \x7b y = ) \x7d" with
    | ok lines =>
      rw [h] at hsome
      exact congrArg Except.ok (Option.some.inj hsome)
    | error e =>
      rw [h] at hsome
      cases hsome
  have herrors : (parse strayParenthesis).errors =
      [⟨13, .expression (some ⟨.bracket .closeParen, ")", ⟨1, 31, 1⟩⟩)⟩] := by decide +kernel
  obtain ⟨hheads, hblocks⟩ := lex_preempts hlex
  have hflat : TokenLine.flatten [⟨1, strayParenthesis⟩] = strayParenthesis := by decide
  rw [hflat] at hheads hblocks
  rw [herrors] at hheads
  have hsus := hheads _ (.head _) (fun _ => nofun) 0 ⟨.keyword, "sus", ⟨1, 1, 3⟩⟩ rfl
  have helse := hheads _ (.head _) (fun _ => nofun) 9 ⟨.keyword, "else", ⟨1, 20, 4⟩⟩ rfl
  exact ⟨herrors, hsus.1 "sus" (by decide) (by decide), helse.2 (by decide) (by decide),
    hblocks 9 10 (.elseBlock rfl (by decide) rfl rfl)⟩

end SlangScript
