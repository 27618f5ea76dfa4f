import SlangScript.Proofs.Spelling
import SlangScript.Validity.Program

/-! What is known of the tokens behind each head of a construct once a program has passed its checks. -/
namespace SlangScript

/-- Tokens that stand, as the last ones, in a program that has passed its checks. -/
def Checked (ts : List Token) : Prop :=
  ∃ lineCount before, checkTokens lineCount before ts = .ok () ∧ ∀ t ∈ ts, t.WellSpelled

theorem checkTokens_cons {lineCount : Nat} {before : Option Token} {t : Token} {ts : List Token} :
    checkTokens lineCount before (t :: ts) = .ok () ↔
      checkToken lineCount before t ts = .ok () ∧ checkTokens lineCount (some t) ts = .ok () := by
  rw [checkTokens]
  cases checkToken lineCount before t ts <;> simp [bind, Except.bind]

namespace Checked
variable {t k f : Token} {ts us : List Token}

theorem tail (h : Checked (t :: ts)) : Checked ts := by
  obtain ⟨lineCount, before, hc, hs⟩ := h
  exact ⟨lineCount, some t, (checkTokens_cons.mp hc).2, fun u hu => hs u (.tail t hu)⟩

theorem spelled (h : Checked ts) : ∀ t ∈ ts, t.WellSpelled := by
  obtain ⟨lineCount, before, -, hs⟩ := h
  exact hs

theorem of_suffix (h : Checked ts) (hs : us <:+ ts) : Checked us := by
  obtain ⟨pre, rfl⟩ := hs
  induction pre with
  | nil => exact h
  | cons t pre ih => exact ih h.tail

end Checked

theorem HeaderTokens.collect?_append {line : Nat} {ps rest : List Token} {c : Token}
    (hps : ∀ p ∈ ps, p.kind ≠ .bracket .closeParen ∧ p.span.line = line)
    (hc : c.kind = .bracket .closeParen) (hline : c.span.line = line) :
    collect? line (ps ++ c :: rest) = some ⟨ps, c, rest⟩ := by
  induction ps with
  | nil => simp [collect?, Token.isBracket, hc, hline]
  | cons p ps ih =>
    rw [List.forall_mem_cons] at hps
    have hp : p.isBracket .closeParen = false := by simp [Token.isBracket, hps.1.1]
    simp [collect?, hp, hps.1.2, ih hps.2]

/-- A header reaches to the first parenthesis that closes one, and all of it stands on the line. -/
theorem HeaderTokens.collect?_eq_some_iff {line : Nat} {ts : List Token} {h : HeaderTokens} :
    collect? line ts = some h ↔ ts = h.parameters ++ h.close :: h.rest ∧
      h.close.kind = .bracket .closeParen ∧ h.close.span.line = line ∧
      ∀ p ∈ h.parameters, p.kind ≠ .bracket .closeParen ∧ p.span.line = line := by
  constructor
  · intro hc
    induction ts generalizing h with
    | nil => cases hc
    | cons t ts ih =>
      rw [collect?] at hc
      split at hc
      · cases hc
      · rename_i hline
        rw [Decidable.not_not] at hline
        split at hc
        · rename_i ht
          cases hc
          exact ⟨rfl, by simpa [Token.isBracket] using ht, hline, nofun⟩
        · rename_i ht
          obtain ⟨h, hcollect, rfl⟩ := Option.map_eq_some_iff.mp hc
          obtain ⟨rfl, hk, hl, hps⟩ := ih hcollect
          refine ⟨rfl, hk, hl, List.forall_mem_cons.mpr ⟨⟨?_, hline⟩, hps⟩⟩
          simpa [Token.isBracket] using ht
  · rintro ⟨rfl, hk, hl, hps⟩
    exact collect?_append hps hk hl

theorem Token.isBracket_iff {t : Token} {b : Bracket} :
    t.isBracket b = true ↔ t.kind = .bracket b := by
  simp [isBracket]

theorem HeaderTokens.after_cons_eq_ok_iff {head o : Token} {ts : List Token} {h : HeaderTokens} :
    after head (o :: ts) = .ok h ↔
      o.kind = .bracket .openParen ∧ collect? head.span.line ts = some h := by
  rw [after]
  cases hopen : o.isBracket .openParen with
  | false => simp [← Token.isBracket_iff, hopen]
  | true => cases collect? head.span.line ts <;> simp [← Token.isBracket_iff, hopen]

/-- A header stands in parentheses, on the line of its head. -/
theorem HeaderTokens.after_eq_ok_iff {head : Token} {ts : List Token} {h : HeaderTokens} :
    after head ts = .ok h ↔ ∃ o, o.kind = .bracket .openParen ∧
      ts = o :: (h.parameters ++ h.close :: h.rest) ∧ h.close.kind = .bracket .closeParen ∧
      h.close.span.line = head.span.line ∧
      ∀ p ∈ h.parameters, p.kind ≠ .bracket .closeParen ∧ p.span.line = head.span.line := by
  cases ts with
  | nil => simp [after]
  | cons o ts =>
    rw [after_cons_eq_ok_iff, collect?_eq_some_iff]
    constructor
    · rintro ⟨ho, rfl, hheader⟩
      exact ⟨o, ho, rfl, hheader⟩
    · rintro ⟨_, ho, ⟨⟩, hheader⟩
      exact ⟨ho, rfl, hheader⟩

/-- The tokens fill the slots, one each. -/
def Fits : List Token → List HeaderSlot → Prop
  | [], [] => True
  | t :: ts, slot :: slots => slot.accepts t.kind = true ∧ Fits ts slots
  | _, _ => False

theorem Fits.length_eq {ps : List Token} {slots : List HeaderSlot} (h : Fits ps slots) :
    ps.length = slots.length := by
  induction ps generalizing slots with
  | nil =>
    cases slots with
    | nil => rfl
    | cons => cases h
  | cons p ps ih =>
    cases slots with
    | nil => cases h
    | cons slot slots => exact congrArg (· + 1) (ih h.2)

theorem HeaderSlot.not_accepts_bracket (slot : HeaderSlot) (b : Bracket) :
    slot.accepts (.bracket b) = false := by
  cases slot <;> rfl

theorem Fits.not_close {ps : List Token} {slots : List HeaderSlot} (h : Fits ps slots) :
    ∀ t ∈ ps, t.kind ≠ .bracket .closeParen := by
  induction ps generalizing slots with
  | nil => nofun
  | cons p ps ih =>
    cases slots with
    | nil => exact h.elim
    | cons slot slots =>
      refine List.forall_mem_cons.mpr ⟨fun hp => ?_, ih h.2⟩
      have hslot := h.1
      rw [hp, slot.not_accepts_bracket] at hslot
      cases hslot

theorem find?_eq_none_iff_fits {ps : List Token} {slots : List HeaderSlot}
    (hlen : ps.length = slots.length) :
    (ps.zip slots).find? (fun p => !p.2.accepts p.1.kind) = none ↔ Fits ps slots := by
  induction ps generalizing slots with
  | nil =>
    cases slots with
    | nil => simp [Fits]
    | cons => cases hlen
  | cons p ps ih =>
    cases slots with
    | nil => cases hlen
    | cons slot slots =>
      rw [List.zip_cons_cons, List.find?_cons, Fits, ← ih (Nat.succ.inj hlen)]
      cases slot.accepts p.kind <;> simp

/-- A header of fixed shape, which is never the empty one, is accepted where it fits the slots. -/
theorem checkShape_eq_ok_iff {head : Token} {keyword : String} {slots : List HeaderSlot}
    {ps : List Token} (hslots : slots ≠ []) :
    checkShape head keyword slots ps = .ok () ↔ Fits ps slots := by
  rw [checkShape]
  by_cases hlen : ps.length = slots.length
  · have hne : ps ≠ [] := by
      rintro rfl
      exact hslots (List.length_eq_zero_iff.mp hlen.symm)
    rw [← find?_eq_none_iff_fits hlen]
    cases hf : (ps.zip slots).find? fun p => !p.2.accepts p.1.kind <;> simp [hne, hlen]
  · have hfits : ¬ Fits ps slots := fun h => hlen h.length_eq
    simp only [if_pos hlen, hfits, iff_false]
    split <;> nofun

theorem Construct.shape_ne_nil {c : Construct} {slots : List HeaderSlot}
    (h : c.shape = some slots) : slots ≠ [] := by
  rintro rfl
  cases c <;> cases h

/-- A header of fixed shape fits its slots, and a block follows it. -/
theorem header_of_checkConstruct {head : Token} {c : Construct} {slots : List HeaderSlot}
    {ts : List Token} (hc : c.shape = some slots) (h : checkConstruct head c ts = .ok ()) :
    ∃ o ps close rest, ts = o :: (ps ++ close :: rest) ∧ o.kind = .bracket .openParen ∧
      close.kind = .bracket .closeParen ∧ Fits ps slots ∧
      checkBlock close c.keyword rest = .ok () := by
  rw [checkConstruct] at h
  cases ha : HeaderTokens.after head ts with
  | error e => rw [ha] at h; cases h
  | ok header =>
    obtain ⟨o, ho, rfl, hk, -⟩ := HeaderTokens.after_eq_ok_iff.mp ha
    simp only [ha, hc, bind, Except.bind] at h
    cases hs : checkShape head c.keyword slots header.parameters with
    | error e => rw [hs] at h; cases h
    | ok u =>
      rw [hs] at h
      exact ⟨o, _, _, _, rfl, ho, hk, (checkShape_eq_ok_iff (Construct.shape_ne_nil hc)).mp hs, h⟩

/-- Arguments up to a closing parenthesis `c`, which `rest` follows. -/
inductive Arguments : List Token → Token → List Token → Prop
  | close {c : Token} {rest : List Token} (hc : c.kind = .bracket .closeParen) :
    Arguments (c :: rest) c rest
  | argument {t c : Token} {ts rest : List Token} (ht : t.kind.isArgument = true)
    (h : Arguments ts c rest) : Arguments (t :: ts) c rest

theorem Arguments.of_append {c : Token} {ps rest : List Token}
    (hps : ∀ p ∈ ps, p.kind.isArgument = true) (hc : c.kind = .bracket .closeParen) :
    Arguments (ps ++ c :: rest) c rest := by
  induction ps with
  | nil => exact .close hc
  | cons p ps ih =>
    rw [List.forall_mem_cons] at hps
    exact .argument hps.1 (ih hps.2)

theorem arguments_of_checkFunction {before : Option Token} {head : Token} {ts : List Token}
    (h : checkFunction before head ts = .ok ()) : ∃ o inside c rest, ts = o :: inside ∧
      Arguments inside c rest ∧
      (before.any (·.isWord "trend") = true → checkBlock c head.lexeme rest = .ok ()) := by
  rw [checkFunction] at h
  cases ha : HeaderTokens.after head ts with
  | error e => rw [ha] at h; cases h
  | ok header =>
    obtain ⟨o, -, rfl, hk, -⟩ := HeaderTokens.after_eq_ok_iff.mp ha
    simp only [ha, bind, Except.bind] at h
    cases hf : header.parameters.find? fun p => !p.kind.isArgument with
    | some p => rw [hf] at h; cases h
    | none =>
      refine ⟨o, _, _, _, rfl, .of_append ?_ hk, fun hb => ?_⟩
      · simpa using List.find?_eq_none.mp hf
      · simpa [hf, hb] using h

namespace Checked
variable {k f : Token} {ts : List Token}

/-- A token with the spelling of a keyword is a keyword. -/
theorem keyword {word : String} (h : Checked (k :: ts)) (hk : k.isWord word = true)
    (hword : word ∉ reservedWords) : k.kind = .keyword ∧ k.lexeme = word := by
  obtain ⟨lineCount, before, hc, hs⟩ := h
  obtain ⟨hw, hlex⟩ : k.kind.isWord = true ∧ k.lexeme = word := by simpa [Token.isWord] using hk
  refine ⟨?_, hlex⟩
  cases hkind : k.kind <;> simp_all [TokenKind.isWord]
  exact absurd (hlex ▸ hs.1.2 hkind) hword

/-- The header and the block of a construct have been checked. -/
theorem construct {c : Construct} (h : Checked (k :: ts)) (hk : k.isWord c.keyword = true) :
    checkConstruct k c ts = .ok () := by
  obtain ⟨hkind, hlex⟩ := h.keyword hk (by cases c <;> decide)
  obtain ⟨lineCount, before, hc, -⟩ := h
  have hcheck := (checkTokens_cons.mp hc).1
  have hof : Construct.ofKeyword? c.keyword = some c := by cases c <;> rfl
  rw [checkToken, hkind, hlex] at hcheck
  simpa [hof] using hcheck

theorem checkElse (h : Checked (k :: ts)) (hk : k.isWord "else" = true) :
    SlangScript.checkElse k ts = .ok () := by
  obtain ⟨hkind, hlex⟩ := h.keyword hk (by decide)
  obtain ⟨lineCount, before, hc, -⟩ := h
  have hcheck := (checkTokens_cons.mp hc).1
  have hof : Construct.ofKeyword? "else" = none := by rfl
  rw [checkToken, hkind, hlex] at hcheck
  simpa [hof] using hcheck

theorem arguments (h : Checked (f :: ts)) (hf : f.kind = .function) :
    ∃ o inside c rest, ts = o :: inside ∧ Arguments inside c rest := by
  obtain ⟨lineCount, before, hc, -⟩ := h
  have hcheck := (checkTokens_cons.mp hc).1
  rw [checkToken, hf] at hcheck
  obtain ⟨o, inside, c, rest, hts, harg, -⟩ := arguments_of_checkFunction hcheck
  exact ⟨o, inside, c, rest, hts, harg⟩

/-- Where a function is defined, its block has been checked as well. -/
theorem definition (h : Checked (k :: f :: ts)) (hk : k.isWord "trend" = true)
    (hf : f.kind = .function) : ∃ o inside c rest, ts = o :: inside ∧ Arguments inside c rest ∧
      checkBlock c f.lexeme rest = .ok () := by
  obtain ⟨lineCount, before, hc, -⟩ := h
  have hcheck := (checkTokens_cons.mp (checkTokens_cons.mp hc).2).1
  rw [checkToken, hf] at hcheck
  obtain ⟨o, inside, c, rest, hts, harg, hblock⟩ := arguments_of_checkFunction hcheck
  exact ⟨o, inside, c, rest, hts, harg, hblock hk⟩

end Checked

end SlangScript
