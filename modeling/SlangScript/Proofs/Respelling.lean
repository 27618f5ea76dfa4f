import SlangScript.Proofs.Faults

/-! Programs that differ in the spelling of names and in the place of their lines. The checks look at a
name in one respect only: whether it opens a line list. -/
namespace SlangScript

/-- Tokens of one kind, spelled alike unless they are names, of which the second stands `k` lines further
down. -/
structure Token.Alike (k : Nat) (t u : Token) : Prop where
  kind : u.kind = t.kind
  line : u.span.line = t.span.line + k
  lexeme : t.kind ≠ .identifier → u.lexeme = t.lexeme

/-- Tokens that are alike one by one, where each opens a line list or does not as the other one does. -/
inductive Respelled (k : Nat) : List Token → List Token → Prop
  | nil : Respelled k [] []
  | cons {t u : Token} {ts us : List Token} (ht : t.Alike k u)
    (hline : OpensLineList t ts ↔ OpensLineList u us) (h : Respelled k ts us) :
    Respelled k (t :: ts) (u :: us)

namespace Token.Alike
variable {k : Nat} {t u : Token}

theorem isWord (h : t.Alike k u) (word : String) : u.isWord word = t.isWord word := by
  by_cases hname : t.kind = .identifier
  · simp [Token.isWord, h.kind, hname, TokenKind.isWord]
  · simp [Token.isWord, h.kind, h.lexeme hname]

theorem operator? (h : t.Alike k u) : u.operator? = t.operator? := by
  rw [Token.operator?, Token.operator?, h.kind]

end Token.Alike

namespace Respelled
variable {k : Nat} {t u : Token} {ts us vs : List Token}

theorem kinds (h : Respelled k ts us) : us.map (·.kind) = ts.map (·.kind) := by
  induction h with
  | nil => rfl
  | cons ht hline h ih => simp [ht.kind, ih]

theorem of_cons (h : Respelled k (t :: ts) us) :
    ∃ u vs, us = u :: vs ∧ t.Alike k u ∧ Respelled k ts vs := by
  cases h with
  | cons ht hline h => exact ⟨_, _, rfl, ht, h⟩

/-- The end of the first part opens no line list by itself. -/
theorem of_append (h : Respelled k (ts ++ us) vs) :
    ∃ ts' us', vs = ts' ++ us' ∧ Respelled k ts ts' ∧ Respelled k us us' := by
  induction ts generalizing vs with
  | nil => exact ⟨[], vs, rfl, .nil, h⟩
  | cons t ts ih =>
    cases h with
    | cons ht hline h =>
      rename_i u vs
      obtain ⟨ts', us', rfl, hts, hus⟩ := ih h
      refine ⟨u :: ts', us', rfl, .cons ht ?_ hts, hus⟩
      cases hts with
      | nil => simp [OpensLineList]
      | cons => exact hline

theorem of_singleton (h : Respelled k [t] us) : ∃ u, us = [u] ∧ t.Alike k u := by
  obtain ⟨u, vs, rfl, hu, h⟩ := h.of_cons
  cases h
  exact ⟨u, rfl, hu⟩

theorem of_between (h : Respelled k (ts ++ t :: us) vs) : ∃ ts' u us', vs = ts' ++ u :: us' ∧
    Respelled k ts ts' ∧ t.Alike k u ∧ Respelled k us us' := by
  obtain ⟨ts', vs, rfl, hts, h⟩ := h.of_append
  obtain ⟨u, us', rfl, hu, hus⟩ := h.of_cons
  exact ⟨ts', u, us', rfl, hts, hu, hus⟩

theorem of_concat (h : Respelled k (ts ++ [t]) vs) :
    ∃ ts' u, vs = ts' ++ [u] ∧ Respelled k ts ts' ∧ t.Alike k u := by
  obtain ⟨ts', u, us, rfl, hts, hu, h⟩ := h.of_between
  cases h
  exact ⟨ts', u, rfl, hts, hu⟩

theorem head? (h : Respelled k ts us) (ht : ts.head? = some t) :
    ∃ u, us.head? = some u ∧ t.Alike k u := by
  cases h with
  | nil => cases ht
  | cons hu hline h =>
    cases ht
    exact ⟨_, rfl, hu⟩

theorem head?_symm (h : Respelled k ts us) (hu : us.head? = some u) :
    ∃ t, ts.head? = some t ∧ t.Alike k u := by
  cases h with
  | nil => cases hu
  | cons ht hline h =>
    cases hu
    exact ⟨_, rfl, ht⟩

theorem tail (h : Respelled k ts us) : Respelled k ts.tail us.tail := by
  cases h with
  | nil => exact .nil
  | cons ht hline h => exact h

theorem forall_mem {P Q : Token → Prop} (h : Respelled k ts us)
    (hPQ : ∀ t u, t.Alike k u → P t → Q u) (hts : ∀ t ∈ ts, P t) : ∀ u ∈ us, Q u := by
  induction h with
  | nil => nofun
  | cons ht hline h ih =>
    rw [List.forall_mem_cons] at hts ⊢
    exact ⟨hPQ _ _ ht hts.1, ih hts.2⟩

theorem refl (ts : List Token) : Respelled 0 ts ts := by
  induction ts with
  | nil => exact .nil
  | cons t ts ih => exact .cons ⟨rfl, rfl, fun _ => rfl⟩ .rfl ih

theorem symm (h : Respelled 0 ts us) : Respelled 0 us ts := by
  induction h with
  | nil => exact .nil
  | cons ht hline h ih =>
    refine .cons ⟨ht.kind.symm, ht.line.symm, fun hu => ?_⟩ hline.symm ih
    exact (ht.lexeme fun hname => hu (ht.kind.trans hname)).symm

end Respelled

/-! ### Rules -/

section Rules
variable {k n m : Nat} {before before' : Option Token} {t u : Token} {ts us rest rest' : List Token}

theorem Enclosed.respelled {left right : Bracket} {line : Nat} {inside behind : List Token}
    (h : Enclosed left right line ts inside behind) (hus : Respelled k ts us) :
    ∃ inside' behind', Enclosed left right (line + k) us inside' behind' ∧
      Respelled k inside inside' ∧ Respelled k behind behind' := by
  obtain ⟨o, c, rfl, ho, hc, hline, hinside⟩ := h
  obtain ⟨o', us, rfl, ho', hus⟩ := hus.of_cons
  obtain ⟨inside', c', behind', rfl, hinside', hc', hbehind'⟩ := hus.of_between
  refine ⟨inside', behind', ⟨o', c', rfl, ho'.kind.trans ho, hc'.kind.trans hc, ?_, ?_⟩, hinside',
    hbehind'⟩
  · rw [hc'.line, hline]
  · exact hinside'.forall_mem (fun t u hu ht => by rw [hu.line, ht]) hinside

theorem Fits.of_kinds {slots : List HeaderSlot} (h : Fits ts slots)
    (hus : us.map (·.kind) = ts.map (·.kind)) : Fits us slots := by
  induction ts generalizing us slots with
  | nil =>
    rw [List.map_nil, List.map_eq_nil_iff] at hus
    exact hus ▸ h
  | cons t ts ih =>
    obtain ⟨u, us, rfl, hkind, hkinds⟩ := List.map_eq_cons_iff.mp hus
    cases slots with
    | nil => exact h
    | cons slot slots => exact ⟨hkind ▸ h.1, ih h.2 hkinds⟩

theorem braceBalance_of_kinds (h : us.map (·.kind) = ts.map (·.kind)) :
    braceBalance us = braceBalance ts := by
  have hcount (b : Bracket) (ts : List Token) :
      ts.countP (·.isBracket b) = (ts.map (·.kind)).countP (· = .bracket b) := by
    rw [List.countP_map]
    rfl
  simp only [braceBalance, hcount, h]

theorem BlockEnds.of_kinds {outer : Int} {e : Nat} (h : BlockEnds outer ts e)
    (hus : us.map (·.kind) = ts.map (·.kind)) : BlockEnds outer us e := by
  have htake (i : Nat) : braceBalance (us.take i) = braceBalance (ts.take i) :=
    braceBalance_of_kinds (by rw [List.map_take, List.map_take, hus])
  have hlength : us.length = ts.length := by simpa using congrArg List.length hus
  exact {
    lt_length := hlength ▸ h.lt_length
    even := htake _ ▸ h.even
    first := fun i hi => htake _ ▸ h.first i hi }

theorem HasBlock.of_kinds (h : HasBlock ts) (hus : us.map (·.kind) = ts.map (·.kind)) :
    HasBlock us := by
  obtain ⟨o, e, hhead, ho, hends, t, ht, hbrace⟩ := h
  have hheads := congrArg List.head? hus
  rw [List.head?_map, List.head?_map, hhead] at hheads
  obtain ⟨o', hhead', ho'⟩ := Option.map_eq_some_iff.mp hheads
  have htake : (us.take e).map (·.kind) = (ts.take e).map (·.kind) := by
    rw [List.map_take, List.map_take, hus]
  have hkind : t.kind ∈ (us.take e).map (·.kind) := htake ▸ List.mem_map_of_mem ht
  obtain ⟨u, hu, hkind⟩ := List.mem_map.mp hkind
  refine ⟨o', e, hhead', ho'.trans ho, hends.of_kinds hus, u, hu, ?_⟩
  simpa [Token.isBrace, Token.isBracket, hkind] using hbrace

theorem IsEntry.mono (h : IsEntry n t) (hn : n ≤ m) : IsEntry m t := by
  refine h.imp_right ?_
  rintro ⟨hkind, value, hnumeral, hlt, hpos, hle⟩
  exact ⟨hkind, value, hnumeral, hlt, hpos, Nat.le_trans hle hn⟩

theorem IsEntry.alike (h : IsEntry n t) (hu : t.Alike k u) : IsEntry n u := by
  rcases h with hkind | ⟨hkind, hnumber⟩
  · exact .inl (hu.kind.trans hkind)
  · have hlexeme := hu.lexeme (by rw [hkind]; nofun)
    exact .inr ⟨hu.kind.trans hkind, hlexeme ▸ hnumber⟩

/-- A token meets its rule under another name, wherever its line stands, in a program with more lines,
and behind whatever does not define it. -/
theorem MeetsRule.respelled (h : MeetsRule n before t rest) (hn : n ≤ m)
    (hbefore : ∀ b ∈ before', b.isWord "trend" = true → ∃ b' ∈ before, b'.isWord "trend" = true)
    (hus : Respelled k (t :: rest) (u :: rest')) : MeetsRule m before' u rest' := by
  cases hus with
  | cons hu hline hrest =>
  have hlexeme {kind : TokenKind} (hkind : u.kind = kind) (hname : kind ≠ .identifier) :
      t.kind = kind ∧ t.lexeme = u.lexeme := by
    have ht := hu.kind.symm.trans hkind
    exact ⟨ht, (hu.lexeme (ht ▸ hname)).symm⟩
  exact {
    shaped := fun c slots hkind hword hc => by
      obtain ⟨ht, hsame⟩ := hlexeme hkind nofun
      obtain ⟨inside, behind, henclosed, hfits, hblock⟩ := h.shaped c slots ht (hsame.trans hword) hc
      obtain ⟨inside', behind', henclosed', hinside, hbehind⟩ := henclosed.respelled hrest
      exact ⟨inside', behind', hu.line ▸ henclosed', hfits.of_kinds hinside.kinds,
        hblock.of_kinds hbehind.kinds⟩
    shapeless := fun c hkind hword hc => by
      obtain ⟨ht, hsame⟩ := hlexeme hkind nofun
      obtain ⟨inside, behind, henclosed⟩ := h.shapeless c ht (hsame.trans hword) hc
      obtain ⟨inside', behind', henclosed', -⟩ := henclosed.respelled hrest
      exact ⟨inside', behind', hu.line ▸ henclosed'⟩
    otherwise := fun hkind hword => by
      obtain ⟨ht, hsame⟩ := hlexeme hkind nofun
      rcases h.otherwise ht (hsame.trans hword) with ⟨s, hs, hsus⟩ | hblock
      · obtain ⟨s', hs', halike⟩ := hrest.head? hs
        exact .inl ⟨s', hs', (halike.isWord _).trans hsus⟩
      · exact .inr (hblock.of_kinds hrest.kinds)
    definition := fun hkind hword => by
      obtain ⟨ht, hsame⟩ := hlexeme hkind nofun
      obtain ⟨f, hf, hfun⟩ := h.definition ht (hsame.trans hword)
      obtain ⟨f', hf', halike⟩ := hrest.head? hf
      exact ⟨f', hf', halike.kind.trans hfun⟩
    function := fun hkind => by
      obtain ⟨ht, -⟩ := hlexeme hkind nofun
      obtain ⟨inside, behind, henclosed, harguments, hblock⟩ := h.function ht
      obtain ⟨inside', behind', henclosed', hinside, hbehind⟩ := henclosed.respelled hrest
      refine ⟨inside', behind', hu.line ▸ henclosed', ?_, ?_⟩
      · exact hinside.forall_mem (fun t u hu ht => hu.kind ▸ ht) harguments
      · rintro ⟨b, hb, htrend⟩
        exact (hblock (hbefore b hb htrend)).of_kinds hbehind.kinds
    lineList := fun hisLine s hs hassign => by
      obtain ⟨ht, s', hs', hassign'⟩ := hline.mpr ⟨hisLine, s, hs, hassign⟩
      obtain ⟨inside, behind, henclosed, hentries⟩ := h.lineList ht s' hs' hassign'
      obtain ⟨inside', behind', henclosed', hinside, -⟩ := henclosed.respelled hrest.tail
      exact ⟨inside', behind', hu.line ▸ henclosed',
        hinside.forall_mem (fun t u hu ht => (ht.alike hu).mono hn) hentries⟩ }

theorem checkTokens_respelled (h : checkTokens n before ts = .ok ()) (hn : n ≤ m)
    (hbefore : ∀ b ∈ before', b.isWord "trend" = true → ∃ b' ∈ before, b'.isWord "trend" = true)
    (hus : Respelled k ts us) : checkTokens m before' us = .ok () := by
  induction hus generalizing before before' with
  | nil => rfl
  | cons ht hline hus ih =>
    rename_i t u ts us
    rw [checkTokens_cons, checkToken_eq_ok_iff] at h ⊢
    refine ⟨h.1.respelled hn hbefore (.cons ht hline hus), ih h.2 ?_⟩
    rintro _ ⟨⟩ htrend
    exact ⟨t, rfl, (ht.isWord _).symm.trans htrend⟩

/-- More lines admit what fewer lines do. -/
theorem checkTokens_mono (h : checkTokens n before ts = .ok ()) (hn : n ≤ m) :
    checkTokens m before ts = .ok () :=
  checkTokens_respelled h hn (fun b hb htrend => ⟨b, hb, htrend⟩) (.refl ts)

end Rules

end SlangScript
