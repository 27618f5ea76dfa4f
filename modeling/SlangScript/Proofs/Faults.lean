import SlangScript.Proofs.ValidityRules

/-! The faults that the checks find. Each is the fault of a token that is checked or stands behind it, and
quotes no other text than that of the token. Faults of line lists are found behind `line =` alone. -/
namespace SlangScript

namespace LexErrorKind

/-- The characters that a message quotes as what is wrong. -/
def quoted? : LexErrorKind → Option (List Char)
  | invalidCharacter c | invalidOperator c => some [c]
  | invalidParameter _ lexeme _ | missingSemicolon _ lexeme | invalidFunctionParameter _ lexeme
  | invalidLineEntry lexeme | lineOutOfRange lexeme _ => some lexeme.toList
  | _ => none

/-- What can be wrong with a line list. -/
def isLineFault : LexErrorKind → Bool
  | expectedOpenBracket | missingCloseBracket | invalidLineEntry _ | lineOutOfRange _ _ => true
  | _ => false

end LexErrorKind

/-- The error points at this token, and quotes nothing but its text. -/
structure LexError.Names (e : LexError) (t : Token) : Prop where
  span : e.span = t.span
  quoted : ∀ q ∈ e.kind.quoted?, q = t.lexeme.toList

/-- One of these tokens is at fault, and no line list is. -/
def LexError.FaultIn (e : LexError) (ts : List Token) : Prop :=
  (∃ t ∈ ts, e.Names t) ∧ e.kind.isLineFault = false

/-- The name `line` and the sign that begins its list. -/
def OpensLineList (t : Token) (rest : List Token) : Prop :=
  t.isLine ∧ ∃ s, rest.head? = some s ∧ s.operator? = some .assign

section Checks
variable {e : LexError} {head before opening t : Token} {ts us rest parameters : List Token}
  {c : Construct} {keyword after : String} {lineCount line : Nat}

theorem LexError.FaultIn.mono (h : e.FaultIn ts) (hs : ts ⊆ us) : e.FaultIn us := by
  obtain ⟨⟨t, ht, hnames⟩, hplain⟩ := h
  exact ⟨⟨t, hs ht, hnames⟩, hplain⟩

/-- A fault that quotes nothing. -/
theorem names_of_span {kind : LexErrorKind} (hq : kind.quoted? = none) :
    LexError.Names ⟨kind, t.span⟩ t := ⟨rfl, by simp [hq]⟩

theorem faultIn_of_span {kind : LexErrorKind} (ht : t ∈ ts) (hq : kind.quoted? = none)
    (hl : kind.isLineFault = false) : LexError.FaultIn ⟨kind, t.span⟩ ts :=
  ⟨⟨t, ht, names_of_span hq⟩, hl⟩

theorem after_fault (h : HeaderTokens.after head rest = .error e) : e.FaultIn [head] := by
  rw [HeaderTokens.after.eq_def] at h
  split at h
  · cases h
    exact faultIn_of_span (.head _) rfl rfl
  · split at h
    · split at h
      · cases h
      · cases h
        exact faultIn_of_span (.head _) rfl rfl
    · cases h
      exact faultIn_of_span (.head _) rfl rfl

theorem refusal_fault (slot : HeaderSlot) (ht : t ∈ ts) : (slot.refusal keyword t).FaultIn ts := by
  cases slot <;> exact ⟨⟨t, ht, rfl, by rintro _ ⟨⟩; rfl⟩, rfl⟩

theorem checkShape_fault {shape : List HeaderSlot}
    (h : checkShape head keyword shape parameters = .error e) : e.FaultIn (head :: parameters) := by
  rw [checkShape] at h
  split at h
  · cases h
    exact faultIn_of_span (.head _) rfl rfl
  · split at h
    · cases h
      exact faultIn_of_span (.head _) rfl rfl
    · split at h
      · rename_i p slot hfind
        cases h
        exact refusal_fault slot (.tail _ (List.of_mem_zip (List.mem_of_find?_eq_some hfind)).1)
      · cases h

theorem checkBlock_fault (h : checkBlock before after rest = .error e) :
    e.FaultIn (before :: rest) := by
  rw [checkBlock.eq_def] at h
  split at h
  · cases h
    exact faultIn_of_span (.head _) rfl rfl
  · split at h
    · split at h
      · cases h
      · cases h
        exact faultIn_of_span (.tail _ (.head _)) rfl rfl
      · cases h
        exact faultIn_of_span (.tail _ (.head _)) rfl rfl
    · cases h
      exact faultIn_of_span (.head _) rfl rfl

/-- What is read of a header stands behind its head. -/
theorem header_subset {header : HeaderTokens} (h : HeaderTokens.after head rest = .ok header) :
    header.parameters ⊆ rest ∧ header.close :: header.rest ⊆ rest := by
  obtain ⟨o, -, rfl, -⟩ := HeaderTokens.after_eq_ok_iff.mp h
  refine ⟨fun t ht => ?_, fun t ht => ?_⟩
  · exact .tail _ (List.mem_append_left _ ht)
  · exact .tail _ (List.mem_append_right _ ht)

theorem checkConstruct_fault (h : checkConstruct head c rest = .error e) :
    e.FaultIn (head :: rest) := by
  rw [checkConstruct, except_bind_eq_error] at h
  rcases h with h | ⟨header, hheader, h⟩
  · exact (after_fault h).mono (by simp)
  · obtain ⟨hparameters, hrest⟩ := header_subset hheader
    split at h
    · cases h
    · rcases except_bind_eq_error.mp h with h | ⟨_, -, h⟩
      · exact (checkShape_fault h).mono (List.cons_subset_cons _ hparameters)
      · exact (checkBlock_fault h).mono fun t ht => .tail _ (hrest ht)

theorem checkElse_fault (h : checkElse head rest = .error e) : e.FaultIn (head :: rest) := by
  rw [checkElse] at h
  split at h
  · cases h
  · exact checkBlock_fault h

theorem checkDefinition_fault (h : checkDefinition head rest = .error e) :
    e.FaultIn (head :: rest) := by
  rw [checkDefinition] at h
  split at h
  · cases h
  · cases h
    exact faultIn_of_span (.head _) rfl rfl

theorem checkFunction_fault {before : Option Token} (h : checkFunction before head rest = .error e) :
    e.FaultIn (head :: rest) := by
  rw [checkFunction, except_bind_eq_error] at h
  rcases h with h | ⟨header, hheader, h⟩
  · exact (after_fault h).mono (by simp)
  · obtain ⟨hparameters, hrest⟩ := header_subset hheader
    split at h
    · rename_i p hfind
      cases h
      have hp := hparameters (List.mem_of_find?_eq_some hfind)
      exact ⟨⟨p, .tail _ hp, rfl, by rintro _ ⟨⟩; rfl⟩, rfl⟩
    · split at h
      · exact (checkBlock_fault h).mono fun t ht => .tail _ (hrest ht)
      · cases h

theorem checkEntries_names (h : checkEntries lineCount line opening ts = .error e) :
    ∃ t ∈ opening :: ts, e.Names t := by
  induction ts with
  | nil =>
    cases h
    exact ⟨opening, .head _, names_of_span rfl⟩
  | cons t ts ih =>
    have hlater (h : checkEntries lineCount line opening ts = .error e) :
        ∃ u ∈ opening :: t :: ts, e.Names u := by
      obtain ⟨u, hu, hnames⟩ := ih h
      have hsub : opening :: ts ⊆ opening :: t :: ts :=
        List.cons_subset_cons _ (List.subset_cons_self _ _)
      exact ⟨u, hsub hu, hnames⟩
    rw [checkEntries] at h
    split at h
    · cases h
      exact ⟨opening, .head _, names_of_span rfl⟩
    · split at h
      · cases h
      · exact hlater h
      · split at h
        · exact hlater h
        · cases h
          exact ⟨t, by simp, rfl, by rintro _ ⟨⟩; rfl⟩
      · cases h
        exact ⟨t, by simp, rfl, by rintro _ ⟨⟩; rfl⟩

theorem checkLineList_names (h : checkLineList lineCount head rest = .error e) :
    (∃ t ∈ rest, e.Names t) ∧ ∃ s, rest.head? = some s ∧ s.operator? = some .assign := by
  rw [checkLineList.eq_def] at h
  split at h
  · cases h
  · rename_i sign list
    split at h
    · rename_i hs
      refine ⟨?_, sign, rfl, hs⟩
      split at h
      · cases h
        exact ⟨sign, .head _, names_of_span rfl⟩
      · split at h
        · obtain ⟨t, ht, hnames⟩ := checkEntries_names h
          exact ⟨t, .tail _ ht, hnames⟩
        · cases h
          exact ⟨sign, .head _, names_of_span rfl⟩
    · cases h

/-- The fault that a check finds is one of the token or of those behind it. It is one of a line list only
where the token opens one. -/
theorem checkToken_fault {before : Option Token} (h : checkToken lineCount before t rest = .error e) :
    (∃ u ∈ t :: rest, e.Names u) ∧ (e.kind.isLineFault = true → OpensLineList t rest) := by
  have hplain (h : e.FaultIn (t :: rest)) :
      (∃ u ∈ t :: rest, e.Names u) ∧ (e.kind.isLineFault = true → OpensLineList t rest) :=
    ⟨h.1, fun hl => absurd (h.2.symm.trans hl) nofun⟩
  rw [checkToken] at h
  split at h
  · split at h
    · exact hplain (checkConstruct_fault h)
    · split at h
      · exact hplain (checkElse_fault h)
      · cases h
  · split at h
    · exact hplain (checkDefinition_fault h)
    · cases h
  · exact hplain (checkFunction_fault h)
  · rename_i hkind
    split at h
    · rename_i hline
      obtain ⟨⟨u, hu, hnames⟩, hs⟩ := checkLineList_names h
      exact ⟨⟨u, .tail _ hu, hnames⟩, fun _ => ⟨⟨hkind, hline⟩, hs⟩⟩
    · cases h
  · cases h

end Checks

/-- The fault for which a program is rejected is one of its tokens. -/
theorem validate_names {lines : List TokenLine} {e : LexError} (h : validate lines = .error e) :
    ∃ t ∈ TokenLine.flatten lines, e.Names t := by
  obtain ⟨i, t, ht, -, herror⟩ := exists_of_validate_eq_error h
  obtain ⟨⟨u, hu, hnames⟩, -⟩ := checkToken_fault herror
  rcases List.mem_cons.mp hu with rfl | hu
  · exact ⟨u, List.mem_of_getElem? ht, hnames⟩
  · exact ⟨u, List.mem_of_mem_drop hu, hnames⟩

end SlangScript
