import SlangScript.Proofs.ErrorPlaces

/-! The lexemes of a text, written anew on one line. Each is a lexeme of the same kind where white space
comes next in place of what came before, so that they are read as they were. -/
namespace SlangScript

/-- `Joined tokens text`: the text is the lexemes in order, on one line, with white space between
neighbours, except behind the name of a function. -/
inductive Joined : List Token → List Char → Prop
  | last {t : Token} : Joined [t] t.lexeme.toList
  | function {t : Token} {ts : List Token} {text : List Char} (ht : t.kind = .function)
    (h : Joined ts text) : Joined (t :: ts) (t.lexeme.toList ++ text)
  | spaced {t : Token} {ts : List Token} {gap text : List Char} (ht : t.kind ≠ .function)
    (hne : gap ≠ []) (hgap : ∀ c ∈ gap, isBlank c = true ∧ c ≠ '\n') (h : Joined ts text) :
    Joined (t :: ts) (t.lexeme.toList ++ (gap ++ text))

section Texts
variable {text rest : List Char} {lines : List TokenLine} {source : String}

/-- A line holds no line feed. -/
theorem lineFeed_not_mem_of_mem_splitOn (h : rest ∈ text.splitOn '\n') : '\n' ∉ rest := by
  induction text generalizing rest with
  | nil =>
    obtain rfl := List.mem_singleton.mp h
    exact List.not_mem_nil
  | cons c text ih =>
    obtain ⟨first, more, hlines⟩ := List.exists_cons_of_ne_nil (List.splitOn_ne_nil '\n' text)
    simp only [List.splitOn_cons_eq_if_modifyHead, beq_iff_eq, hlines] at h
    rw [hlines] at ih
    split at h
    · rcases List.mem_cons.mp h with rfl | h
      · exact List.not_mem_nil
      · exact ih h
    · rename_i hc
      rcases List.mem_cons.mp h with rfl | h
      · rw [List.mem_cons]
        rintro (hfeed | hfeed)
        · exact hc hfeed.symm
        · exact ih (.head _) hfeed
      · exact ih (.tail _ h)

/-- No lexeme of a text holds a line feed. -/
theorem tokenize_lexeme_lineFeed (h : tokenize source = .ok lines) :
    ∀ t ∈ TokenLine.flatten lines, '\n' ∉ t.lexeme.toList := by
  intro t ht hfeed
  obtain ⟨found, hfound, ht⟩ := List.mem_flatMap.mp ht
  obtain ⟨k, hk⟩ := List.getElem?_of_mem hfound
  obtain ⟨-, text, htext, hpositioned⟩ := (tokenize_eq_ok_iff.mp h).2.positioned hk
  rw [← hpositioned.text_eq t ht] at hfeed
  exact lineFeed_not_mem_of_mem_splitOn (List.mem_of_getElem? htext)
    (List.mem_of_mem_drop (List.mem_of_mem_take hfeed))

end Texts

namespace Joined
variable {t : Token} {ts : List Token} {text gap : List Char} {pieces : List (TokenKind × String)}

/-- What is joined begins with its first lexeme. -/
theorem head?_eq (h : Joined (t :: ts) text) (hne : t.lexeme.toList ≠ []) :
    text.head? = t.lexeme.toList.head? := by
  cases h with
  | last => rfl
  | function => exact List.head?_append_of_ne_nil _ hne
  | spaced => exact List.head?_append_of_ne_nil _ hne

theorem lineFeed_not_mem (h : Joined ts text) (hts : ∀ t ∈ ts, '\n' ∉ t.lexeme.toList) :
    '\n' ∉ text := by
  induction h with
  | last => exact hts _ (.head _)
  | function ht h ih =>
    rw [List.forall_mem_cons] at hts
    rw [List.mem_append, not_or]
    exact ⟨hts.1, ih hts.2⟩
  | spaced ht hne hgap h ih =>
    rw [List.forall_mem_cons] at hts
    rw [List.mem_append, List.mem_append, not_or, not_or]
    exact ⟨hts.1, fun hfeed => (hgap _ hfeed).2 rfl, ih hts.2⟩

theorem exists_not_blank (h : Joined ts text) (hts : Lexemes ts) : ∃ c ∈ text, isBlank c = false := by
  cases hts with
  | nil => cases h
  | cons hl hfunction hts =>
    obtain ⟨c, hc, hblank⟩ := hl.getLast_not_blank
    have hmem := List.mem_of_getLast? hc
    refine ⟨c, ?_, hblank⟩
    cases h with
    | last => exact hmem
    | function => exact List.mem_append_left _ hmem
    | spaced => exact List.mem_append_left _ hmem

end Joined

theorem Segmented.blanks {gap rest : List Char} {pieces : List (TokenKind × String)}
    (hgap : ∀ c ∈ gap, isBlank c = true) (h : Segmented rest pieces) :
    Segmented (gap ++ rest) pieces := by
  induction gap with
  | nil => exact h
  | cons c gap ih =>
    rw [List.forall_mem_cons] at hgap
    exact .blank hgap.1 (ih hgap.2)

/-- A token in front of a line of lexemes. -/
theorem Segmented.token {t : Token} {rest : List Char} {pieces : List (TokenKind × String)}
    (hl : IsLexeme t.kind t.lexeme.toList rest) (h : Segmented rest pieces) :
    Segmented (t.lexeme.toList ++ rest) (t.piece :: pieces) := by
  have hs := Segmented.lexeme hl h
  rwa [String.ofList_toList] at hs

/-- Joined on a line, lexemes are again lexemes of their kinds. -/
theorem Joined.segmented {ts : List Token} {text : List Char} (h : Joined ts text)
    (hts : Lexemes ts) : Segmented text (ts.map Token.piece) := by
  induction h with
  | last =>
    rename_i t
    cases hts with
    | cons hl hfunction =>
      have hend : IsLexeme t.kind t.lexeme.toList [] := by
        apply hl.elsewhere
        · intro c hc
          cases hc
        · intro hkind
          obtain ⟨p, hp, -⟩ := hfunction hkind
          cases hp
      have hs := Segmented.token hend .nil
      rwa [List.append_nil] at hs
  | function ht h ih =>
    rename_i t ts text
    cases hts with
    | cons hl hfunction hts =>
      -- the name of a function is followed by its parenthesis as it was
      obtain ⟨p, hp, hparen⟩ := hfunction ht
      obtain ⟨us, rfl⟩ := List.head?_eq_some_iff.mp hp
      have hne : p.lexeme.toList ≠ [] := by
        intro hnil
        rw [hnil] at hparen
        cases hparen
      have hhead : text.head? = some '(' := (h.head?_eq hne).trans hparen
      refine .token (hl.elsewhere ?_ fun _ => hhead) (ih hts)
      intro c hc
      rw [Option.mem_def, hhead] at hc
      rw [ht] at hl
      exact .inl (hl.function_head.trans hc)
  | spaced ht hne hgap h ih =>
    rename_i t ts gap text
    cases hts with
    | cons hl hfunction hts =>
      refine .token (hl.elsewhere ?_ fun hkind => absurd hkind ht)
        (.blanks (fun c hc => (hgap c hc).1) (ih hts))
      intro c hc
      rw [List.head?_append_of_ne_nil _ hne] at hc
      exact .inr (hgap c (List.mem_of_head? hc)).1

/-- The lexemes of a text that has tokens, joined on one line with any white space between neighbours,
make a text of the same lexemes with the same kinds. A function's name alone is joined to what comes
next, since it is known by the parenthesis. -/
theorem tokenize_joined {source text : String} {lines : List TokenLine}
    (h : tokenize source = .ok lines) (hjoined : Joined (TokenLine.flatten lines) text.toList) :
    ∃ ts, tokenize text = .ok [⟨1, ts⟩] ∧
      ts.map Token.piece = (TokenLine.flatten lines).map Token.piece := by
  have hlexemes := (tokenize_eq_ok_iff.mp h).2.lexemes
  obtain ⟨ts, hlaid, hpieces⟩ := (segmented_iff_laid 1 1).mp (hjoined.segmented hlexemes)
  have hfeed := hjoined.lineFeed_not_mem (tokenize_lexeme_lineFeed h)
  refine ⟨ts, ?_, hpieces.symm⟩
  rw [tokenize_eq_ok_iff, List.splitOn_eq_singleton hfeed]
  exact ⟨hjoined.exists_not_blank hlexemes, .cons hlaid .nil⟩

/-- The tokens of `f(x)` and, on the next line, `=='a b'`. -/
def calledComparison : List TokenLine :=
  [⟨1, [⟨.function, "f", ⟨1, 1, 1⟩⟩, ⟨.bracket .openParen, "(", ⟨1, 2, 1⟩⟩,
      ⟨.identifier, "x", ⟨1, 3, 1⟩⟩, ⟨.bracket .closeParen, ")", ⟨1, 4, 1⟩⟩]⟩,
    ⟨2, [⟨.operator .equalTo, "==", ⟨2, 1, 2⟩⟩, ⟨.string, "'a b'", ⟨2, 3, 5⟩⟩]⟩]

theorem calledComparison_joined :
    tokenize "f(x)\n=='a b'" = .ok calledComparison ∧
    Joined (TokenLine.flatten calledComparison) "f( x\t) == 'a b'".toList ∧
    ∃ ts, tokenize "f( x\t) == 'a b'" = .ok [⟨1, ts⟩] ∧
      ts.map Token.piece = (TokenLine.flatten calledComparison).map Token.piece := by
  have hscan : scan "f(x)\n=='a b'" = ⟨calledComparison, none⟩ := by decide +kernel
  have h : tokenize "f(x)\n=='a b'" = .ok calledComparison := by rw [tokenize, hscan]
  have hspace : ∀ c ∈ [' '], isBlank c = true ∧ c ≠ '\n' := List.forall_mem_singleton.mpr (by decide)
  have htab : ∀ c ∈ ['\t'], isBlank c = true ∧ c ≠ '\n' := List.forall_mem_singleton.mpr (by decide)
  have hne {c : Char} : [c] ≠ [] := List.cons_ne_nil c []
  have hjoined : Joined (TokenLine.flatten calledComparison) "f( x\t) == 'a b'".toList :=
    .function rfl (.spaced (by decide) hne hspace (.spaced (by decide) hne htab
      (.spaced (by decide) hne hspace (.spaced (by decide) hne hspace .last))))
  exact ⟨h, hjoined, tokenize_joined h hjoined⟩

end SlangScript
