import SlangScript.Proofs.Segmentation

/-! The places of tokens. A token stands where its span says, no two overlap, and between them there is
white space alone: with it the tokens give the text again. -/
namespace SlangScript

/-- The character in this column belongs to the lexeme. -/
def Span.Covers (s : Span) (column : Nat) : Prop := s.column ≤ column ∧ column < s.column + s.len

/-- The text that tokens make with these gaps, one before each of them and one behind the last. -/
def spacedText : List (List Char) → List Token → List Char
  | gap :: gaps, t :: ts => gap ++ (t.lexeme.toList ++ spacedText gaps ts)
  | gaps, _ => gaps.flatten

/-- `Positioned line column text tokens`: the spans of the tokens are places in this line, where the text
begins at this column. -/
structure Positioned (line column : Nat) (text : List Char) (tokens : List Token) : Prop where
  line_eq : ∀ t ∈ tokens, t.span.line = line
  column_le : ∀ t ∈ tokens, column ≤ t.span.column
  len_pos : ∀ t ∈ tokens, 1 ≤ t.span.len
  len_eq : ∀ t ∈ tokens, t.span.len = t.lexeme.length
  text_eq : ∀ t ∈ tokens, (text.drop (t.span.column - column)).take t.span.len = t.lexeme.toList
  ordered : tokens.Pairwise fun t u => t.span.column + t.span.len ≤ u.span.column
  blank : ∀ i c, text[i]? = some c → (∀ t ∈ tokens, ¬ t.span.Covers (column + i)) → isBlank c = true
  recovered : ∃ gaps, gaps.length = tokens.length + 1 ∧
    (∀ gap ∈ gaps, ∀ c ∈ gap, isBlank c = true) ∧ text = spacedText gaps tokens

namespace Positioned
variable {line column : Nat} {c : Char} {w rest text : List Char} {ts : List Token}

theorem nil : Positioned line column [] [] where
  line_eq := by simp
  column_le := by simp
  len_pos := by simp
  len_eq := by simp
  text_eq := by simp
  ordered := .nil
  blank := by simp
  recovered := ⟨[[]], rfl, by simp, rfl⟩

/-- The characters of later tokens, seen from further to the left. -/
theorem drop_append (h : Positioned line (column + w.length) rest ts) {t : Token} (ht : t ∈ ts) :
    (w ++ rest).drop (t.span.column - column) =
      rest.drop (t.span.column - (column + w.length)) := by
  have hcolumn := h.column_le t ht
  rw [List.drop_append, List.drop_eq_nil_of_le (by omega), List.nil_append, Nat.sub_sub]

theorem cons_blank (hc : isBlank c = true) (h : Positioned line (column + 1) rest ts) :
    Positioned line column (c :: rest) ts where
  line_eq := h.line_eq
  column_le t ht := Nat.le_of_succ_le (h.column_le t ht)
  len_pos := h.len_pos
  len_eq := h.len_eq
  text_eq t ht := by
    rw [← h.text_eq t ht]
    exact congrArg (List.take t.span.len) (drop_append (w := [c]) h ht)
  ordered := h.ordered
  blank i d hd hout := by
    cases i with
    | zero =>
      obtain rfl : c = d := by simpa using hd
      exact hc
    | succ i =>
      refine h.blank i d (by simpa using hd) fun t ht hcovers => hout t ht ?_
      rwa [Nat.add_assoc, Nat.add_comm 1] at hcovers
  recovered := by
    obtain ⟨gaps, hlen, hblank, rfl⟩ := h.recovered
    obtain ⟨gap, gaps, rfl⟩ := List.exists_cons_of_length_eq_add_one hlen
    refine ⟨(c :: gap) :: gaps, hlen, ?_, ?_⟩
    · simpa [hc] using hblank
    · cases ts <;> rfl

theorem cons_lexeme {kind : TokenKind} (hw : w ≠ [])
    (h : Positioned line (column + w.length) rest ts) :
    Positioned line column (w ++ rest)
      (⟨kind, String.ofList w, ⟨line, column, w.length⟩⟩ :: ts) where
  line_eq := List.forall_mem_cons.mpr ⟨rfl, h.line_eq⟩
  column_le := List.forall_mem_cons.mpr
    ⟨Nat.le_refl column, fun t ht => Nat.le_trans (Nat.le_add_right ..) (h.column_le t ht)⟩
  len_pos := List.forall_mem_cons.mpr ⟨List.length_pos_iff.mpr hw, h.len_pos⟩
  len_eq := List.forall_mem_cons.mpr ⟨by simp, h.len_eq⟩
  text_eq := List.forall_mem_cons.mpr
    ⟨by simp, fun t ht => by rw [h.drop_append ht, h.text_eq t ht]⟩
  ordered := List.pairwise_cons.mpr ⟨h.column_le, h.ordered⟩
  blank i d hd hout := by
    obtain ⟨hfirst, hout⟩ := List.forall_mem_cons.mp hout
    have hi : w.length ≤ i := by
      simp only [Span.Covers] at hfirst
      omega
    rw [List.getElem?_append_right hi] at hd
    refine h.blank (i - w.length) d hd fun t ht hcovers => hout t ht ?_
    rwa [show column + w.length + (i - w.length) = column + i by omega] at hcovers
  recovered := by
    obtain ⟨gaps, hlen, hblank, rfl⟩ := h.recovered
    refine ⟨[] :: gaps, by simp [hlen], by simpa using hblank, ?_⟩
    rw [spacedText, List.nil_append, String.toList_ofList]

end Positioned

section Places
variable {line column : Nat} {text : List Char} {ts : List Token} {texts : List (List Char)}
  {lines : List TokenLine}

theorem Laid.positioned (h : Laid line column text ts) : Positioned line column text ts := by
  induction h with
  | nil => exact .nil
  | blank hc h ih => exact ih.cons_blank hc
  | lexeme hw h ih => exact ih.cons_lexeme hw.ne_nil

/-- A line that is not all white space has a token. -/
theorem Positioned.ne_nil (h : Positioned line column text ts) {c : Char} (hc : c ∈ text)
    (hblank : isBlank c = false) : ts ≠ [] := by
  rintro rfl
  obtain ⟨i, hi⟩ := List.getElem?_of_mem hc
  have hc := h.blank i c hi (by simp)
  simp [hblank] at hc

theorem LaidLines.positioned (h : LaidLines line texts lines) {k : Nat} {found : TokenLine}
    (hk : lines[k]? = some found) : found.line = line + k ∧
      ∃ text, texts[k]? = some text ∧ Positioned (line + k) 1 text found.tokens := by
  induction h generalizing k with
  | nil => simp at hk
  | cons h hs ih =>
    cases k with
    | zero =>
      obtain rfl := Option.some.inj hk
      exact ⟨rfl, _, rfl, h.positioned⟩
    | succ k =>
      obtain ⟨hline, text, htext, hpos⟩ := ih (k := k) hk
      rw [Nat.add_assoc, Nat.add_comm 1] at hline hpos
      exact ⟨hline, text, htext, hpos⟩

theorem LaidLines.exists_token (h : LaidLines line texts lines) (ht : text ∈ texts) {c : Char}
    (hc : c ∈ text) (hblank : isBlank c = false) : ∃ found ∈ lines, found.tokens ≠ [] := by
  induction h with
  | nil => cases ht
  | cons h hs ih =>
    cases ht with
    | head => exact ⟨_, .head _, h.positioned.ne_nil hc hblank⟩
    | tail _ ht =>
      obtain ⟨found, hin, hne⟩ := ih ht
      exact ⟨found, .tail _ hin, hne⟩

end Places

section LineFeeds
variable {c : Char} {text : List Char}

/-- There is one line more than there are line feeds. -/
theorem length_splitOn_lineFeed : (text.splitOn '\n').length = text.count '\n' + 1 := by
  induction text with
  | nil => rfl
  | cons c text ih =>
    rw [List.splitOn_cons_eq_if_modifyHead]
    by_cases hc : c = '\n' <;> simp [hc, ih]

/-- A character other than a line feed stands on a line. -/
theorem exists_mem_splitOn_lineFeed (hc : c ∈ text) (hne : c ≠ '\n') :
    ∃ line ∈ text.splitOn '\n', c ∈ line := by
  induction text with
  | nil => cases hc
  | cons d text ih =>
    obtain ⟨first, more, hlines⟩ := List.exists_cons_of_ne_nil (List.splitOn_ne_nil '\n' text)
    rw [List.splitOn_cons_eq_if_modifyHead, hlines]
    rw [hlines] at ih
    by_cases hd : d = '\n'
    · have hin := ih ((List.mem_cons.mp hc).resolve_left fun h => hne (h.trans hd))
      simpa [hd] using hin
    · rcases List.mem_cons.mp hc with rfl | hc
      · simp [hd]
      · have hin := ih hc
        simp [hd] at hin ⊢
        exact hin.imp_left .inr

end LineFeeds

/-- The positions of tokens lose nothing of the text. There are as many lines of tokens as the text has
lines, each with its number; the spans on a line lie one behind the other on the characters of their
lexemes, and what they leave out is white space. A text that has tokens has at least one. -/
theorem tokenize_positions {source : String} {lines : List TokenLine}
    (h : tokenize source = .ok lines) :
    lines.length = source.toList.count '\n' + 1 ∧
    (∀ k found, lines[k]? = some found → found.line = k + 1 ∧
      ∃ text, (source.toList.splitOn '\n')[k]? = some text ∧
        Positioned (k + 1) 1 text found.tokens) ∧
    ∃ found ∈ lines, found.tokens ≠ [] := by
  obtain ⟨⟨c, hc, hblank⟩, hlines⟩ := tokenize_eq_ok_iff.mp h
  refine ⟨hlines.length_eq.trans length_splitOn_lineFeed, fun k found hk => ?_, ?_⟩
  · have hpos := hlines.positioned hk
    rwa [Nat.add_comm 1 k] at hpos
  · -- a character that is not white space is not the end of a line either
    have hne : c ≠ '\n' := by
      rintro rfl
      exact absurd hblank (by decide +kernel)
    obtain ⟨text, htext, hc⟩ := exists_mem_splitOn_lineFeed hc hne
    exact hlines.exists_token htext hc hblank

/-- A declaration and, on the next line, its value. -/
def spreadDeclaration : List TokenLine :=
  [⟨1, [⟨.keyword, "flex", ⟨1, 1, 4⟩⟩, ⟨.identifier, "x", ⟨1, 6, 1⟩⟩]⟩,
    ⟨2, [⟨.operator .assign, "=", ⟨2, 3, 1⟩⟩, ⟨.floatNumber, "1.5", ⟨2, 5, 3⟩⟩,
      ⟨.delimiter .semicolon, ";", ⟨2, 8, 1⟩⟩]⟩]

theorem spreadDeclaration_positions :
    tokenize "flex x\n  = 1.5;" = .ok spreadDeclaration ∧ ∃ found,
      spreadDeclaration[1]? = some found ∧ Positioned 2 1 "  = 1.5;".toList found.tokens := by
  have hscan : scan "flex x\n  = 1.5;" = ⟨spreadDeclaration, none⟩ := by decide +kernel
  have h : tokenize "flex x\n  = 1.5;" = .ok spreadDeclaration := by rw [tokenize, hscan]
  obtain ⟨-, text, htext, hpos⟩ := (tokenize_positions h).2.1 1 _ rfl
  have hline : ("flex x\n  = 1.5;".toList.splitOn '\n')[1]? = some "  = 1.5;".toList := by
    decide +kernel
  obtain rfl := Option.some.inj (hline.symm.trans htext)
  exact ⟨h, _, rfl, hpos⟩

end SlangScript
