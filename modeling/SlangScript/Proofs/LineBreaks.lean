import SlangScript.Proofs.Positions

/-! Line breaks. Nothing is read across one: what comes of two texts, one below the other, is what comes
of the upper one and then, further down, what comes of the lower one. -/
namespace SlangScript

/-- The token, so many lines further down. -/
def Token.lower (k : Nat) (t : Token) : Token :=
  { t with span := { t.span with line := t.span.line + k } }

/-- The line, so many lines further down. -/
def TokenLine.lower (k : Nat) (l : TokenLine) : TokenLine := ⟨l.line + k, l.tokens.map (.lower k)⟩

/-- The error, so many lines further down. -/
def LexError.lower (k : Nat) (e : LexError) : LexError :=
  { e with span := { e.span with line := e.span.line + k } }

def LineScan.lower (k : Nat) (s : LineScan) : LineScan :=
  ⟨s.tokens.map (.lower k), s.defect.map (.lower k)⟩

namespace Scan

def lower (k : Nat) (s : Scan) : Scan := ⟨s.lines.map (.lower k), s.defect.map (.lower k)⟩

/-- One scan and, if it has met no defect, another one behind it. -/
def andThen (s more : Scan) : Scan :=
  match s.defect with
  | some _ => s
  | none => { more with lines := s.lines ++ more.lines }

/-- The token lines, or the defect that was met. -/
def outcome (s : Scan) : Except LexError (List TokenLine) :=
  match s.defect with
  | some e => .error e
  | none => .ok s.lines

end Scan

/-! ### Lines -/

section Lines
variable {line column : Nat} {text : List Char} {texts : List (List Char)}

/-- Where a line stands shows in the places on it and in nothing else. -/
theorem scanLine_lower (line k column : Nat) (text : List Char) :
    scanLine (line + k) column text = (scanLine line column text).lower k := by
  induction column, text using scanLine.induct line with
  | case1 column => simp only [scanLine, LineScan.lower, List.map_nil, Option.map_none]
  | case2 column c text kind more hread ih =>
    simp only [scanLine, hread, ih]
    rfl
  | case3 column c rest hread ih => simp only [scanLine, hread, ih]
  | case4 column c rest kind offset hread =>
    simp only [scanLine, hread]
    rfl

theorem scanLines_lower (line k : Nat) (texts : List (List Char)) :
    scanLines (line + k) texts = (scanLines line texts).lower k := by
  induction texts generalizing line with
  | nil => rfl
  | cons text texts ih =>
    have hnext : scanLines (line + k + 1) texts = (scanLines (line + 1) texts).lower k := by
      rw [Nat.add_right_comm, ih]
    rw [scanLines, scanLines, scanLine_lower, hnext]
    generalize scanLine line 1 text = here
    obtain ⟨tokens, defect⟩ := here
    cases defect <;> rfl

/-- Lines are read one after the other, up to the first defect. -/
theorem scanLines_append (line : Nat) (texts more : List (List Char)) :
    scanLines line (texts ++ more) =
      (scanLines line texts).andThen (scanLines (line + texts.length) more) := by
  induction texts generalizing line with
  | nil => rfl
  | cons text texts ih =>
    have hplace : line + (text :: texts).length = line + 1 + texts.length := by
      rw [List.length_cons, Nat.add_assoc, Nat.add_comm 1]
    rw [List.cons_append, scanLines, scanLines, ih, hplace]
    generalize scanLine line 1 text = here
    generalize scanLines (line + 1) texts = next
    obtain ⟨tokens, defect⟩ := here
    obtain ⟨lines, later⟩ := next
    cases defect <;> cases later <;> rfl

theorem scanLine_of_blank (h : ∀ c ∈ text, isBlank c = true) :
    scanLine line column text = ⟨[], none⟩ := by
  induction text generalizing column with
  | nil => rw [scanLine]
  | cons c text ih =>
    obtain ⟨hc, htext⟩ := List.forall_mem_cons.mp h
    rw [scanLine_blank hc, ih htext]

/-- Blank lines have no tokens and no defect. -/
theorem scanLines_of_blank (h : ∀ text ∈ texts, ∀ c ∈ text, isBlank c = true) :
    scanLines line texts =
      ⟨(List.range' line texts.length).map fun line => ⟨line, []⟩, none⟩ := by
  induction texts generalizing line with
  | nil => rfl
  | cons text texts ih =>
    obtain ⟨htext, htexts⟩ := List.forall_mem_cons.mp h
    simp only [scanLines, scanLine_of_blank htext, ih htexts, List.length_cons, List.range'_succ,
      List.map_cons]

end Lines

/-! ### Texts -/

/-- The number of lines of a text. -/
def countLines (source : String) : Nat := source.toList.count '\n' + 1

/-- So many lines without tokens. -/
def blankLines (count : Nat) : List TokenLine := (List.range' 1 count).map fun line => ⟨line, []⟩

/-- What comes of a text as a part of a longer one, where white space alone is no defect. -/
def tokenizePart (source : String) : Except LexError (List TokenLine) :=
  if source.toList.all isBlank then .ok (blankLines (countLines source)) else tokenize source

section Texts
variable {a b source : String} {lines : List TokenLine}

theorem length_splitLines (source : String) :
    (splitLines source.toList).length = countLines source := by
  rw [splitLines_eq_splitOn, length_splitOn_lineFeed, countLines]

/-- The lines of a text hold no other characters than the text. -/
theorem mem_of_mem_splitLines {text line : List Char} {c : Char} (hline : line ∈ splitLines text)
    (hc : c ∈ line) : c ∈ text := by
  induction text generalizing line with
  | nil =>
    obtain rfl := List.mem_singleton.mp hline
    exact hc
  | cons d text ih =>
    rw [splitLines, List.foldr_cons, ← splitLines] at hline
    split at hline
    · rcases List.mem_cons.mp hline with rfl | hline
      · cases hc
      · exact .tail _ (ih hline hc)
    · obtain ⟨first, more, hlines⟩ := List.exists_cons_of_ne_nil (List.splitOn_ne_nil '\n' text)
      rw [← splitLines_eq_splitOn] at hlines
      rw [hlines] at ih
      rw [hlines, consLine] at hline
      rcases List.mem_cons.mp hline with rfl | hline
      · exact (List.mem_cons.mp hc).elim (fun h => h ▸ .head _) fun hc => .tail _ (ih (.head _) hc)
      · exact .tail _ (ih (.tail _ hline) hc)

/-- A text that is not all white space is read line by line. -/
theorem tokenize_eq_outcome (h : ∃ c ∈ source.toList, isBlank c = false) :
    tokenize source = (scanLines 1 (splitLines source.toList)).outcome := by
  have hblank : ¬ source.toList.all isBlank = true := by simpa using h
  rw [tokenize, scan, if_neg hblank]
  rfl

/-- So is a part of a text in any case. -/
theorem tokenizePart_eq_outcome (source : String) :
    tokenizePart source = (scanLines 1 (splitLines source.toList)).outcome := by
  rw [tokenizePart]
  split
  · rename_i hblank
    have hlines : ∀ line ∈ splitLines source.toList, ∀ c ∈ line, isBlank c = true :=
      fun line hline c hc => List.all_eq_true.mp hblank c (mem_of_mem_splitLines hline hc)
    rw [scanLines_of_blank hlines, length_splitLines]
    rfl
  · rename_i hblank
    exact tokenize_eq_outcome (by simpa using hblank)

theorem scanLines_of_tokenize (h : tokenize source = .ok lines) :
    scanLines 1 (splitLines source.toList) = ⟨lines, none⟩ := by
  rw [splitLines_eq_splitOn]
  exact scanLines_eq_iff.mpr (tokenize_eq_ok_iff.mp h).2

/-- The lines of two texts are read one after the other, those of the second with higher numbers. -/
theorem scanLines_below (a b : String) :
    scanLines 1 (splitLines (a ++ "\n" ++ b).toList) =
      (scanLines 1 (splitLines a.toList)).andThen
        ((scanLines 1 (splitLines b.toList)).lower (countLines a)) := by
  have hsplit : splitLines (a ++ "\n" ++ b).toList = splitLines a.toList ++ splitLines b.toList := by
    simp only [splitLines_eq_splitOn]
    simpa using List.splitOn_append_cons_self (a := '\n') a.toList b.toList
  rw [hsplit, scanLines_append, length_splitLines, scanLines_lower]

/-- One text below another, not both of them white space, has the token lines of the upper one and then
those of the lower one, as many lines further down as the upper one has; or the defect of the upper one,
or else, as many lines further down, that of the lower one. -/
theorem tokenize_below (h : ∃ c ∈ (a ++ "\n" ++ b).toList, isBlank c = false) :
    tokenize (a ++ "\n" ++ b) =
      match tokenizePart a, tokenizePart b with
      | .error e, _ => .error e
      | .ok _, .error e => .error (e.lower (countLines a))
      | .ok lines, .ok others => .ok (lines ++ others.map (.lower (countLines a))) := by
  rw [tokenize_eq_outcome h, scanLines_below, tokenizePart_eq_outcome, tokenizePart_eq_outcome]
  generalize scanLines 1 (splitLines a.toList) = upper
  generalize scanLines 1 (splitLines b.toList) = lower
  obtain ⟨lines, defect⟩ := upper
  obtain ⟨others, later⟩ := lower
  cases defect <;> cases later <;> rfl

/-- White space above a name that a line break parts from its parenthesis, and above a string that is
closed behind a line break only. -/
theorem parted_below :
    (∃ c ∈ (" \n" ++ "\n" ++ "f\n(x").toList, isBlank c = false) ∧
    tokenize (" \n" ++ "\n" ++ "f\n(x") = .ok [⟨1, []⟩, ⟨2, []⟩,
      ⟨3, [⟨.identifier, "f", ⟨3, 1, 1⟩⟩]⟩,
      ⟨4, [⟨.bracket .openParen, "(", ⟨4, 1, 1⟩⟩, ⟨.identifier, "x", ⟨4, 2, 1⟩⟩]⟩] ∧
    (∃ c ∈ (" \n" ++ "\n" ++ "x\n 'y\n'").toList, isBlank c = false) ∧
    tokenize (" \n" ++ "\n" ++ "x\n 'y\n'") = .error ⟨.unclosedString, .point 4 2⟩ := by
  have hblank : tokenizePart " \n" = .ok [⟨1, []⟩, ⟨2, []⟩] := rfl
  have hcall : scan "f\n(x" = ⟨[⟨1, [⟨.identifier, "f", ⟨1, 1, 1⟩⟩]⟩,
      ⟨2, [⟨.bracket .openParen, "(", ⟨2, 1, 1⟩⟩, ⟨.identifier, "x", ⟨2, 2, 1⟩⟩]⟩], none⟩ := by
    decide +kernel
  have hstring : (scan "x\n 'y\n'").defect = some ⟨.unclosedString, .point 2 2⟩ := by decide +kernel
  have hname : ∃ c ∈ (" \n" ++ "\n" ++ "f\n(x").toList, isBlank c = false :=
    ⟨'f', by decide +kernel⟩
  have hquote : ∃ c ∈ (" \n" ++ "\n" ++ "x\n 'y\n'").toList, isBlank c = false :=
    ⟨'x', by decide +kernel⟩
  refine ⟨hname, ?_, hquote, ?_⟩
  · rw [tokenize_below hname, hblank, tokenizePart, if_neg (by decide +kernel), tokenize, hcall]
    rfl
  · rw [tokenize_below hquote, hblank, tokenizePart, if_neg (by decide +kernel), tokenize, hstring]
    rfl

end Texts

end SlangScript
