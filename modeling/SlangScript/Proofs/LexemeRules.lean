import SlangScript.Token.Lexeme

/-! The rules of lexemes: which characters are a lexeme of which kind, in front of which others. They say
nothing of how a lexeme is found. At the front of a line they allow one at most, and that one is read. -/
namespace SlangScript

/-- Digits and at most one point, which stands behind a digit or before one. -/
structure IsNumber (w : List Char) : Prop where
  chars : ∀ c ∈ w, c.isDigit = true ∨ c = '.'
  onePoint : w.count '.' ≤ 1
  hasDigit : ∃ c ∈ w, c.isDigit = true
  begins : ∃ c rest, w = c :: rest ∧ (c.isDigit = true ∨ c = '.' ∧ ∃ d ∈ rest.head?, d.isDigit = true)

/-- Neither a digit nor a point comes next. -/
def EndsNumber (rest : List Char) : Prop := ∀ c ∈ rest.head?, c.isDigit = false ∧ c ≠ '.'

/-- A run of letters and digits that begins with no ASCII digit and goes on as far as it can. -/
structure IsWord (w rest : List Char) : Prop where
  ne_nil : w ≠ []
  chars : ∀ c ∈ w, isAlphanumeric c = true
  begins : ∀ c ∈ w.head?, c.isDigit = false
  ends : ∀ c ∈ rest.head?, isAlphanumeric c = false

/-- `IsLexeme kind w rest`: the characters `w` are a lexeme of this kind where `rest` follows on the
line. -/
inductive IsLexeme : TokenKind → List Char → List Char → Prop
  | integer {w rest : List Char} (hw : IsNumber w) (hp : '.' ∉ w) (hr : EndsNumber rest) :
    IsLexeme .integer w rest
  | float {w rest : List Char} (hw : IsNumber w) (hp : '.' ∈ w) (hr : EndsNumber rest) :
    IsLexeme .floatNumber w rest
  | keyword {w rest : List Char} (hw : IsWord w rest) (hk : String.ofList w ∈ keywords) :
    IsLexeme .keyword w rest
  | reservedWord {w rest : List Char} (hw : IsWord w rest) (hk : String.ofList w ∉ keywords)
    (hr : String.ofList w ∈ reservedWords) : IsLexeme .reservedWord w rest
  | function {w rest : List Char} (hw : IsWord w rest) (hk : String.ofList w ∉ keywords)
    (hr : String.ofList w ∉ reservedWords) (hp : rest.head? = some '(') :
    IsLexeme .function w rest
  | identifier {w rest : List Char} (hw : IsWord w rest) (hk : String.ofList w ∉ keywords)
    (hr : String.ofList w ∉ reservedWords) (hp : rest.head? ≠ some '(') :
    IsLexeme .identifier w rest
  | string {quote : Char} {inside rest : List Char} (hq : quote = '"' ∨ quote = '\'')
    (hi : quote ∉ inside) : IsLexeme .string (quote :: (inside ++ [quote])) rest
  | double {op : Operator} {c d : Char} {rest : List Char} (ho : op.chars = [c, d]) :
    IsLexeme (.operator op) [c, d] rest
  | single {op : Operator} {c : Char} {rest : List Char} (ho : op.chars = [c])
    (hr : ∀ d ∈ rest.head?, ∀ other : Operator, other.chars ≠ [c, d]) :
    IsLexeme (.operator op) [c] rest
  | bracket {b : Bracket} {rest : List Char} : IsLexeme (.bracket b) [b.char] rest
  | delimiter {d : Delimiter} {rest : List Char} : IsLexeme (.delimiter d) [d.char] rest

section Runs
variable {α : Type} {p : α → Bool} {w rest : List α}

theorem takeWhile_run (hw : ∀ c ∈ w, p c = true) (hr : ∀ c ∈ rest.head?, p c = false) :
    (w ++ rest).takeWhile p = w := by
  rw [List.takeWhile_append_of_pos hw]
  cases rest with
  | nil => simp
  | cons c rest => simp [hr c rfl]

theorem dropWhile_run (hw : ∀ c ∈ w, p c = true) (hr : ∀ c ∈ rest.head?, p c = false) :
    (w ++ rest).dropWhile p = rest := by
  rw [List.dropWhile_append_of_pos hw]
  cases rest with
  | nil => rfl
  | cons c rest => simp [hr c rfl]

/-- A text is a run of characters of a sort and what follows the run. -/
private theorem exists_run (p : Char → Bool) (text : List Char) : ∃ w rest, text = w ++ rest ∧
    (∀ c ∈ w, p c = true) ∧ ∀ c ∈ rest.head?, p c = false := by
  refine ⟨text.takeWhile p, text.dropWhile p, List.takeWhile_append_dropWhile.symm,
    List.all_eq_true.mp List.all_takeWhile, fun c hc => ?_⟩
  have h := List.head?_dropWhile_not p text
  rw [Option.mem_def.mp hc] at h
  exact h

end Runs

namespace IsNumber
variable {w a b : List Char}

theorem of_digits (ha : ∀ c ∈ a, c.isDigit = true) (hne : a ≠ []) : IsNumber a := by
  obtain ⟨c, a, rfl⟩ := List.exists_cons_of_ne_nil hne
  have hpoint : '.' ∉ c :: a := fun h => absurd (ha _ h) (by decide)
  exact {
    chars := fun d hd => .inl (ha d hd)
    onePoint := by simp [List.count_eq_zero.mpr hpoint]
    hasDigit := ⟨c, .head _, ha c (.head _)⟩
    begins := ⟨c, a, rfl, .inl (ha c (.head _))⟩ }

theorem of_point (ha : ∀ c ∈ a, c.isDigit = true) (hb : ∀ c ∈ b, c.isDigit = true)
    (hne : a = [] → b ≠ []) : IsNumber (a ++ '.' :: b) := by
  have hpoint {u : List Char} (hu : ∀ c ∈ u, c.isDigit = true) : u.count '.' = 0 :=
    List.count_eq_zero.mpr fun h => absurd (hu _ h) (by decide)
  refine { chars := ?_, onePoint := ?_, hasDigit := ?_, begins := ?_ }
  · intro c hc
    rcases List.mem_append.mp hc with hc | hc
    · exact .inl (ha c hc)
    · exact (List.mem_cons.mp hc).symm.imp_left (hb c)
  · simp [hpoint ha, hpoint hb]
  · cases a with
    | cons c a => exact ⟨c, by simp, ha c (.head _)⟩
    | nil =>
      obtain ⟨d, b, rfl⟩ := List.exists_cons_of_ne_nil (hne rfl)
      exact ⟨d, by simp, hb d (.head _)⟩
  · cases a with
    | cons c a => exact ⟨c, _, rfl, .inl (ha c (.head _))⟩
    | nil =>
      obtain ⟨d, b, rfl⟩ := List.exists_cons_of_ne_nil (hne rfl)
      exact ⟨'.', _, rfl, .inr ⟨rfl, d, rfl, hb d (.head _)⟩⟩

theorem digits (h : IsNumber w) (hp : '.' ∉ w) : ∀ c ∈ w, c.isDigit = true := fun c hc =>
  (h.chars c hc).resolve_right fun hc' => hp (hc' ▸ hc)

/-- A number with a point is a run of digits on either side of it. -/
theorem exists_point (h : IsNumber w) (hp : '.' ∈ w) : ∃ a b, w = a ++ '.' :: b ∧
    (∀ c ∈ a, c.isDigit = true) ∧ ∀ c ∈ b, c.isDigit = true := by
  obtain ⟨a, b, rfl⟩ := List.append_of_mem hp
  have hcount := h.onePoint
  rw [List.count_append, List.count_cons_self] at hcount
  have ha : '.' ∉ a := List.count_eq_zero.mp (by omega)
  have hb : '.' ∉ b := List.count_eq_zero.mp (by omega)
  refine ⟨a, b, rfl, fun c hc => ?_, fun c hc => ?_⟩
  · exact (h.chars c (by simp [hc])).resolve_right fun hc' => ha (hc' ▸ hc)
  · exact (h.chars c (by simp [hc])).resolve_right fun hc' => hb (hc' ▸ hc)

end IsNumber

namespace Lexeme
variable {c : Char} {w rest text : List Char} {kind : TokenKind} {more : Nat}

theorem startsNumber_iff : startsNumber c text = true ↔
    c.isDigit = true ∨ c = '.' ∧ ∃ d ∈ text.head?, d.isDigit = true := by
  simp [startsNumber, Option.any_eq_true]

theorem number_digits (hw : ∀ c ∈ w, c.isDigit = true) (hr : EndsNumber rest) :
    number (w ++ rest) = .token .integer (w.length - 1) := by
  rw [number, takeWhile_run hw fun c hc => (hr c hc).1, dropWhile_run hw fun c hc => (hr c hc).1]
  split
  · exact absurd rfl (hr '.' rfl).2
  · rfl

section Point
variable {a b : List Char} (ha : ∀ c ∈ a, c.isDigit = true) (hb : ∀ c ∈ b, c.isDigit = true)
include ha hb

private theorem number_of_point (hr : ∀ c ∈ rest.head?, c.isDigit = false) :
    number (a ++ '.' :: (b ++ rest)) =
      if rest.head? = some '.' then .defect .invalidNumber (a.length + 1 + b.length)
      else .token .floatNumber (a.length + b.length) := by
  have hpoint : ∀ c ∈ ('.' :: (b ++ rest)).head?, c.isDigit = false := by rintro _ ⟨⟩; rfl
  rw [number, takeWhile_run ha hpoint, dropWhile_run ha hpoint]
  simp only [takeWhile_run hb hr, dropWhile_run hb hr]

theorem number_point (hr : EndsNumber rest) :
    number (a ++ '.' :: (b ++ rest)) = .token .floatNumber (a.length + b.length) := by
  have hend : rest.head? ≠ some '.' := fun h => (hr '.' h).2 rfl
  rw [number_of_point ha hb fun c hc => (hr c hc).1, if_neg hend]

/-- A second point is a defect. -/
theorem number_secondPoint : number (a ++ '.' :: (b ++ '.' :: rest)) =
    .defect .invalidNumber (a.length + 1 + b.length) := by
  rw [number_of_point ha hb (by rintro _ ⟨⟩; rfl)]
  rfl

end Point

/-- Digits go on to the end of a number, to its end behind a point, or to a second point. -/
theorem number_cases (text : List Char) :
    (∃ a rest, text = a ++ rest ∧ (∀ c ∈ a, c.isDigit = true) ∧ EndsNumber rest) ∨
    ∃ a b rest, text = a ++ '.' :: (b ++ rest) ∧ (∀ c ∈ a, c.isDigit = true) ∧
      (∀ c ∈ b, c.isDigit = true) ∧ (EndsNumber rest ∨ ∃ more, rest = '.' :: more) := by
  obtain ⟨a, rest, rfl, ha, hr⟩ := exists_run Char.isDigit text
  by_cases hp : rest.head? = some '.'
  · obtain ⟨tail, rfl⟩ := List.head?_eq_some_iff.mp hp
    obtain ⟨b, rest, rfl, hb, hr⟩ := exists_run Char.isDigit tail
    refine .inr ⟨a, b, rest, rfl, ha, hb, ?_⟩
    by_cases hp : rest.head? = some '.'
    · exact .inr (List.head?_eq_some_iff.mp hp)
    · exact .inl fun c hc => ⟨hr c hc, fun h => hp (h ▸ hc)⟩
  · exact .inl ⟨a, rest, rfl, ha, fun c hc => ⟨hr c hc, fun h => hp (h ▸ hc)⟩⟩

/-- The first character of a lexeme is split off. -/
private theorem exists_more {u : List Char} (h : c :: text = u ++ rest) (hl : IsLexeme kind u rest)
    (hu : u.length = more + 1) :
    ∃ w rest, text = w ++ rest ∧ w.length = more ∧ IsLexeme kind (c :: w) rest := by
  cases u with
  | nil => cases hu
  | cons d w =>
    obtain ⟨rfl, rfl⟩ := List.cons.inj h
    exact ⟨w, rest, rfl, Nat.succ.inj hu, hl⟩

private theorem isLexeme_of_number (hc : startsNumber c text = true)
    (h : number (c :: text) = .token kind more) :
    ∃ w rest, text = w ++ rest ∧ w.length = more ∧ IsLexeme kind (c :: w) rest := by
  rw [startsNumber_iff] at hc
  rcases number_cases (c :: text) with
    ⟨a, rest, hsplit, ha, hr⟩ | ⟨a, b, rest, hsplit, ha, hb, hr | ⟨tail, rfl⟩⟩
  · have hne : a ≠ [] := by
      rintro rfl
      obtain rfl : c :: text = rest := hsplit
      have hend := hr c rfl
      exact hc.elim (fun hc => by simp [hend.1] at hc) fun hc => hend.2 hc.1
    have hpoint : '.' ∉ a := fun h => absurd (ha _ h) (by decide)
    rw [hsplit, number_digits ha hr] at h
    cases h
    exact exists_more hsplit (.integer (.of_digits ha hne) hpoint hr)
      (Nat.sub_add_cancel (List.length_pos_iff.mpr hne)).symm
  · have hne : a = [] → b ≠ [] := by
      rintro rfl rfl
      obtain ⟨rfl, rfl⟩ := List.cons.inj hsplit
      rcases hc with hc | ⟨-, d, hd, hdigit⟩
      · exact absurd hc (by decide)
      · simp [(hr d hd).1] at hdigit
    rw [hsplit, number_point ha hb hr] at h
    cases h
    rw [← List.cons_append, ← List.append_assoc] at hsplit
    exact exists_more hsplit (.float (.of_point ha hb hne) (by simp) hr) (by simp; omega)
  · rw [hsplit, number_secondPoint ha hb] at h
    cases h

/-- A number is read as such. -/
private theorem read_of_isNumber (hw : IsNumber (c :: w)) (hr : EndsNumber rest) :
    read c (w ++ rest) =
      .token (if '.' ∈ c :: w then .floatNumber else .integer) w.length := by
  have hstarts : startsNumber c (w ++ rest) = true := by
    obtain ⟨d, v, heq, h⟩ := hw.begins
    obtain ⟨rfl, rfl⟩ := List.cons.inj heq
    refine startsNumber_iff.mpr (h.imp_right fun ⟨hp, e, he, hdigit⟩ => ⟨hp, e, ?_, hdigit⟩)
    simp [List.head?_append, Option.mem_def.mp he]
  rw [read, if_pos hstarts]
  split
  · rename_i hp
    obtain ⟨a, b, heq, ha, hb⟩ := hw.exists_point hp
    have hlen := congrArg List.length heq
    rw [← List.cons_append, heq, List.append_assoc, List.cons_append, number_point ha hb hr]
    congr 1
    simp only [List.length_cons, List.length_append] at hlen
    omega
  · rename_i hp
    rw [← List.cons_append, number_digits (hw.digits hp) hr]
    rfl

theorem startsNumber_eq_false (hd : c.isDigit = false) (hp : c ≠ '.') (text : List Char) :
    startsNumber c text = false := by
  simp [startsNumber, hd, hp]

theorem word_run (hw : IsWord (c :: w) rest) : word (c :: (w ++ rest)) =
    .token (wordKind (String.ofList (c :: w)) rest.head?) w.length := by
  rw [word, ← List.cons_append, takeWhile_run hw.chars hw.ends, dropWhile_run hw.chars hw.ends]
  rfl

/-- A word is of the first sort that its spelling and the next character allow. -/
private theorem isLexeme_wordKind (hw : IsWord w rest) :
    IsLexeme (wordKind (String.ofList w) rest.head?) w rest := by
  rw [wordKind]
  split
  · rename_i hk
    exact .keyword hw (by simpa [isKeyword] using hk)
  · rename_i hk
    replace hk : String.ofList w ∉ keywords := by simpa [isKeyword] using hk
    split
    · rename_i hr
      exact .reservedWord hw hk (by simpa [isReservedWord] using hr)
    · rename_i hr
      replace hr : String.ofList w ∉ reservedWords := by simpa [isReservedWord] using hr
      split
      · exact .function hw hk hr ‹_›
      · exact .identifier hw hk hr ‹_›

private theorem isLexeme_of_word (hd : c.isDigit = false) (hc : isAlphanumeric c = true)
    (h : word (c :: text) = .token kind more) :
    ∃ w rest, text = w ++ rest ∧ w.length = more ∧ IsLexeme kind (c :: w) rest := by
  obtain ⟨w, rest, rfl, hw, hr⟩ := exists_run isAlphanumeric text
  have hword : IsWord (c :: w) rest := {
    ne_nil := by simp
    chars := List.forall_mem_cons.mpr ⟨hc, hw⟩
    begins := by rintro _ ⟨⟩; exact hd
    ends := hr }
  rw [word_run hword] at h
  cases h
  exact ⟨w, rest, rfl, rfl, isLexeme_wordKind hword⟩

private theorem read_of_isWord (hw : IsWord (c :: w) rest) :
    read c (w ++ rest) = .token (wordKind (String.ofList (c :: w)) rest.head?) w.length := by
  have hc := hw.chars c (.head _)
  have hp : c ≠ '.' := by rintro rfl; exact absurd hc (by decide)
  have hstarts := startsNumber_eq_false (hw.begins c rfl) hp (w ++ rest)
  rw [read, if_neg (by simp [hstarts]), if_pos hc, word_run hw]

section Quoted
variable {quote : Char} {inside : List Char}

private theorem ne_of_not_mem (hi : quote ∉ inside) :
    ∀ c ∈ inside, (decide (c ≠ quote)) = true := by
  intro c hc
  simp only [ne_eq, decide_not, Bool.not_eq_true', decide_eq_false_iff_not]
  rintro rfl
  exact hi hc

theorem quoted_closed (hi : quote ∉ inside) (rest : List Char) :
    quoted quote (inside ++ quote :: rest) = .token .string (inside.length + 1) := by
  have hrun : (inside ++ quote :: rest).takeWhile (fun c => decide (c ≠ quote)) = inside :=
    takeWhile_run (ne_of_not_mem hi) (by rintro _ ⟨⟩; simp)
  simp only [quoted, hrun]
  rw [if_pos (by simp)]

/-- A quote that does not come again opens no string. -/
theorem quoted_open (hi : quote ∉ inside) : quoted quote inside = .defect .unclosedString 0 := by
  have hrun : (inside ++ []).takeWhile (fun c => decide (c ≠ quote)) = inside :=
    takeWhile_run (ne_of_not_mem hi) nofun
  rw [List.append_nil] at hrun
  simp only [quoted, hrun, Nat.lt_irrefl, ↓reduceIte]

private theorem isLexeme_of_quoted (hq : quote = '"' ∨ quote = '\'')
    (h : quoted quote text = .token kind more) :
    ∃ w rest, text = w ++ rest ∧ w.length = more ∧ IsLexeme kind (quote :: w) rest := by
  by_cases hmem : quote ∈ text
  · obtain ⟨inside, rest, rfl, hi⟩ := List.eq_append_cons_of_mem hmem
    rw [quoted_closed hi] at h
    cases h
    exact ⟨inside ++ [quote], rest, by simp, by simp, .string hq hi⟩
  · rw [quoted_open hmem] at h
    cases h

end Quoted

end Lexeme

namespace Operator
variable {op : Operator} {cs : List Char}

/-- The table holds every operator with its own spelling. -/
theorem ofChars?_eq_some_iff : ofChars? cs = some op ↔ op.chars = cs := by
  constructor
  · intro h
    simpa using List.find?_some h
  · rintro rfl
    cases op <;> rfl

theorem ofChars?_eq_none_iff : ofChars? cs = none ↔ ∀ op : Operator, op.chars ≠ cs := by
  simp only [Option.eq_none_iff_forall_ne_some, ne_eq, ofChars?_eq_some_iff]

end Operator

theorem Bracket.ofChar?_char (b : Bracket) : Bracket.ofChar? b.char = some b := by
  cases b <;> rfl

theorem Delimiter.ofChar?_char (d : Delimiter) : Delimiter.ofChar? d.char = some d := by
  cases d <;> rfl

/-- A character with which no number, word or string begins. -/
structure IsSymbol (c : Char) : Prop where
  digit : c.isDigit = false
  point : c ≠ '.'
  alphanumeric : isAlphanumeric c = false
  quote : ¬ (c = '"' ∨ c = '\'')

namespace Lexeme
variable {c : Char} {w rest text : List Char} {kind : TokenKind} {more : Nat}

private theorem isSymbol_of_chars {op : Operator} (h : op.chars.head? = some c) :
    IsSymbol c ∧ operatorStarts.contains c = true := by
  cases op <;> cases h <;> exact ⟨⟨by decide, by decide, by decide, by decide⟩, by decide⟩

private theorem isSymbol_bracket (b : Bracket) :
    IsSymbol b.char ∧ operatorStarts.contains b.char = false := by
  cases b <;> exact ⟨⟨by decide, by decide, by decide, by decide⟩, by decide⟩

private theorem isSymbol_delimiter (d : Delimiter) :
    IsSymbol d.char ∧ operatorStarts.contains d.char = false ∧ Bracket.ofChar? d.char = none := by
  cases d <;> exact ⟨⟨by decide, by decide, by decide, by decide⟩, by decide, by decide⟩

/-- The code points of white space. -/
def blankCodes : List Nat :=
  List.range' 0x9 5 ++ [0x20, 0x85, 0xa0, 0x1680] ++ List.range' 0x2000 11 ++
    [0x2028, 0x2029, 0x202f, 0x205f, 0x3000]

/-- White space is no letter, no digit and no symbol of the language. -/
theorem isSymbol_blank (h : isBlank c = true) : IsSymbol c ∧ operatorStarts.contains c = false ∧
    Bracket.ofChar? c = none ∧ Delimiter.ofChar? c = none := by
  have hcodes : ∀ n ∈ blankCodes, ((Char.ofNat n).isDigit = false ∧ Char.ofNat n ≠ '.' ∧
      isAlphanumeric (Char.ofNat n) = false ∧ ¬ (Char.ofNat n = '"' ∨ Char.ofNat n = '\'')) ∧
      operatorStarts.contains (Char.ofNat n) = false ∧ Bracket.ofChar? (Char.ofNat n) = none ∧
      Delimiter.ofChar? (Char.ofNat n) = none := by decide +kernel
  have hmem : c.toNat ∈ blankCodes := by
    simp [isBlank] at h
    simp [blankCodes, List.mem_range'_1]
    omega
  have hc := hcodes c.toNat hmem
  rw [Char.ofNat_toNat] at hc
  obtain ⟨⟨hd, hp, ha, hq⟩, hrest⟩ := hc
  exact ⟨⟨hd, hp, ha, hq⟩, hrest⟩

private theorem read_of_isSymbol (h : IsSymbol c) (ho : operatorStarts.contains c = true) :
    read c text = operator c text := by
  have hstarts := startsNumber_eq_false h.digit h.point text
  rw [read, if_neg (by simp [hstarts]), if_neg (by simp [h.alphanumeric]), if_neg h.quote, if_pos ho]

theorem read_blank (h : isBlank c = true) : read c text = .blank := by
  obtain ⟨hc, ho, hb, hd⟩ := isSymbol_blank h
  have hstarts := startsNumber_eq_false hc.digit hc.point text
  simp only [read, hstarts, hc.alphanumeric, hc.quote, ho, hb, hd, h, Bool.false_eq_true, ↓reduceIte]

theorem read_bracket (b : Bracket) : read b.char text = .token (.bracket b) 0 := by
  obtain ⟨hc, ho⟩ := isSymbol_bracket b
  have hstarts := startsNumber_eq_false hc.digit hc.point text
  simp only [read, hstarts, hc.alphanumeric, hc.quote, ho, b.ofChar?_char, Bool.false_eq_true, ↓reduceIte]

theorem read_delimiter (d : Delimiter) : read d.char text = .token (.delimiter d) 0 := by
  obtain ⟨hc, ho, hb⟩ := isSymbol_delimiter d
  have hstarts := startsNumber_eq_false hc.digit hc.point text
  simp only [read, hstarts, hc.alphanumeric, hc.quote, ho, hb, d.ofChar?_char, Bool.false_eq_true,
    ↓reduceIte]

private theorem isLexeme_of_operator (h : operator c text = .token kind more) :
    ∃ w rest, text = w ++ rest ∧ w.length = more ∧ IsLexeme kind (c :: w) rest := by
  rw [operator] at h
  split at h
  · rename_i op hop
    cases h
    obtain ⟨d, hd, hop⟩ := Option.bind_eq_some_iff.mp hop
    obtain ⟨rest, rfl⟩ := List.head?_eq_some_iff.mp hd
    exact ⟨[d], rest, rfl, rfl, .double (Operator.ofChars?_eq_some_iff.mp hop)⟩
  · rename_i hnone
    split at h
    · rename_i op hop
      cases h
      refine ⟨[], text, rfl, rfl, .single (Operator.ofChars?_eq_some_iff.mp hop) fun d hd => ?_⟩
      exact Operator.ofChars?_eq_none_iff.mp (Option.bind_eq_none_iff.mp hnone d hd)
    · cases h

private theorem operator_double {op : Operator} {d : Char} (ho : op.chars = [c, d]) :
    operator c (d :: rest) = .token (.operator op) 1 := by
  simp only [operator, List.head?_cons, Option.bind_some, Operator.ofChars?_eq_some_iff.mpr ho]

private theorem operator_single {op : Operator} (ho : op.chars = [c])
    (hr : ∀ d ∈ rest.head?, ∀ other : Operator, other.chars ≠ [c, d]) :
    operator c rest = .token (.operator op) 0 := by
  have hnone : (rest.head?.bind fun d => Operator.ofChars? [c, d]) = none :=
    Option.bind_eq_none_iff.mpr fun d hd => Operator.ofChars?_eq_none_iff.mpr (hr d hd)
  simp only [operator, hnone, Operator.ofChars?_eq_some_iff.mpr ho]

private theorem read_quote {quote : Char} (hq : quote = '"' ∨ quote = '\'') :
    read quote text = quoted quote text := by
  have hstarts : startsNumber quote text = false := by
    rcases hq with rfl | rfl <;> exact startsNumber_eq_false (by decide) (by decide) text
  have ha : isAlphanumeric quote = false := by rcases hq with rfl | rfl <;> decide
  rw [read, if_neg (by simp [hstarts]), if_neg (by simp [ha]), if_pos hq]

/-- What the rules allow as a lexeme is read. -/
theorem read_of_isLexeme (h : IsLexeme kind (c :: w) rest) :
    read c (w ++ rest) = .token kind w.length := by
  cases h with
  | integer hw hp hr => rw [read_of_isNumber hw hr, if_neg hp]
  | float hw hp hr => rw [read_of_isNumber hw hr, if_pos hp]
  | keyword hw hk => rw [read_of_isWord hw, wordKind, if_pos (by simpa [isKeyword] using hk)]
  | reservedWord hw hk hr =>
    rw [read_of_isWord hw, wordKind, if_neg (by simpa [isKeyword] using hk),
      if_pos (by simpa [isReservedWord] using hr)]
  | function hw hk hr hp =>
    rw [read_of_isWord hw, wordKind, if_neg (by simpa [isKeyword] using hk),
      if_neg (by simpa [isReservedWord] using hr), if_pos hp]
  | identifier hw hk hr hp =>
    rw [read_of_isWord hw, wordKind, if_neg (by simpa [isKeyword] using hk),
      if_neg (by simpa [isReservedWord] using hr), if_neg hp]
  | string hq hi =>
    rw [read_quote hq, List.append_assoc, List.singleton_append, quoted_closed hi,
      List.length_append]
    rfl
  | double ho =>
    obtain ⟨hc, hstart⟩ := isSymbol_of_chars (c := c) (by rw [ho]; rfl)
    rw [read_of_isSymbol hc hstart]
    exact operator_double ho
  | single ho hr =>
    obtain ⟨hc, hstart⟩ := isSymbol_of_chars (c := c) (by rw [ho]; rfl)
    rw [read_of_isSymbol hc hstart]
    exact operator_single ho hr
  | bracket => exact read_bracket _
  | delimiter => exact read_delimiter _

/-- The first character says what is read. -/
theorem read_cases (c : Char) (text : List Char) :
    startsNumber c text = true ∧ read c text = number (c :: text) ∨
    c.isDigit = false ∧ isAlphanumeric c = true ∧ read c text = word (c :: text) ∨
    (c = '"' ∨ c = '\'') ∧ read c text = quoted c text ∨
    operatorStarts.contains c = true ∧ read c text = operator c text ∨
    (∃ b : Bracket, b.char = c ∧ read c text = .token (.bracket b) 0) ∨
    (∃ d : Delimiter, d.char = c ∧ read c text = .token (.delimiter d) 0) ∨
    isBlank c = true ∧ read c text = .blank ∨
    isBlank c = false ∧ read c text = .defect (.invalidCharacter c) 0 := by
  by_cases hs : startsNumber c text = true
  · exact .inl ⟨hs, by rw [read, if_pos hs]⟩
  refine .inr ?_
  have hd : c.isDigit = false := by simp [startsNumber] at hs; exact hs.1
  by_cases ha : isAlphanumeric c = true
  · exact .inl ⟨hd, ha, by rw [read, if_neg hs, if_pos ha]⟩
  refine .inr ?_
  by_cases hq : c = '"' ∨ c = '\''
  · exact .inl ⟨hq, by rw [read, if_neg hs, if_neg ha, if_pos hq]⟩
  refine .inr ?_
  by_cases ho : operatorStarts.contains c = true
  · exact .inl ⟨ho, by rw [read, if_neg hs, if_neg ha, if_neg hq, if_pos ho]⟩
  refine .inr ?_
  rw [read, if_neg hs, if_neg ha, if_neg hq, if_neg ho]
  split
  · rename_i b hb
    exact .inl ⟨b, by simpa using List.find?_some hb, rfl⟩
  refine .inr ?_
  split
  · rename_i d hd
    exact .inl ⟨d, by simpa using List.find?_some hd, rfl⟩
  refine .inr ?_
  split
  · exact .inl ⟨‹_›, rfl⟩
  · exact .inr ⟨Bool.eq_false_iff.mpr ‹_›, rfl⟩

/-- What is read is a lexeme by the rules. -/
theorem isLexeme_of_read (h : read c text = .token kind more) :
    ∃ w rest, text = w ++ rest ∧ w.length = more ∧ IsLexeme kind (c :: w) rest := by
  rcases read_cases c text with ⟨hs, hr⟩ | ⟨hd, ha, hr⟩ | ⟨hq, hr⟩ | ⟨-, hr⟩ | ⟨b, rfl, hr⟩ |
    ⟨d, rfl, hr⟩ | ⟨-, hr⟩ | ⟨-, hr⟩ <;> rw [hr] at h
  · exact isLexeme_of_number hs h
  · exact isLexeme_of_word hd ha h
  · exact isLexeme_of_quoted hq h
  · exact isLexeme_of_operator h
  · cases h
    exact ⟨[], text, rfl, rfl, .bracket⟩
  · cases h
    exact ⟨[], text, rfl, rfl, .delimiter⟩
  · cases h
  · cases h

theorem read_eq_token_iff : read c text = .token kind more ↔
    ∃ w rest, text = w ++ rest ∧ w.length = more ∧ IsLexeme kind (c :: w) rest := by
  refine ⟨isLexeme_of_read, ?_⟩
  rintro ⟨w, rest, rfl, rfl, hl⟩
  exact read_of_isLexeme hl

theorem number_ne_blank (text : List Char) : number text ≠ .blank := by
  intro h
  rw [number] at h
  split at h
  · split at h <;> cases h
  · cases h

theorem quoted_ne_blank (quote : Char) (text : List Char) : quoted quote text ≠ .blank := by
  intro h
  rw [quoted] at h
  split at h <;> cases h

theorem operator_ne_blank (c : Char) (text : List Char) : operator c text ≠ .blank := by
  intro h
  rw [operator] at h
  split at h
  · cases h
  · split at h <;> cases h

/-- Nothing but white space is passed over. -/
theorem read_eq_blank_iff : read c text = .blank ↔ isBlank c = true := by
  refine ⟨fun h => ?_, read_blank⟩
  rcases read_cases c text with ⟨-, hr⟩ | ⟨-, -, hr⟩ | ⟨-, hr⟩ | ⟨-, hr⟩ | ⟨b, -, hr⟩ |
    ⟨d, -, hr⟩ | ⟨hc, -⟩ | ⟨-, hr⟩
  · exact absurd (hr.symm.trans h) (number_ne_blank _)
  · exact absurd (hr.symm.trans h) nofun
  · exact absurd (hr.symm.trans h) (quoted_ne_blank _ _)
  · exact absurd (hr.symm.trans h) (operator_ne_blank _ _)
  · exact absurd (hr.symm.trans h) nofun
  · exact absurd (hr.symm.trans h) nofun
  · exact hc
  · exact absurd (hr.symm.trans h) nofun

end Lexeme

theorem isBlank_operator {op : Operator} : ∀ c ∈ op.chars, isBlank c = false := by
  have hall : op.chars.all (fun c => !isBlank c) = true := by cases op <;> rfl
  simpa using hall

/-- A lexeme is one in any other place where white space comes next, or the character that came before, as
long as a function's name keeps its parenthesis. -/
theorem IsLexeme.elsewhere {kind : TokenKind} {w rest rest' : List Char} (h : IsLexeme kind w rest)
    (hnext : ∀ c ∈ rest'.head?, c ∈ rest.head? ∨ isBlank c = true)
    (hfunction : kind = .function → rest'.head? = some '(') : IsLexeme kind w rest' := by
  have hends {P : Char → Prop} (hr : ∀ c ∈ rest.head?, P c) (hblank : ∀ c, isBlank c = true → P c) :
      ∀ c ∈ rest'.head?, P c := fun c hc => (hnext c hc).elim (hr c) (hblank c)
  have hnumber (hr : EndsNumber rest) : EndsNumber rest' := by
    refine hends hr fun c hc => ?_
    have hsymbol := (Lexeme.isSymbol_blank hc).1
    exact ⟨hsymbol.digit, hsymbol.point⟩
  have hword (hw : IsWord w rest) : IsWord w rest' :=
    { hw with ends := hends hw.ends fun c hc => (Lexeme.isSymbol_blank hc).1.alphanumeric }
  cases h with
  | integer hw hp hr => exact .integer hw hp (hnumber hr)
  | float hw hp hr => exact .float hw hp (hnumber hr)
  | keyword hw hk => exact .keyword (hword hw) hk
  | reservedWord hw hk hr => exact .reservedWord (hword hw) hk hr
  | function hw hk hr hp => exact .function (hword hw) hk hr (hfunction rfl)
  | identifier hw hk hr hp =>
    refine .identifier (hword hw) hk hr fun hparen => ?_
    rcases hnext '(' hparen with hc | hblank
    · exact hp hc
    · exact absurd hblank (by decide)
  | string hq hi => exact .string hq hi
  | double ho => exact .double ho
  | single ho hr =>
    refine .single ho (hends hr fun d hd other hother => ?_)
    have hmem : d ∈ other.chars := by simp [hother]
    cases hd.symm.trans (isBlank_operator d hmem)
  | bracket => exact .bracket
  | delimiter => exact .delimiter

/-- A parenthesis touches the name of a function. -/
theorem IsLexeme.function_head {w rest : List Char} (h : IsLexeme .function w rest) :
    rest.head? = some '(' := by
  cases h with
  | function hw hk hr hp => exact hp

end SlangScript
