import SlangScript.Proofs.Acceptance

/-! The tree of a program read in the order of its source. Brackets and delimiters aside, every token of
an accepted program is found in its tree, once and in its place. -/
namespace SlangScript

/-- What a token says: an operator its symbol, any other token its text, and brackets and delimiters
nothing. -/
def Token.word? (t : Token) : Option String :=
  match t.kind with
  | .bracket _ | .delimiter _ => none
  | .operator op => some op.symbol
  | _ => some t.lexeme

/-- What the tokens say, in order. -/
def words (ts : List Token) : List String := ts.filterMap Token.word?

namespace Tag

/-- The words by which a construct is known, which its node does not hold. -/
def words : Tag → List String
  | ifBlock => ["sus"]
  | elseIfBlock => ["else", "sus"]
  | elseBlock => ["else"]
  | forStmt => ["forreal"]
  | whileStmt => ["talk"]
  | switchStmt => ["mood"]
  | printStmt => ["spill"]
  | inputStmt => ["post"]
  | functionDef => ["trend"]
  | returnStmt => ["reply"]
  | lineStmt => ["line", "="]
  | _ => []

/-- The text of a node among the readings of its children: an operator stands between its operands or
behind its only one, any other text before all children. -/
def place (text : List String) (parts : List (List String)) : Tag → List String
  | binaryOp | assignmentOp | assignOp => (parts.take 1).flatten ++ text ++ (parts.drop 1).flatten
  | postfixOp | incDecOp => parts.flatten ++ text
  | tag => tag.words ++ text ++ parts.flatten

end Tag

namespace Tree

mutual

/-- The words of a tree in the order of its source. -/
def reading : Tree → List String
  | node tag value children => tag.place value.toList (readings children)

def readings : List Tree → List (List String)
  | [] => []
  | t :: ts => reading t :: readings ts

end

@[simp] theorem reading_node (tag : Tag) (value : Option String) (children : List Tree) :
    (node tag value children).reading = tag.place value.toList (readings children) := rfl

@[simp] theorem readings_nil : readings [] = [] := rfl

@[simp] theorem readings_cons (t : Tree) (ts : List Tree) :
    readings (t :: ts) = t.reading :: readings ts := rfl

end Tree

open SlangScript.Tree

section Words
variable {t : Token} {ts us : List Token}

@[simp] theorem words_nil : words [] = [] := rfl

@[simp] theorem words_append (ts us : List Token) : words (ts ++ us) = words ts ++ words us :=
  List.filterMap_append

theorem words_cons (t : Token) (ts : List Token) : words (t :: ts) = t.word?.toList ++ words ts := by
  cases h : t.word? <;> simp [words, h]

theorem words_bracket {b : Bracket} (h : t.kind = .bracket b) : words (t :: ts) = words ts := by
  simp [words_cons, Token.word?, h]

theorem words_delimiter {d : Delimiter} (h : t.kind = .delimiter d) : words (t :: ts) = words ts := by
  simp [words_cons, Token.word?, h]

theorem words_operator {op : Operator} (h : t.operator? = some op) :
    words (t :: ts) = op.symbol :: words ts := by
  have hk : t.kind = .operator op := by
    rw [Token.operator?] at h
    split at h <;> cases h
    assumption
  simp [words_cons, Token.word?, hk]

theorem words_word (h : t.kind.isWord = true) : words (t :: ts) = t.lexeme :: words ts := by
  cases hk : t.kind <;> rw [hk] at h <;> cases h <;> simp [words_cons, Token.word?, hk]

theorem words_isWord {word : String} (h : t.isWord word = true) :
    words (t :: ts) = word :: words ts := by
  obtain ⟨hw, rfl⟩ : t.kind.isWord = true ∧ t.lexeme = word := by simpa [Token.isWord] using h
  exact words_word hw

/-- A token of any other sort says its text. -/
theorem words_text {kind : TokenKind} (h : t.kind = kind)
    (hk : kind = .identifier ∨ kind = .function ∨ kind = .integer) :
    words (t :: ts) = t.lexeme :: words ts := by
  rcases hk with rfl | rfl | rfl <;> simp [words_cons, Token.word?, h]

theorem words_identifier (h : t.kind = .identifier) : words (t :: ts) = t.lexeme :: words ts :=
  words_text h (.inl rfl)

theorem words_function (h : t.kind = .function) : words (t :: ts) = t.lexeme :: words ts :=
  words_text h (.inr (.inl rfl))

theorem words_operand {tag : Tag} (h : Tag.ofOperand? t.kind = some tag) :
    words (t :: ts) = t.lexeme :: words ts := by
  cases hk : t.kind <;> rw [hk] at h <;> cases h <;> simp [words_cons, Token.word?, hk]

theorem reading_operand {kind : TokenKind} {tag : Tag} (h : Tag.ofOperand? kind = some tag)
    (text : String) : (leaf tag text).reading = [text] := by
  cases kind <;> cases h <;> rfl

end Words

/-- The words of a part that stands for these trees. The word of a guarded block stands before the
part. -/
def Part.reading : Part → List Tree → List String
  | .guarded _, ts => ts.flatMap fun t => (readings t.children).flatten
  | .separated item, ts | .listed item, ts => ts.flatMap fun t => item.reading [t]
  | _, ts => (readings ts).flatten

private theorem flatMap_reading (ts : List Tree) : ts.flatMap reading = (readings ts).flatten := by
  induction ts with
  | nil => rfl
  | cons t ts ih => simp [ih]

/-- What the grammar derives is read off its trees. -/
theorem Derives.words_eq {part : Part} {n : Nat} {w : List Token} {ts : List Tree}
    (h : Derives part n w ts) : words w = part.reading ts := by
  induction h with
  | literal ht => simp [words_operand ht, Part.reading, reading_operand ht]
  | stepped ht ho =>
    have ho := (Option.filter_eq_some_iff.mp ho).1
    simp [words_operand ht, words_operator ho, Part.reading, reading_operand ht, Tag.place]
  | grouped ho he hc ih => simpa [words_bracket ho, words_bracket hc, Part.reading] using ih
  | arrayOperand ha ih => exact ih
  | single he ih => exact ih
  | binary hl ho hr ihl ihr =>
    have ho := (Option.filter_eq_some_iff.mp ho).1
    simp [words_operator ho, ihl, ihr, Part.reading, Tree.binary, Tag.place]
  | call hf ho hs hc ih =>
    simp [words_function hf, words_bracket ho, words_bracket hc, ih, Part.reading, Tag.place,
      Tag.words, flatMap_reading]
  | callElement he ih => exact ih
  | expressionElement he ih => exact ih
  | array ho hs hc ih =>
    simp [words_bracket ho, words_bracket hc, ih, Part.reading, Tag.place, Tag.words,
      flatMap_reading]
  | number ht =>
    simp [words_text ht, Part.reading, leaf, Tag.place, Tag.words]
  | parameter ht hx =>
    simp [words_word ht, words_identifier hx, Part.reading, leaf, Tag.place, Tag.words]
  | parameters hs ih => simpa [Part.reading, flatMap_reading] using ih
  | trailingComma hs hc ih => simpa [words_delimiter hc, Part.reading, flatMap_reading] using ih
  | one he ih => simpa [Part.reading] using ih
  | more he hc hs ihe ihs => simp [words_delimiter hc, ihe, ihs, Part.reading]
  | unlisted => rfl
  | listed hs ih => exact ih
  | braces ho hs hc ih =>
    simp [words_bracket ho, words_bracket hc, ih, Part.reading, Tag.place, Tag.words]
  | guarded ho he hc hb ihe ihb =>
    simp [words_bracket ho, words_bracket hc, ihe, ihb, Part.reading, Tag.place, Tag.words,
      children]
  | unbranched => rfl
  | elseIf he hs hb hbs ihb ihbs =>
    rw [words_isWord he, words_isWord hs, words_append, ihb, ihbs]
    cases hb
    simp [Part.reading, Tag.place, Tag.words, children]
  | elseBlock he hb ih =>
    simp [words_isWord he, ih, Part.reading, Tag.place, Tag.words]
  | assignedArray ha ih => exact ih
  | assignedExpression he hw ih => exact ih
  | declaration hk hx =>
    simp [words_word hk.1, words_identifier hx, Part.reading, leaf, Tag.place, Tag.words]
  | initialised hk hx ho hop he ih =>
    simp [words_word hk.1, words_identifier hx, words_operator ho, ih, Part.reading, leaf,
      Tag.place, Tag.words]
  | print hk ho he hc ih =>
    simp [words_isWord hk, words_bracket ho, words_bracket hc, ih, Part.reading, Tag.place, Tag.words]
  | input hk ho hx hc =>
    simp [words_isWord hk, words_bracket ho, words_identifier hx, words_bracket hc, Part.reading, leaf,
      Tag.place, Tag.words]
  | reply hk he ih => simp [words_isWord hk, ih, Part.reading, Tag.place, Tag.words]
  | called he ih => exact ih
  | lineList hx hs ho hns hc ih =>
    simp [words_identifier hx.1, hx.2, words_operator hs, words_bracket ho, words_bracket hc, ih,
      Part.reading, Tag.place, Tag.words, flatMap_reading]
    rfl
  | alone hx => simp [words_identifier hx, Part.reading, leaf, Tag.place, Tag.words]
  | counted hx ho hop =>
    simp [words_identifier hx, words_operator ho, Part.reading, leaf, Tag.place, Tag.words]
  | assignment hx ho hop hline he ih =>
    simp [words_identifier hx, words_operator ho, ih, Part.reading, leaf, Tag.place, Tag.words]
  | unterminated hs ih => exact ih
  | terminated hs ht ih => simpa [words_delimiter ht, Part.reading] using ih
  | ifChain hk hb hbs ihb ihbs =>
    rw [words_isWord hk, words_append, ihb, ihbs]
    cases hb
    simp [Part.reading, Tag.place, Tag.words, children]
  | forLoop hk ho hu hs₁ hv hs₂ hw hc hb ihu ihv ihw ihb =>
    simp [words_isWord hk, words_bracket ho, words_delimiter hs₁, words_delimiter hs₂,
      words_bracket hc, ihu, ihv, ihw, ihb, Part.reading, Tag.place, Tag.words]
  | whileLoop hk hs ih =>
    rw [words_isWord hk, ih]
    cases hs
    simp [Part.reading, Tag.place, Tag.words, children]
  | switch hk hs ih =>
    rw [words_isWord hk, ih]
    cases hs
    simp [Part.reading, Tag.place, Tag.words, children]
  | definition hk hf ho hps hc hb ihps ihb =>
    simp [words_isWord hk, words_function hf, words_bracket ho, words_bracket hc, ihps, ihb,
      Part.reading, Tag.place, Tag.words]
  | block hb ih => simpa [Part.reading, Tag.place, Tag.words] using ih
  | done => rfl
  | next hs hss ihs ihss => simp [ihs, ihss, Part.reading]

theorem reading_program (ss : List Tree) : (Tree.program ss).reading = (readings ss).flatten := by
  simp [Tree.program, Tag.place, Tag.words]

/-- The tokens of an accepted program, brackets and delimiters aside, say what its tree says when it is
read in the order of its source: none is lost, doubled or moved. -/
theorem parse_reading {ts : List Token} (h : (parse ts).errorCount = 0) :
    words ts = (parse ts).tree.reading := by
  obtain ⟨ss, -, hd, htree⟩ := derives_of_parse (List.length_eq_zero_iff.mp h)
  rw [htree, reading_program, hd.words_eq]
  rfl

/-- `sus (x) { x++ } else { reply 1 - (y); }`. -/
def countedBranches : List Token :=
  [⟨.keyword, "sus", .origin⟩, ⟨.bracket .openParen, "(", .origin⟩, ⟨.identifier, "x", .origin⟩,
    ⟨.bracket .closeParen, ")", .origin⟩, ⟨.bracket .openBrace, "\x7b", .origin⟩,
    ⟨.identifier, "x", .origin⟩, ⟨.operator .increment, "++", .origin⟩,
    ⟨.bracket .closeBrace, "\x7d", .origin⟩, ⟨.keyword, "else", .origin⟩,
    ⟨.bracket .openBrace, "\x7b", .origin⟩, ⟨.keyword, "reply", .origin⟩, ⟨.integer, "1", .origin⟩,
    ⟨.operator .sub, "-", .origin⟩, ⟨.bracket .openParen, "(", .origin⟩,
    ⟨.identifier, "y", .origin⟩, ⟨.bracket .closeParen, ")", .origin⟩,
    ⟨.delimiter .semicolon, ";", .origin⟩, ⟨.bracket .closeBrace, "\x7d", .origin⟩]

theorem countedBranches_reading :
    (parse countedBranches).errorCount = 0 ∧
      (parse countedBranches).tree.reading =
        ["sus", "x", "x", "++", "else", "reply", "1", "-", "y"] := by
  have hacc : (parse countedBranches).errorCount = 0 := by decide +kernel
  exact ⟨hacc, (parse_reading hacc).symm.trans (by decide +kernel)⟩

end SlangScript
