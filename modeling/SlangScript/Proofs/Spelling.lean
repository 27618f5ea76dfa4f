import Mathlib.Data.List.Basic
import SlangScript.Proofs.Segmentation

/-! The tokens of a text as lexemes. Each is one in front of what followed it, and the words among them
are words of the tables that their kinds name. -/
namespace SlangScript

/-- Keywords and reserved words are spelled as such. -/
def Token.WellSpelled (t : Token) : Prop :=
  (t.kind = .keyword → t.lexeme ∈ keywords) ∧ (t.kind = .reservedWord → t.lexeme ∈ reservedWords)

theorem IsLexeme.spelled {kind : TokenKind} {w rest : List Char} (h : IsLexeme kind w rest) :
    (kind = .keyword → String.ofList w ∈ keywords) ∧
      (kind = .reservedWord → String.ofList w ∈ reservedWords) := by
  cases h with
  | keyword hw hk => exact ⟨fun _ => hk, nofun⟩
  | reservedWord hw hk hr => exact ⟨nofun, fun _ => hr⟩
  | _ => exact ⟨nofun, nofun⟩

/-- Tokens as they come out of a text: each is a lexeme in front of something, and behind the name of a
function a lexeme begins with the parenthesis. -/
inductive Lexemes : List Token → Prop
  | nil : Lexemes []
  | cons {t : Token} {ts : List Token} {rest : List Char} (hl : IsLexeme t.kind t.lexeme.toList rest)
    (hfunction : t.kind = .function → ∃ p ∈ ts.head?, p.lexeme.toList.head? = some '(')
    (h : Lexemes ts) : Lexemes (t :: ts)

section Texts
variable {line column : Nat} {text : List Char} {texts : List (List Char)} {ts us : List Token}
  {lines : List TokenLine}

theorem Lexemes.isLexeme (h : Lexemes ts) : ∀ t ∈ ts, ∃ rest, IsLexeme t.kind t.lexeme.toList rest := by
  induction h with
  | nil => nofun
  | cons hl hfunction h ih => exact List.forall_mem_cons.mpr ⟨⟨_, hl⟩, ih⟩

theorem Lexemes.append (h : Lexemes ts) (hus : Lexemes us) : Lexemes (ts ++ us) := by
  induction h with
  | nil => exact hus
  | cons hl hfunction h ih =>
    refine .cons hl (fun hkind => ?_) ih
    obtain ⟨p, hp, hparen⟩ := hfunction hkind
    exact ⟨p, List.mem_head?_append_of_mem_head? hp, hparen⟩

theorem Laid.head_paren (h : Laid line column text ts) (htext : text.head? = some '(') :
    ∃ p ∈ ts.head?, p.lexeme.toList.head? = some '(' := by
  cases h with
  | nil => cases htext
  | blank hc h =>
    cases htext
    exact absurd hc (by decide)
  | lexeme hw h =>
    refine ⟨_, rfl, ?_⟩
    rw [String.toList_ofList]
    rwa [List.head?_append_of_ne_nil _ hw.ne_nil] at htext

theorem Laid.lexemes (h : Laid line column text ts) : Lexemes ts := by
  induction h with
  | nil => exact .nil
  | blank hc h ih => exact ih
  | lexeme hw h ih =>
    refine .cons (by rwa [String.toList_ofList]) (fun hkind => ?_) ih
    cases hkind
    exact h.head_paren hw.function_head

theorem LaidLines.lexemes (h : LaidLines line texts lines) : Lexemes (TokenLine.flatten lines) := by
  induction h with
  | nil => exact .nil
  | cons h hs ih => exact h.lexemes.append ih

end Texts

/-- Every token of a text is a lexeme by the rules, in front of something. -/
theorem tokenize_isLexeme {source : String} {lines : List TokenLine} (h : tokenize source = .ok lines) :
    ∀ t ∈ TokenLine.flatten lines, ∃ rest, IsLexeme t.kind t.lexeme.toList rest :=
  (tokenize_eq_ok_iff.mp h).2.lexemes.isLexeme

/-- Every word that is read from a text is spelled as its kind says. -/
theorem tokenize_spelled {source : String} {lines : List TokenLine} (h : tokenize source = .ok lines) :
    ∀ t ∈ TokenLine.flatten lines, t.WellSpelled := by
  intro t ht
  obtain ⟨rest, hlexeme⟩ := tokenize_isLexeme h t ht
  simpa [Token.WellSpelled] using hlexeme.spelled

end SlangScript
