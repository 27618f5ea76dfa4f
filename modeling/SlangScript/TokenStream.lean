import SlangScript.Token

/-! A sequence of tokens with a reading position. Only `advance` moves the position, and never past
the end. -/
namespace SlangScript

structure TokenStream where
  tokens : List Token
  position : Nat
  deriving DecidableEq, Repr

namespace TokenStream

def ofTokens (tokens : List Token) : TokenStream := ⟨tokens, 0⟩

def ofLines (lines : List TokenLine) : TokenStream := ofTokens (TokenLine.flatten lines)

/-- The token `offset` places after the reading position. -/
def peek? (s : TokenStream) (offset : Nat) : Option Token := s.tokens[s.position + offset]?

def current? (s : TokenStream) : Option Token := s.peek? 0

/-- The token at the reading position, and the stream that reads on behind it. -/
def advance (s : TokenStream) : Option Token × TokenStream :=
  match s.current? with
  | some t => (some t, { s with position := s.position + 1 })
  | none => (none, s)

def length (s : TokenStream) : Nat := s.tokens.length

def isEmpty (s : TokenStream) : Bool := s.tokens.isEmpty

def isAtEnd (s : TokenStream) : Bool := s.length ≤ s.position

/-- The tokens not yet read. -/
def remaining (s : TokenStream) : List Token := s.tokens.drop s.position

end TokenStream

end SlangScript
