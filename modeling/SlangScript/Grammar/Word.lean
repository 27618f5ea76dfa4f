/-! The words that the language sets apart from identifiers. -/
namespace SlangScript

def keywords : List String :=
  ["flex", "nocap", "bet", "forreal", "sus", "else", "tryme", "mood", "ouchy", "spill", "loop",
    "like", "unlike", "reply", "post", "talk", "scene"]

def reservedWords : List String :=
  ["tru", "barbers", "cancel", "fresh", "stat", "super", "class", "char", "num", "caption",
    "feed", "trend"]

/-- The words that open a declaration: three keywords and the reserved word `num`. -/
def declarationWords : List String := ["flex", "nocap", "bet", "num"]

def isKeyword (word : String) : Bool := keywords.contains word

def isReservedWord (word : String) : Bool := reservedWords.contains word

def isDeclarationWord (word : String) : Bool := declarationWords.contains word

end SlangScript
