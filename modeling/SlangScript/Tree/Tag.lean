import SlangScript.Token

/-! The sorts of nodes in a parse tree. -/
namespace SlangScript

inductive Tag where
  | program | statementList | declaration | identifier | assignOp
  | ifChain | ifBlock | elseIfBlock | elseBlock
  | forStmt | whileStmt | printStmt | inputStmt | switchStmt
  | functionDef | paramList | param | type | functionCall
  | lineStmt | returnStmt | block | exprStmt | assignmentOp | incDecOp
  | expr | arrayLiteral | binaryOp | postfixOp
  | integer | floatNumber | string
  deriving DecidableEq, Repr

namespace Tag

def all : List Tag :=
  [program, statementList, declaration, identifier, assignOp, ifChain, ifBlock, elseIfBlock,
    elseBlock, forStmt, whileStmt, printStmt, inputStmt, switchStmt, functionDef, paramList, param,
    type, functionCall, lineStmt, returnStmt, block, exprStmt, assignmentOp, incDecOp, expr,
    arrayLiteral, binaryOp, postfixOp, integer, floatNumber, string]

/-- The name of a sort as a printed tree shows it. -/
def name : Tag → String
  | program => "PROGRAM"
  | statementList => "STATEMENT_LIST"
  | declaration => "DECLARATION"
  | identifier => "IDENTIFIER"
  | assignOp => "ASSIGN_OP"
  | ifChain => "IF_CHAIN"
  | ifBlock => "IF_BLOCK"
  | elseIfBlock => "ELSE_IF_BLOCK"
  | elseBlock => "ELSE_BLOCK"
  | forStmt => "FOR_STMT"
  | whileStmt => "WHILE_STMT"
  | printStmt => "PRINT_STMT"
  | inputStmt => "INPUT_STMT"
  | switchStmt => "SWITCH_STMT"
  | functionDef => "FUNCTION_DEF"
  | paramList => "PARAM_LIST"
  | param => "PARAM"
  | type => "TYPE"
  | functionCall => "FUNCTION_CALL"
  | lineStmt => "LINE_STMT"
  | returnStmt => "RETURN_STMT"
  | block => "BLOCK"
  | exprStmt => "EXPR_STMT"
  | assignmentOp => "ASSIGNMENT_OP"
  | incDecOp => "INCDEC_OP"
  | expr => "EXPR"
  | arrayLiteral => "ARRAY_LITERAL"
  | binaryOp => "BINARY_OP"
  | postfixOp => "POSTFIX_OP"
  | integer => "INTEGER"
  | floatNumber => "FLOAT_NUMBER"
  | string => "STRING"

def ofName? (name : String) : Option Tag := all.find? (·.name = name)

/-- The sort of leaf that a token becomes when it stands as an operand. -/
def ofOperand? : TokenKind → Option Tag
  | .integer => some integer
  | .floatNumber => some floatNumber
  | .string => some string
  | .identifier => some identifier
  | _ => none

end Tag

end SlangScript
