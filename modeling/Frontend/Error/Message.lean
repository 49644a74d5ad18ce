import Frontend.Error
import Frontend.Text.Quoted

/-! # What errors say

The name, message and tip of an error. Messages quote the text they speak of,
tips put it between backticks as it is.
-/

namespace Frontend

namespace Cause

def name : Cause → String
  | unmatchedText _ => "LexicalError"
  | unexpectedToken .. => "UnexpectedToken"
  | unexpectedEnd _ => "UnexpectedEndOfInput"
  | unknownLiteral .. => "UnknownLiteral"
  | unknownOperator .binary _ => "UnknownBinaryOp"
  | unknownOperator .logical _ => "UnknownLogicalOp"
  | unknownOperator .unary _ => "UnknownUnaryOp"
  | unknownOperator .assign _ => "UnknownAssignOp"
  | notAssignable _ => "InvalidLvalue"
  | invalidNumber _ => "InvalidNumber"

def message : Cause → String
  | unmatchedText remaining => "unexpected input: " ++ Text.quoted remaining
  | unexpectedToken actual value expected =>
    "unexpected token " ++ actual.name ++ "(" ++ Text.quoted value ++ "), expected "
      ++ expected.name
  | unexpectedEnd expected => "unexpected end of input, expected " ++ expected.name
  | unknownLiteral kind value => "unknown literal type " ++ kind.name ++ ": " ++ Text.quoted value
  | unknownOperator family symbol =>
    "unknown " ++ family.word ++ " operator: " ++ Text.quoted symbol
  | notAssignable node => "invalid lvalue in assignment: " ++ node.tag
  | invalidNumber value => "error parsing number: " ++ Text.quoted value

/-- Advice on how to mend the program, where there is any. -/
def tip? : Cause → Option String
  | unmatchedText _ => none
  | unexpectedToken actual value expected =>
    if expected = .semicolon then
      some ("Unexpected token: `" ++ value ++ "`, did you miss a semicolon?")
    else
      some ("Expected `" ++ expected.name ++ "`, found " ++ actual.name ++ " `" ++ value ++ "`")
  | unexpectedEnd expected =>
    some ("Input ended while `" ++ expected.name ++ "` was still expected")
  | unknownLiteral kind _ => some ("An expression cannot start with " ++ kind.name)
  | unknownOperator .unary symbol =>
    some ("`" ++ symbol ++ "` is not a prefix operator, only `!` and `-` are")
  | unknownOperator _ _ => none
  | notAssignable _ => some "Only identifiers and member expressions can be assigned to"
  | invalidNumber value =>
    some ("Invalid number: `" ++ value ++ "`, is it above the integer limit?")

end Cause

namespace Error

def name (e : Error) : String := e.cause.name

def message (e : Error) : String :=
  e.cause.message ++ " (at byte " ++ toString e.position ++ ")"

def tip? (e : Error) : Option String := e.cause.tip?

end Error

end Frontend
