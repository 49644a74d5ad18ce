import Frontend.Token.Kind
import Frontend.Tree.Equality

/-! # Errors

An error is a cause and the byte it was found at. Every cause has a name, a
message and, for most of them, a tip for the author of the program.
-/

namespace Frontend

/-- Why a text is not a program. -/
inductive Cause where
  /-- No rule matches at the beginning of the remaining text. -/
  | unmatchedText (remaining : String)
  | unexpectedToken (actual : TokenKind) (value : String) (expected : TokenKind)
  | unexpectedEnd (expected : TokenKind)
  /-- A token that cannot begin an expression. -/
  | unknownLiteral (kind : TokenKind) (value : String)
  /-- A token of an operator's kind whose value is no operator of the family. -/
  | unknownOperator (family : OperatorFamily) (symbol : String)
  | notAssignable (node : Node)
  | invalidNumber (value : String)
  deriving DecidableEq

structure Error where
  cause : Cause
  position : Nat
  deriving DecidableEq

end Frontend
