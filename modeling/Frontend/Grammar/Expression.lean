import Frontend.Grammar.Parser
import Frontend.Tree.Literal

/-! # Expressions

The productions of expressions, over parsers for the productions they are made
of. Commas bind loosest, then assignments, the six levels of operators, prefix
operators, calls and members, and at last names, literals and parentheses.
-/

namespace Frontend.Parser

variable {σ : Type} [TokenSource σ]

/-- A parser for the token of a kind that makes a node by itself. -/
def token (kind : TokenKind) (node : Node) : Parser σ Node := do
  let _ ← consume kind
  return node

def identifier : Parser σ Node := do
  let name ← consume .identifier
  return .identifier name.value

def numberOf (number : Token) : Parser σ Node :=
  match Literal.integer? number.value with
  | some value => pure (.numericLit value)
  | none => fail (.invalidNumber number.value) number.span.start

def numberLiteral : Parser σ Node := do numberOf (← consume .number)

def stringLiteral : Parser σ Node := do
  let quoted ← consume .string
  return .stringLit (Literal.unquoted quoted.value)

def unknownLiteral : Parser σ Node := fun state =>
  let token := state.lookahead
  fail (.unknownLiteral token.kind token.value) token.span.start state

def literal : Parser σ Node := do
  match ← kind with
  | .number => numberLiteral
  | .string => stringLiteral
  | .trueWord => token .trueWord (.boolLit true)
  | .falseWord => token .falseWord (.boolLit false)
  | .nullWord => token .nullWord .nullLit
  | _ => unknownLiteral

section

variable (self : Production → Parser σ Node)

/-- An expression in parentheses, which leave no trace. -/
def grouping : Parser σ Node := do
  let _ ← consume .openParen
  let expr ← self .sequence
  let _ ← consume .closeParen
  return expr

def arguments : Parser σ (List Node) := do
  let _ ← consume .openParen
  let args ← optionalUnless .closeParen (commaSeparated (self .assignment))
  let _ ← consume .closeParen
  return args.getD []

def creation : Parser σ Node := do
  let _ ← consume .newWord
  let callee ← self .member
  let args ← arguments self
  return .newExpr callee args

def primary : Parser σ Node := do
  match ← kind with
  | .openParen => self .grouping
  | .identifier => self .identifier
  | .thisWord => token .thisWord .thisExpr
  | .newWord => self .creation
  | _ => self .literal

/-- The member of an object that a dot or an opening bracket at hand introduces. -/
def memberOf (object : Node) : Parser σ Node := do
  if (← kind) = .dot then
    let _ ← consume .dot
    let name ← self .identifier
    return .memberExpr false object name
  else
    let _ ← consume .openBracket
    let index ← self .sequence
    let _ ← consume .closeBracket
    return .memberExpr true object index

def member : Parser σ Node := do
  let object ← self .primary
  repeatWhile (fun kind => kind == .dot || kind == .openBracket) object (memberOf self)

def callOf (callee : Node) : Parser σ Node := do
  let args ← arguments self
  return .callExpr callee args

def calls (callee : Node) : Parser σ Node := do
  let call ← callOf self callee
  repeatWhile (· == .openParen) call (callOf self)

/-- The calls of a member. What `new` creates is called only through a member of it. -/
def callsOfMember : Parser σ Node := do
  let createsFirst := (← kind) == .newWord
  let callee ← self .member
  if (← kind) = .openParen && !(createsFirst && callee.isNewExpr) then calls self callee
  else return callee

def leftHandSide : Parser σ Node := do
  if (← kind) = .superWord then
    let _ ← consume .superWord
    calls self .superCall
  else callsOfMember self

def prefixOperation : Parser σ Node := do
  let op ← operator
  let arg ← self .prefixed
  return .unaryExpr op arg

def prefixed : Parser σ Node := do
  if (← kind).isUnaryOp then prefixOperation self else self .leftHandSide

def binary (operand : Production) (kind : TokenKind) : Parser σ Node :=
  leftAssociative .binaryExpr (self operand) kind

def logical (operand : Production) (kind : TokenKind) : Parser σ Node :=
  leftAssociative .logicalExpr (self operand) kind

/-- The rest of an assignment to a node. The node is checked before the value is read. -/
def assignTo (left : Node) : Parser σ Node := do
  let symbol ← advance
  let op ← operatorOf symbol
  if left.isAssignable then
    let right ← self .assignment
    return .assignExpr op left right
  else fail (.notAssignable left) symbol.span.start

def assignment : Parser σ Node := do
  let left ← self .disjunction
  if (← kind).isAssignOp then assignTo self left else return left

def sequence : Parser σ Node := do
  let body ← commaSeparated (self .assignment)
  return .ofSequence body

end

end Frontend.Parser
