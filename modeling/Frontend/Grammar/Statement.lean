import Frontend.Grammar.Expression

/-! # Statements

The productions of statements and declarations, over parsers for the
productions they are made of.
-/

namespace Frontend.Parser

variable {σ : Type} [TokenSource σ] (self : Production → Parser σ Node)

def statement : Parser σ Node := do
  match ← handler? with
  | some production => self production
  | none => self .expressionStatement

/-- Statements up to a token of the given kind, which stays, or the end of input. -/
def statements (stop : TokenKind) : Parser σ (List Node) := do
  let reversed ← repeatWhile (fun kind => kind != stop && kind != .eof) [] fun nodes => do
    return (← self .statement) :: nodes
  return reversed.reverse

def expressionStatement : Parser σ Node := do
  let expr ← self .sequence
  let _ ← consume .semicolon
  return .exprStmt expr

def emptyStatement : Parser σ Node := token .semicolon .emptyStmt

def block : Parser σ Node := do
  let _ ← consume .openCurly
  let body ← statements self .closeCurly
  let _ ← consume .closeCurly
  return .blockStmt body

def variableStatement : Parser σ Node := do
  let list ← self .variableList
  let _ ← consume .semicolon
  return list

def variableList : Parser σ Node := do
  let _ ← consume .letWord
  let decls ← commaSeparated (self .variableDeclaration)
  return .varStmt decls

def initializer : Parser σ Node := do
  let _ ← consume .simpleAssign
  self .assignment

def variableDeclaration : Parser σ Node := do
  let id ← self .identifier
  let next ← kind
  let init ← if next = .comma || next = .semicolon then pure none
    else some <$> initializer self
  return .varDecl id init

def condition : Parser σ Node := do
  let _ ← consume .openParen
  let cond ← self .sequence
  let _ ← consume .closeParen
  return cond

def alternative : Parser σ (Option Node) := do
  if (← kind) = .elseWord then
    let _ ← consume .elseWord
    some <$> self .statement
  else return none

def conditional : Parser σ Node := do
  let _ ← consume .ifWord
  let cond ← condition self
  let cons ← self .statement
  let alt ← alternative self
  return .ifStmt cond cons alt

def whileLoop : Parser σ Node := do
  let _ ← consume .whileWord
  let cond ← condition self
  let body ← self .statement
  return .whileStmt cond body

def doWhileLoop : Parser σ Node := do
  let _ ← consume .doWord
  let body ← self .statement
  let _ ← consume .whileWord
  let cond ← condition self
  let _ ← consume .semicolon
  return .doWhileStmt cond body

/-- What a `for` loop begins with: declarations or an expression. -/
def loopStart : Parser σ Node := do
  if (← kind) = .letWord then self .variableList else self .sequence

def forLoop : Parser σ Node := do
  let _ ← consume .forWord
  let _ ← consume .openParen
  let init ← optionalUnless .semicolon (loopStart self)
  let _ ← consume .semicolon
  let cond ← optionalUnless .semicolon (self .sequence)
  let _ ← consume .semicolon
  let step ← optionalUnless .closeParen (self .sequence)
  let _ ← consume .closeParen
  let body ← self .statement
  return .forStmt init cond step body

def notALoop : Parser σ Node := fun state =>
  let token := state.lookahead
  fail (.unexpectedToken token.kind token.value .whileWord) token.span.start state

def iteration : Parser σ Node := do
  match ← kind with
  | .whileWord => self .whileLoop
  | .doWord => self .doWhileLoop
  | .forWord => self .forLoop
  | _ => notALoop

def functionDeclaration : Parser σ Node := do
  let _ ← consume .defWord
  let name ← self .identifier
  let _ ← consume .openParen
  let params ← optionalUnless .closeParen (commaSeparated (self .identifier))
  let _ ← consume .closeParen
  let body ← self .block
  return .funcDecl name params body

def returnStatement : Parser σ Node := do
  let _ ← consume .returnWord
  let arg ← optionalUnless .semicolon (self .sequence)
  let _ ← consume .semicolon
  return .returnStmt arg

def superclass : Parser σ (Option Node) := do
  if (← kind) = .extendsWord then
    let _ ← consume .extendsWord
    some <$> self .identifier
  else return none

def classDeclaration : Parser σ Node := do
  let _ ← consume .classWord
  let id ← self .identifier
  let superclass ← superclass self
  let body ← self .block
  return .classDecl id superclass body

end Frontend.Parser
