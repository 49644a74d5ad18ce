/-! # Productions

The names of what a program is made of. A statement is told by its first token,
and the levels of expressions bind tighter from one to the next.
-/

namespace Frontend

inductive Production where
  | statement
  | expressionStatement | emptyStatement | block
  | variableStatement
  /-- `let` and its declarations, without the semicolon. -/
  | variableList
  | variableDeclaration
  | conditional
  /-- Any of the three loops. -/
  | iteration
  | whileLoop | doWhileLoop | forLoop
  | functionDeclaration | returnStatement | classDeclaration
  /-- Expressions with commas between them. -/
  | sequence
  | assignment
  | disjunction | conjunction | equality | relation | sum | product
  | prefixed
  /-- Members and calls, and what `super` calls. -/
  | leftHandSide
  | member | primary | grouping | creation | identifier | literal
  deriving DecidableEq, Repr

end Frontend
