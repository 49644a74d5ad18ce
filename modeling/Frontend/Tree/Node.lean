import Frontend.Tree.Operator

/-! # Syntax trees

One type for every node of a program. Which nodes may stand in which place is a
matter of the grammar: the type itself lets any node stand anywhere.
-/

namespace Frontend

inductive Node where
  | program (body : List Node)
  | stringLit (value : String)
  | numericLit (value : Int)
  | boolLit (value : Bool)
  | nullLit
  | exprStmt (expr : Node)
  | blockStmt (body : List Node)
  | emptyStmt
  | varStmt (decls : List Node)
  | varDecl (id : Node) (init : Option Node)
  | ifStmt (cond cons : Node) (alt : Option Node)
  | whileStmt (cond body : Node)
  | doWhileStmt (cond body : Node)
  | forStmt (init cond step : Option Node) (body : Node)
  /-- A function. Without parameters the list is absent, which differs from an empty one. -/
  | funcDecl (name : Node) (params : Option (List Node)) (body : Node)
  | returnStmt (arg : Option Node)
  | classDecl (id : Node) (superclass : Option Node) (body : Node)
  | binaryExpr (op : BinaryOp) (left right : Node)
  | logicalExpr (op : LogicalOp) (left right : Node)
  | unaryExpr (op : UnaryOp) (arg : Node)
  | assignExpr (op : AssignOp) (left right : Node)
  | seqExpr (body : List Node)
  | thisExpr
  | newExpr (callee : Node) (args : List Node)
  | callExpr (callee : Node) (args : List Node)
  /-- `obj[prop]` if computed, else `obj.prop`. -/
  | memberExpr (computed : Bool) (obj prop : Node)
  | identifier (name : String)
  /-- What `super(...)` calls. -/
  | superCall
  deriving Inhabited

namespace Node

/-- The name of a node's variety in documents and messages. -/
def tag : Node → String
  | program .. => "ProgramType"
  | stringLit .. => "StringLitType"
  | numericLit .. => "NumericLitType"
  | boolLit .. => "BoolLitType"
  | nullLit => "NullLitType"
  | exprStmt .. => "ExprStmtType"
  | blockStmt .. => "BlockStmtType"
  | emptyStmt => "EmptyStmtType"
  | varStmt .. => "VarStmtType"
  | varDecl .. => "VarDeclType"
  | ifStmt .. => "IfStmtType"
  | whileStmt .. => "WhileStmtType"
  | doWhileStmt .. => "DoWhileStmtType"
  | forStmt .. => "ForStmtType"
  | funcDecl .. => "FuncDeclType"
  | returnStmt .. => "ReturnStmtType"
  | classDecl .. => "ClassDeclType"
  | binaryExpr .. => "BinaryExprType"
  | logicalExpr .. => "LogicalExprType"
  | unaryExpr .. => "UnaryExprType"
  | assignExpr .. => "AssignExprType"
  | seqExpr .. => "SeqExprType"
  | thisExpr => "ThisExprType"
  | newExpr .. => "NewExprType"
  | callExpr .. => "CallExprType"
  | memberExpr .. => "MemberExprType"
  | identifier .. => "IdentifierType"
  | superCall => "SuperCallType"

def isAssignable : Node → Bool
  | identifier .. | memberExpr .. => true
  | _ => false

def isNewExpr : Node → Bool
  | newExpr .. => true
  | _ => false

/-- Expressions in sequence. A single one stands for itself. -/
def ofSequence : List Node → Node
  | [expr] => expr
  | body => seqExpr body

end Node

end Frontend
