import Frontend.Document
import Frontend.Tree.Node

/-! # Trees as documents

A node becomes an object whose fields stand in the order of their keys, with
the node's variety under `type`. An absent part is `null`.
-/

namespace Frontend

def Document.ofOperator {α : Type} [Operator α] (op : α) : Document :=
  .text (Operator.symbol op)

namespace Node

def variety (node : Node) : String × Document := ("type", .text node.tag)

mutual

def document : Node → Document
  | program body => .object [("body", .array (documents body)), variety (program body)]
  | stringLit value => .object [variety (stringLit value), ("value", .text value)]
  | numericLit value => .object [variety (numericLit value), ("value", .int value)]
  | boolLit value => .object [variety (boolLit value), ("value", .bool value)]
  | nullLit => .object [variety nullLit]
  | exprStmt expr => .object [("expr", document expr), variety (exprStmt expr)]
  | blockStmt body => .object [("body", .array (documents body)), variety (blockStmt body)]
  | emptyStmt => .object [variety emptyStmt]
  | varStmt decls => .object [("decls", .array (documents decls)), variety (varStmt decls)]
  | varDecl id init =>
    .object [("id", document id), ("init", optionalDocument init), variety (varDecl id init)]
  | ifStmt cond cons alt =>
    .object [("alt", optionalDocument alt), ("cond", document cond), ("cons", document cons),
      variety (ifStmt cond cons alt)]
  | whileStmt cond body =>
    .object [("body", document body), ("cond", document cond), variety (whileStmt cond body)]
  | doWhileStmt cond body =>
    .object [("body", document body), ("cond", document cond), variety (doWhileStmt cond body)]
  | forStmt init cond step body =>
    .object [("body", document body), ("cond", optionalDocument cond),
      ("init", optionalDocument init), ("step", optionalDocument step),
      variety (forStmt init cond step body)]
  | funcDecl name params body =>
    .object [("body", document body), ("name", document name),
      ("params", optionalDocuments params), variety (funcDecl name params body)]
  | returnStmt arg => .object [("arg", optionalDocument arg), variety (returnStmt arg)]
  | classDecl id superclass body =>
    .object [("body", document body), ("id", document id),
      ("super", optionalDocument superclass), variety (classDecl id superclass body)]
  | binaryExpr op left right =>
    .object [("left", document left), ("op", .ofOperator op), ("right", document right),
      variety (binaryExpr op left right)]
  | logicalExpr op left right =>
    .object [("left", document left), ("op", .ofOperator op), ("right", document right),
      variety (logicalExpr op left right)]
  | unaryExpr op arg =>
    .object [("arg", document arg), ("op", .ofOperator op), variety (unaryExpr op arg)]
  | assignExpr op left right =>
    .object [("left", document left), ("op", .ofOperator op), ("right", document right),
      variety (assignExpr op left right)]
  | seqExpr body => .object [("body", .array (documents body)), variety (seqExpr body)]
  | thisExpr => .object [variety thisExpr]
  | newExpr callee args =>
    .object [("args", .array (documents args)), ("callee", document callee),
      variety (newExpr callee args)]
  | callExpr callee args =>
    .object [("args", .array (documents args)), ("callee", document callee),
      variety (callExpr callee args)]
  | memberExpr computed obj prop =>
    .object [("computed", .bool computed), ("obj", document obj), ("prop", document prop),
      variety (memberExpr computed obj prop)]
  | identifier name => .object [("name", .text name), variety (identifier name)]
  | superCall => .object [variety superCall]

def documents : List Node → List Document
  | [] => []
  | node :: nodes => document node :: documents nodes

def optionalDocument : Option Node → Document
  | none => .null
  | some node => document node

def optionalDocuments : Option (List Node) → Document
  | none => .null
  | some nodes => .array (documents nodes)

end

end Node

end Frontend
