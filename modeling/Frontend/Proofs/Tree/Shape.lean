import Frontend.Proofs.Grammar.Derivation
import Frontend.Proofs.Token.Spelling
import Mathlib.Algebra.Group.Int.Defs

/-! # The shape of trees

A node of any sort could stand anywhere in a tree. In the tree of a program,
statements and expressions stand where they belong, and what is made of a list
has as many parts as it has to have.
-/

namespace Frontend.Node

/-- What the names, numbers and strings of a tree are like. -/
structure Leaves where
  name : String → Prop
  number : Int → Prop
  text : String → Prop

namespace Leaves

def any : Leaves := ⟨fun _ => True, fun _ => True, fun _ => True⟩

/-- Leaves that can be written: names that are not reserved, numbers without a sign that a signed
word of 64 bits holds, strings without one of the quotes. -/
def written : Leaves where
  name name := IsName name.toList
  number n := 0 ≤ n ∧ n < 2 ^ 63
  text value := '"' ∉ value.toList ∨ '\'' ∉ value.toList

end Leaves

/-- The places of a tree. -/
inductive Slot where
  | statement | block
  /-- Declared variables, with a semicolon or in front of a loop. -/
  | variables
  | declaration | expression | name
  deriving DecidableEq

/-- The nodes that may stand in a place. -/
inductive Fits (L : Leaves) : Slot → Node → Prop where

  | statement_of_block {node : Node} : Fits L .block node → Fits L .statement node

  | statement_of_variables {node : Node} : Fits L .variables node → Fits L .statement node

  | expression_of_name {node : Node} : Fits L .name node → Fits L .expression node

  | identifier {name : String} : L.name name → Fits L .name (.identifier name)

  | numericLit {n : Int} : L.number n → Fits L .expression (.numericLit n)

  | stringLit {value : String} : L.text value → Fits L .expression (.stringLit value)

  | boolLit (value : Bool) : Fits L .expression (.boolLit value)

  | nullLit : Fits L .expression .nullLit

  | thisExpr : Fits L .expression .thisExpr

  | binaryExpr {op : BinaryOp} {left right : Node} : Fits L .expression left →
      Fits L .expression right → Fits L .expression (.binaryExpr op left right)

  | logicalExpr {op : LogicalOp} {left right : Node} : Fits L .expression left →
      Fits L .expression right → Fits L .expression (.logicalExpr op left right)

  | unaryExpr {op : UnaryOp} {arg : Node} : Fits L .expression arg →
      Fits L .expression (.unaryExpr op arg)

  | assignExpr {op : AssignOp} {left right : Node} : Fits L .expression left →
      left.isAssignable = true → Fits L .expression right →
      Fits L .expression (.assignExpr op left right)

  | seqExpr {body : List Node} : 2 ≤ body.length → (∀ e ∈ body, Fits L .expression e) →
      Fits L .expression (.seqExpr body)

  | newExpr {callee : Node} {args : List Node} : Fits L .expression callee →
      (∀ arg ∈ args, Fits L .expression arg) → Fits L .expression (.newExpr callee args)

  | callExpr {callee : Node} {args : List Node} : Fits L .expression callee →
      (∀ arg ∈ args, Fits L .expression arg) → Fits L .expression (.callExpr callee args)

  | superCall {args : List Node} : (∀ arg ∈ args, Fits L .expression arg) →
      Fits L .expression (.callExpr .superCall args)

  | named {obj prop : Node} : Fits L .expression obj → Fits L .name prop →
      Fits L .expression (.memberExpr false obj prop)

  | computed {obj prop : Node} : Fits L .expression obj → Fits L .expression prop →
      Fits L .expression (.memberExpr true obj prop)

  | varDecl {id : Node} {init : Option Node} : Fits L .name id →
      (∀ e ∈ init, Fits L .expression e) → Fits L .declaration (.varDecl id init)

  | varStmt {decls : List Node} : decls ≠ [] → (∀ decl ∈ decls, Fits L .declaration decl) →
      Fits L .variables (.varStmt decls)

  | exprStmt {expr : Node} : Fits L .expression expr → Fits L .statement (.exprStmt expr)

  | blockStmt {body : List Node} : (∀ node ∈ body, Fits L .statement node) →
      Fits L .block (.blockStmt body)

  | emptyStmt : Fits L .statement .emptyStmt

  | ifStmt {cond cons : Node} {alt : Option Node} : Fits L .expression cond →
      Fits L .statement cons → (alt ≠ none → cons.endsOpen = false) →
      (∀ node ∈ alt, Fits L .statement node) → Fits L .statement (.ifStmt cond cons alt)

  | whileStmt {cond body : Node} : Fits L .expression cond → Fits L .statement body →
      Fits L .statement (.whileStmt cond body)

  | doWhileStmt {cond body : Node} : Fits L .expression cond → Fits L .statement body →
      Fits L .statement (.doWhileStmt cond body)

  | forStmt {start : Slot} {init cond step : Option Node} {body : Node} :
      start = .variables ∨ start = .expression → (∀ node ∈ init, Fits L start node) →
      (∀ e ∈ cond, Fits L .expression e) → (∀ e ∈ step, Fits L .expression e) →
      Fits L .statement body → Fits L .statement (.forStmt init cond step body)

  | funcDecl {name body : Node} {params : Option (List Node)} : Fits L .name name →
      params ≠ some [] → (∀ list ∈ params, ∀ param ∈ list, Fits L .name param) →
      Fits L .block body → Fits L .statement (.funcDecl name params body)

  | returnStmt {arg : Option Node} : (∀ e ∈ arg, Fits L .expression e) →
      Fits L .statement (.returnStmt arg)

  | classDecl {id body : Node} {superclass : Option Node} : Fits L .name id →
      (∀ node ∈ superclass, Fits L .name node) → Fits L .block body →
      Fits L .statement (.classDecl id superclass body)

/-- The tree of a program has one statement or more, and everything in it fits its place. -/
def IsProgram (L : Leaves) (tree : Node) : Prop :=
  ∃ body, tree = .program body ∧ body ≠ [] ∧ ∀ node ∈ body, Fits L .statement node

end Frontend.Node
