/-! # Operators

Four families of operators, each with one symbol per operator. Within a family
symbols are distinct, so an operator can be looked up by its symbol.
-/

namespace Frontend

inductive OperatorFamily where
  | binary | assign | logical | unary
  deriving DecidableEq, Repr

def OperatorFamily.word : OperatorFamily → String
  | binary => "binary"
  | assign => "assign"
  | logical => "logical"
  | unary => "unary"

/-- A family of operators with their symbols. -/
class Operator (α : Type) where
  family : OperatorFamily
  /-- Every operator of the family, once. -/
  all : List α
  symbol : α → String

def Operator.ofSymbol? {α : Type} [Operator α] (symbol : String) : Option α :=
  (Operator.all : List α).find? fun op => Operator.symbol op == symbol

inductive BinaryOp where
  | add | sub | mul | div | gt | lt | gte | lte | eq | neq
  deriving DecidableEq, Repr

inductive AssignOp where
  | simple | add | sub | mul | div
  deriving DecidableEq, Repr

inductive LogicalOp where
  | and | or
  deriving DecidableEq, Repr

inductive UnaryOp where
  | not | neg
  deriving DecidableEq, Repr

def BinaryOp.symbol : BinaryOp → String
  | add => "+"
  | sub => "-"
  | mul => "*"
  | div => "/"
  | gt => ">"
  | lt => "<"
  | gte => ">="
  | lte => "<="
  | eq => "=="
  | neq => "!="

def AssignOp.symbol : AssignOp → String
  | simple => "="
  | add => "+="
  | sub => "-="
  | mul => "*="
  | div => "/="

def LogicalOp.symbol : LogicalOp → String
  | and => "&&"
  | or => "||"

def UnaryOp.symbol : UnaryOp → String
  | not => "!"
  | neg => "-"

instance : Operator BinaryOp where
  family := .binary
  all := [.add, .sub, .mul, .div, .gt, .lt, .gte, .lte, .eq, .neq]
  symbol := BinaryOp.symbol

instance : Operator AssignOp where
  family := .assign
  all := [.simple, .add, .sub, .mul, .div]
  symbol := AssignOp.symbol

instance : Operator LogicalOp where
  family := .logical
  all := [.and, .or]
  symbol := LogicalOp.symbol

instance : Operator UnaryOp where
  family := .unary
  all := [.not, .neg]
  symbol := UnaryOp.symbol

end Frontend
