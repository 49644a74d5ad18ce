import Frontend.Proofs.Tree.Literal
import Frontend.Token.Basic
import Frontend.Tree.Node

/-! # Marks

What a program is made of once its punctuation is gone: reserved words, names,
literals and operators. Tokens are such marks, and a tree is walked through in
the order in which its marks are written.
-/

namespace Frontend

/-- A reserved word, name, number, string or operator. -/
inductive Mark where
  | word (kind : TokenKind)
  | name (name : String)
  | number (value : Int)
  | text (value : List Char)
  | symbol (symbol : String)
  deriving DecidableEq

namespace TokenKind

/-- The kinds of operators, together with what stands in front of the value of a variable. -/
def operators : List TokenKind :=
  [equalityOp, simpleAssign, complexAssign, relationalOp, andOp, orOp, notOp, additiveOp,
    multiplicativeOp]

/-- What a token of a kind stands for. A number is told by its value, a string by what is between
its quotes. -/
def mark (kind : TokenKind) (value : String) : Mark :=
  if kind ∈ operators then .symbol value else
    match kind with
    | identifier => .name value
    | number => .number (decimal value.toList)
    | string => .text (value.toList.drop 1).dropLast
    | word => .word word

theorem mark_of_mem_operators {kind : TokenKind} (h : kind ∈ operators) (value : String) :
    kind.mark value = .symbol value := if_pos h

theorem mark_of_mem_keywords {kind : TokenKind} (h : kind ∈ keywords) (value : String) :
    kind.mark value = .word kind := by
  have ho : ∀ k ∈ keywords, k ∉ operators := by decide
  unfold mark
  rw [if_neg (ho kind h)]
  split
  case h_4 => rfl
  all_goals exact absurd h (by decide)

end TokenKind

namespace Token

def IsMarked (t : Token) : Prop := t.kind ≠ .eof ∧ t.kind ∉ TokenKind.punctuation

instance : DecidablePred IsMarked := fun _ => inferInstanceAs (Decidable (_ ∧ _))

/-- The marks among tokens, in order. -/
def marks (ts : List Token) : List Mark :=
  (ts.filter fun t => decide t.IsMarked).map fun t => t.kind.mark t.value

@[simp] theorem marks_nil : marks [] = [] := rfl

@[simp] theorem marks_append (ts us : List Token) : marks (ts ++ us) = marks ts ++ marks us := by
  simp [marks]

theorem marks_cons (t : Token) (ts : List Token) : marks (t :: ts) =
    if t.IsMarked then t.kind.mark t.value :: marks ts else marks ts := by
  by_cases h : t.IsMarked <;> simp [marks, h]

variable {t : Token} {kind : TokenKind}

theorem marks_punctuation (h : t.kind = kind) (hk : kind ∈ TokenKind.punctuation)
    (ts : List Token) : marks (t :: ts) = marks ts := by
  rw [marks_cons, if_neg fun hm => hm.2 (h ▸ hk)]

theorem marks_word (h : t.kind = kind) (hk : kind ∈ TokenKind.keywords) (ts : List Token) :
    marks (t :: ts) = .word kind :: marks ts := by
  have hm : ∀ k ∈ TokenKind.keywords, k ≠ .eof ∧ k ∉ TokenKind.punctuation := by decide
  have ht : t.IsMarked := hm _ (h ▸ hk)
  rw [marks_cons, if_pos ht, h, TokenKind.mark_of_mem_keywords hk]

theorem marks_symbol (hk : t.kind ∈ TokenKind.operators) (ts : List Token) :
    marks (t :: ts) = .symbol t.value :: marks ts := by
  have hm : ∀ k ∈ TokenKind.operators, k ≠ .eof ∧ k ∉ TokenKind.punctuation := by decide
  have ht : t.IsMarked := hm _ hk
  rw [marks_cons, if_pos ht, TokenKind.mark_of_mem_operators hk]

theorem marks_operand (h : t.kind = kind) (hk : kind ∈ [.identifier, .number, .string]) :
    marks [t] = [kind.mark t.value] := by
  have hm : ∀ k ∈ [TokenKind.identifier, .number, .string],
      k ≠ .eof ∧ k ∉ TokenKind.punctuation := by decide
  have ht : t.IsMarked := hm _ (h ▸ hk)
  rw [marks_cons, if_pos ht, h, marks_nil]

end Token

namespace Node

mutual

/-- The marks of a tree, as they stand in a program. -/
def marks : Node → List Mark
  | program body => marksOfList body
  | stringLit value => [.text value.toList]
  | numericLit value => [.number value]
  | boolLit value => [.word (if value then .trueWord else .falseWord)]
  | nullLit => [.word .nullWord]
  | exprStmt expr => marks expr
  | blockStmt body => marksOfList body
  | emptyStmt => []
  | varStmt decls => .word .letWord :: marksOfList decls
  | varDecl id init => marks id ++ marksBehind [.symbol "="] init
  | ifStmt cond cons alt =>
    .word .ifWord :: marks cond ++ marks cons ++ marksBehind [.word .elseWord] alt
  | whileStmt cond body => .word .whileWord :: marks cond ++ marks body
  | doWhileStmt cond body => .word .doWord :: marks body ++ .word .whileWord :: marks cond
  | forStmt init cond step body =>
    .word .forWord :: marksBehind [] init ++ marksBehind [] cond ++ marksBehind [] step ++
      marks body
  | funcDecl name params body =>
    .word .defWord :: marks name ++ marksOfLists params ++ marks body
  | returnStmt arg => .word .returnWord :: marksBehind [] arg
  | classDecl id superclass body =>
    .word .classWord :: marks id ++ marksBehind [.word .extendsWord] superclass ++ marks body
  | binaryExpr op left right => marks left ++ .symbol (Operator.symbol op) :: marks right
  | logicalExpr op left right => marks left ++ .symbol (Operator.symbol op) :: marks right
  | unaryExpr op arg => .symbol (Operator.symbol op) :: marks arg
  | assignExpr op left right => marks left ++ .symbol (Operator.symbol op) :: marks right
  | seqExpr body => marksOfList body
  | thisExpr => [.word .thisWord]
  | newExpr callee args => .word .newWord :: marks callee ++ marksOfList args
  | callExpr callee args => marks callee ++ marksOfList args
  | memberExpr _ obj prop => marks obj ++ marks prop
  | identifier name => [.name name]
  | superCall => [.word .superWord]

def marksOfList : List Node → List Mark
  | [] => []
  | node :: nodes => marks node ++ marksOfList nodes

def marksBehind (introduction : List Mark) : Option Node → List Mark
  | none => []
  | some node => introduction ++ marks node

def marksOfLists : Option (List Node) → List Mark
  | none => []
  | some nodes => marksOfList nodes

end

end Node

end Frontend
