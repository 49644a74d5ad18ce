/-! # Token kinds

The kinds of token of the language, with the names they are shown by.
Punctuation and keywords are shown as they are spelled.
-/

namespace Frontend

inductive TokenKind where
  | eof
  /-- Layout, which never reaches the parser. -/
  | skip
  | semicolon | openCurly | closeCurly | openParen | closeParen
  | comma | dot | openBracket | closeBracket
  | letWord | defWord | returnWord | ifWord | whileWord | doWord | classWord | thisWord
  | extendsWord | superWord | newWord | forWord | elseWord | trueWord | falseWord | nullWord
  | number | string | identifier
  /-- `==` and `!=`. -/
  | equalityOp
  /-- `=`. -/
  | simpleAssign
  /-- `+=`, `-=`, `*=` and `/=`. -/
  | complexAssign
  /-- `>`, `<`, `>=` and `<=`. -/
  | relationalOp
  | andOp | orOp | notOp
  /-- `+` and `-`. -/
  | additiveOp
  /-- `*` and `/`. -/
  | multiplicativeOp
  deriving DecidableEq, Repr, Inhabited

namespace TokenKind

def name : TokenKind → String
  | eof => "EOF"
  | skip => "Skip"
  | semicolon => ";"
  | openCurly => "\x7b"
  | closeCurly => "\x7d"
  | openParen => "("
  | closeParen => ")"
  | comma => ","
  | dot => "."
  | openBracket => "["
  | closeBracket => "]"
  | letWord => "let"
  | defWord => "def"
  | returnWord => "return"
  | ifWord => "if"
  | whileWord => "while"
  | doWord => "do"
  | classWord => "class"
  | thisWord => "this"
  | extendsWord => "extends"
  | superWord => "super"
  | newWord => "new"
  | forWord => "for"
  | elseWord => "else"
  | trueWord => "true"
  | falseWord => "false"
  | nullWord => "null"
  | number => "Number"
  | string => "String"
  | identifier => "Identifier"
  | equalityOp => "EqualityOp"
  | simpleAssign => "="
  | complexAssign => "ComplexAssign"
  | relationalOp => "RelationalOp"
  | andOp => "AndLogicalOp"
  | orOp => "OrLogicalOp"
  | notOp => "NotLogicalOp"
  | additiveOp => "AdditiveOp"
  | multiplicativeOp => "MultiplicativeOp"

/-- The kinds spelled by one reserved word each. -/
def keywords : List TokenKind :=
  [letWord, defWord, returnWord, ifWord, whileWord, doWord, classWord, thisWord,
    extendsWord, superWord, newWord, forWord, elseWord, trueWord, falseWord, nullWord]

/-- The kinds spelled by one punctuation character each. -/
def punctuation : List TokenKind :=
  [semicolon, openCurly, closeCurly, openParen, closeParen, comma, dot, openBracket,
    closeBracket]

def isLiteral : TokenKind → Bool
  | number | string | trueWord | falseWord | nullWord => true
  | _ => false

def isAssignOp : TokenKind → Bool
  | simpleAssign | complexAssign => true
  | _ => false

/-- Kinds that may open a prefix expression. `+` is among them, and refused by its symbol. -/
def isUnaryOp : TokenKind → Bool
  | additiveOp | notOp => true
  | _ => false

end TokenKind

end Frontend
