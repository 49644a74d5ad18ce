import Frontend.Token.Kind
import Frontend.Token.Pattern

/-! # Lexical rules

A rule pairs a kind with a pattern. A table of rules is tried in order and the
first rule that matches wins, so comments stand before operators, keywords and
numbers before names, and long operators before their beginnings.
-/

namespace Frontend

structure Rule where
  kind : TokenKind
  pattern : Pattern

namespace Rule

/-- The number of characters a rule takes from the beginning of a text.
A pattern that occurs later, or accepts nothing, does not match. -/
def matchLength (rule : Rule) (cs : List Char) : Option Nat :=
  match rule.pattern cs with
  | some ⟨0, n + 1⟩ => some (n + 1)
  | _ => none

theorem matchLength_pos {rule : Rule} {cs : List Char} {n : Nat}
    (h : rule.matchLength cs = some n) : 0 < n := by
  unfold matchLength at h
  split at h
  · cases h; omega
  · cases h

/-- The first rule of a table that matches, as the kind and the number of characters. -/
def firstMatch (rules : List Rule) (cs : List Char) : Option (TokenKind × Nat) :=
  rules.findSome? fun rule => (rule.matchLength cs).map (rule.kind, ·)

theorem firstMatch_pos {rules : List Rule} {cs : List Char} {kind : TokenKind} {n : Nat}
    (h : firstMatch rules cs = some (kind, n)) : 0 < n := by
  obtain ⟨rule, _, h⟩ := List.exists_of_findSome?_eq_some h
  obtain ⟨m, hm, he⟩ := Option.map_eq_some_iff.mp h
  cases he
  exact matchLength_pos hm

end Rule

/-- The five characters of layout outside comments. -/
def isBlank (c : Char) : Bool :=
  c == '\t' || c == '\n' || c == '\x0c' || c == '\r' || c == ' '

def isDigit (c : Char) : Bool := '0' ≤ c && c ≤ '9'

/-- Letters, digits and the underscore of ASCII. -/
def isWordChar (c : Char) : Bool :=
  ('A' ≤ c && c ≤ 'Z') || ('a' ≤ c && c ≤ 'z') || isDigit c || c == '_'

namespace Rule

open Matcher

def anchored (kind : TokenKind) (m : Matcher) : Rule := ⟨kind, .anchored m⟩

def oneOf (choices : List Char) : Matcher := one fun c => choices.contains c

def exactly (kind : TokenKind) (text : String) : Rule := anchored kind (literal text.toList)

/-- A reserved word, which no further word character follows. -/
def keyword (kind : TokenKind) : Rule :=
  anchored kind (andThen (literal kind.name.toList) (notBefore isWordChar))

/-- Everything between two of the same quotes, with these. -/
def quoted (quote : Char) : Rule :=
  anchored .string (andThen (literal [quote]) (through [quote]))

def layout : List Rule :=
  [anchored .skip (many1 isBlank),
    anchored .skip (andThen (literal ['/', '/']) (many (· != '\n'))),
    anchored .skip (andThen (literal ['/', '*']) (through ['*', '/']))]

def operands : List Rule :=
  [anchored .number (many1 isDigit), quoted '"', quoted '\'',
    anchored .identifier (many1 isWordChar)]

def operators : List Rule :=
  [anchored .equalityOp (andThen (oneOf ['=', '!']) (literal ['='])),
    exactly .simpleAssign "=",
    anchored .complexAssign (andThen (oneOf ['+', '-', '*', '/']) (literal ['='])),
    exactly .notOp "!",
    exactly .andOp "&&",
    exactly .orOp "||",
    anchored .relationalOp (andThen (oneOf ['<', '>']) (optional (literal ['=']))),
    anchored .additiveOp (oneOf ['+', '-']),
    anchored .multiplicativeOp (oneOf ['*', '/'])]

/-- The table of the language. -/
def table : List Rule :=
  layout ++ TokenKind.punctuation.map (fun kind => exactly kind kind.name)
    ++ TokenKind.keywords.map keyword ++ operands ++ operators

end Rule

end Frontend
