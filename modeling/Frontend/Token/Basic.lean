import Frontend.Token.Kind

/-! # Tokens

A token is a kind, the text it was read from, and the bytes that text spans.
-/

namespace Frontend

/-- A half-open range of bytes. -/
structure Span where
  start : Nat
  stop : Nat
  deriving DecidableEq, Repr, Inhabited

structure Token where
  kind : TokenKind
  value : String
  span : Span
  deriving DecidableEq, Repr, Inhabited

namespace Token

def eof (position : Nat) : Token := ⟨.eof, "", ⟨position, position⟩⟩

/-- A token as shown in logs: its kind, with the value in parentheses unless it is empty. -/
def display (token : Token) : String :=
  if token.value.isEmpty then token.kind.name
  else token.kind.name ++ "(" ++ token.value ++ ")"

end Token

end Frontend
