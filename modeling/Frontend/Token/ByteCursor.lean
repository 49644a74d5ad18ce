import Frontend.Token.Lexer

/-! # Lexers moved by bytes

A cursor that is moved by a number of bytes may stop inside a character or leave
the text. There it has no text to read, though it can still be moved on.
-/

namespace Frontend

inductive ByteCursor where
  | aligned (lexer : Lexer)
  /-- Inside a character, so many bytes before the lexer that stands behind it. -/
  | inside (missing : Nat) (after : Lexer)
  /-- Past the end of the text. -/
  | beyond (position : Nat)

namespace ByteCursor

def position : ByteCursor → Nat
  | aligned lexer => lexer.position
  | inside missing after => after.position - missing
  | beyond position => position

def atEnd : ByteCursor → Bool
  | aligned lexer => lexer.rest.isEmpty
  | inside .. => false
  | beyond _ => true

/-- The text from the cursor on, unless that begins inside a character or past the end. -/
def remainder? : ByteCursor → Option String
  | aligned lexer => some (String.ofList lexer.rest)
  | _ => none

/-- Where a number of bytes leads from a position in front of a text. -/
def moved (rules : List Rule) (position : Nat) : List Char → Nat → ByteCursor
  | rest, 0 => aligned (.facing rules position rest)
  | [], n + 1 => beyond (position + (n + 1))
  | c :: cs, n + 1 =>
    if c.utf8Size ≤ n + 1 then moved rules (position + c.utf8Size) cs (n + 1 - c.utf8Size)
    else inside (c.utf8Size - (n + 1)) (.facing rules (position + c.utf8Size) cs)

def advance : ByteCursor → Nat → ByteCursor
  | aligned lexer, n => moved lexer.rules lexer.position lexer.rest n
  | inside missing after, n =>
    if n < missing then inside (missing - n) after
    else moved after.rules after.position after.rest (n - missing)
  | beyond position, n => beyond (position + n)

/-- The next token or error. Past the end it is the end of input, and inside a
character there is none. -/
def next? : ByteCursor → Option (Except Error Token × ByteCursor)
  | aligned lexer =>
    let (result, after) := lexer.next
    some (result, aligned after)
  | inside .. => none
  | beyond position => some (.ok (Token.eof position), beyond position)

end ByteCursor

end Frontend
