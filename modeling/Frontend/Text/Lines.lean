import Frontend.Text.Bytes

/-! # Lines

A line runs up to a newline and includes it. Every byte of a text lies in one
line, and the end of the text belongs to the last one.
-/

namespace Frontend.Text

/-- The lines of a text, each with the newline that ends it. -/
def lines : List Char → List (List Char)
  | [] => []
  | c :: cs =>
    if c = '\n' then [c] :: lines cs
    else
      match lines cs with
      | [] => [[c]]
      | line :: rest => (c :: line) :: rest

/-- A line without its newline, and without the carriage return before that. -/
def withoutEnding (line : List Char) : List Char :=
  match line.reverse with
  | '\n' :: '\r' :: front => front.reverse
  | '\n' :: front => front.reverse
  | _ => line

/-- A place in a text: a line, counted from one, and the bytes before the place in it. -/
structure Place where
  line : Nat
  text : List Char
  column : Nat
  deriving DecidableEq, Repr

def placeWithin (line : Nat) : List (List Char) → Nat → Option Place
  | [], _ => none
  | text :: rest, position =>
    if position < size text then some ⟨line, text, position⟩
    else placeWithin (line + 1) rest (position - size text)

/-- The end of a text: its last line without the ending, and the byte behind that. -/
def endPlace (cs : List Char) : Place :=
  let last := withoutEnding ((lines cs).getLast?.getD [])
  ⟨max 1 (lines cs).length, last, size last⟩

/-- Where a byte of a text lies. Its end has a place too, but nothing behind it. -/
def placeAt (cs : List Char) (position : Nat) : Option Place :=
  if size cs < position then none
  else some ((placeWithin 1 (lines cs) position).getD (endPlace cs))

end Frontend.Text
