/-! # Documents

Values of JSON without fractions, and their text on one line or indented. Both
texts come from one definition and differ in their white space alone.
-/

namespace Frontend

inductive Document where
  | null
  | bool (value : Bool)
  | int (value : Int)
  | text (value : String)
  | array (items : List Document)
  | object (fields : List (String × Document))
  deriving Inhabited

namespace Document

/-- A character as it stands between quotes. -/
def escapedChar (c : Char) : List Char :=
  if c = '"' || c = '\\' then ['\\', c]
  else if c = '\x08' then ['\\', 'b']
  else if c = '\x0c' then ['\\', 'f']
  else if c = '\n' then ['\\', 'n']
  else if c = '\r' then ['\\', 'r']
  else if c = '\t' then ['\\', 't']
  else if c < ' ' then
    ['\\', 'u', '0', '0', Nat.digitChar (c.toNat / 16), Nat.digitChar (c.toNat % 16)]
  else [c]

def quotedText (value : String) : List Char :=
  '"' :: value.toList.flatMap escapedChar ++ ['"']

def decimal : Int → List Char
  | .ofNat n => Nat.toDigits 10 n
  | .negSucc n => '-' :: Nat.toDigits 10 (n + 1)

/-- How the parts of a document are set apart. -/
inductive Layout where
  | oneLine
  | indented
  deriving DecidableEq, Repr

namespace Layout

/-- What stands before an item or a closing bracket at a depth of nesting. -/
def lineBreak : Layout → Nat → List Char
  | oneLine, _ => []
  | indented, depth => '\n' :: List.replicate (2 * depth) ' '

def colon : Layout → List Char
  | oneLine => [':']
  | indented => [':', ' ']

end Layout

mutual

/-- The text of a document at a depth of nesting, in front of what follows it. -/
def write (layout : Layout) (depth : Nat) : Document → List Char → List Char
  | null, tail => 'n' :: 'u' :: 'l' :: 'l' :: tail
  | bool true, tail => 't' :: 'r' :: 'u' :: 'e' :: tail
  | bool false, tail => 'f' :: 'a' :: 'l' :: 's' :: 'e' :: tail
  | int value, tail => decimal value ++ tail
  | text value, tail => quotedText value ++ tail
  | array [], tail => '[' :: ']' :: tail
  | array (item :: items), tail =>
    '[' :: (layout.lineBreak (depth + 1) ++ write layout (depth + 1) item
      (writeItems layout (depth + 1) items (layout.lineBreak depth ++ ']' :: tail)))
  | object [], tail => '\x7b' :: '\x7d' :: tail
  | object (field :: fields), tail =>
    '\x7b' :: (layout.lineBreak (depth + 1) ++ writeField layout (depth + 1) field
      (writeFields layout (depth + 1) fields (layout.lineBreak depth ++ '\x7d' :: tail)))

def writeItems (layout : Layout) (depth : Nat) : List Document → List Char → List Char
  | [], tail => tail
  | item :: items, tail =>
    ',' :: (layout.lineBreak depth ++ write layout depth item
      (writeItems layout depth items tail))

def writeField (layout : Layout) (depth : Nat) : String × Document → List Char → List Char
  | (key, value), tail =>
    quotedText key ++ (layout.colon ++ write layout depth value tail)

def writeFields (layout : Layout) (depth : Nat) :
    List (String × Document) → List Char → List Char
  | [], tail => tail
  | field :: fields, tail =>
    ',' :: (layout.lineBreak depth ++ writeField layout depth field
      (writeFields layout depth fields tail))

end

def compact (document : Document) : String :=
  String.ofList (document.write .oneLine 0 [])

/-- A document with every item on a line of its own, and a newline at the end. -/
def pretty (document : Document) : String :=
  String.ofList (document.write .indented 0 ['\n'])

end Document

end Frontend
