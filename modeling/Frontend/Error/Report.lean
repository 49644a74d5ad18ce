import Frontend.Error.Message
import Frontend.Text.Lines

/-! # Error reports

A report names the error and the text it was found in, shows the line without
its indentation, and puts a caret under the place.
-/

namespace Frontend

namespace Text

/-- White space of any script. -/
def isSpace (c : Char) : Bool :=
  ('\t' ≤ c && c ≤ '\r') || c == ' ' || c == '\u0085' || c == '\u00a0' || c == '\u1680'
    || ('\u2000' ≤ c && c ≤ '\u200a') || c == '\u2028' || c == '\u2029' || c == '\u202f'
    || c == '\u205f' || c == '\u3000'

def indentation (line : List Char) : List Char := line.takeWhile fun c => c == ' ' || c == '\t'

def trimEnd (cs : List Char) : List Char := (cs.reverse.dropWhile isSpace).reverse

/-- A text moved to the right end of a field of a given width. -/
def padLeft (width : Nat) (fill : Char) (cs : List Char) : List Char :=
  List.replicate (width - cs.length) fill ++ cs

end Text

namespace Error

def summary (e : Error) : String := e.tip?.getD e.message

/-- The line of a place and the caret under it, behind a margin for the line's number. -/
def excerpt (place : Text.Place) : List Char :=
  let number := (toString place.line).toList
  let margin := Text.padLeft (number.length + 2) ' ' ['|']
  let indentation := Text.indentation place.text
  let shown := Text.trimEnd (place.text.drop indentation.length)
  let caret := Text.padLeft (place.column - Text.size indentation + 1) '-' ['^']
  margin ++ ['\n'] ++ number ++ [' ', '|', ' '] ++ shown ++ ['\n'] ++ margin ++ [' '] ++ caret
    ++ ['\n']

/-- What is shown of an error in a text of a given name. -/
def report (e : Error) (source name : String) : String :=
  let heading := "Error: " ++ e.name ++ " (" ++ e.summary ++ ")\n-> " ++ name ++ "\n"
  match Text.placeAt source.toList e.position with
  | none => heading
  | some place => heading ++ String.ofList (excerpt place)

end Error

end Frontend
