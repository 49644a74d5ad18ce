import Mathlib.Data.List.DropRight
import Frontend.Error.Report
import Frontend.Proofs.Grammar.Position
import Frontend.Proofs.Text.Places

/-! # The caret of a report

A report shows the line of an error without its indentation, and a caret below behind as many
dashes as there are bytes in front of the error. So the caret stands under the character at the
error where the text in front of it is ASCII, and where not all of the rest of the line counts as
white space, which is not shown.
-/

namespace Frontend

open Text TokenStream Frontend.Parser

variable {cs xs ys front left : List Char} {c : Char}

namespace Text

end Text

variable {text : List Char} {t : Token} {e : Error} {position : ℕ}

namespace Error

/-- A line and a caret behind some dashes, both behind margins of the same width. -/
def frame (line : ℕ) (shown : List Char) (dashes : ℕ) : List Char :=
  let number := (toString line).toList
  let margin := List.replicate (number.length + 1) ' ' ++ ['|']
  margin ++ ['\n'] ++ (number ++ [' ', '|', ' '] ++ shown) ++ ['\n'] ++
    (margin ++ [' '] ++ List.replicate dashes '-' ++ ['^']) ++ ['\n']

end Error

end Frontend
