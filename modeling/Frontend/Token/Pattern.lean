/-! # Patterns

A matcher measures how much of the beginning of a text it accepts, and a
pattern says where in a text it occurs first. Matchers are built from a few
combinators, none of which ever goes back on what an earlier one accepted.
-/

namespace Frontend

/-- The number of characters accepted at the beginning of a text. -/
abbrev Matcher := List Char → Option Nat

namespace Matcher

def one (p : Char → Bool) : Matcher
  | [] => none
  | c :: _ => if p c then some 1 else none

def many (p : Char → Bool) : Matcher := fun cs => some (cs.takeWhile p).length

def literal (text : List Char) : Matcher := fun cs =>
  if text.isPrefixOf cs then some text.length else none

/-- Everything up to the first place where the given characters stand, and these. -/
def through (text : List Char) : Matcher
  | [] => literal text []
  | c :: cs =>
    if text.isPrefixOf (c :: cs) then some text.length
    else (through text cs).map (· + 1)

def andThen (first second : Matcher) : Matcher := fun cs =>
  match first cs with
  | none => none
  | some n => (second (cs.drop n)).map (n + ·)

def optional (m : Matcher) : Matcher := fun cs => some ((m cs).getD 0)

/-- Accepts nothing, provided that no character of the class comes next. -/
def notBefore (p : Char → Bool) : Matcher
  | [] => some 0
  | c :: _ => if p c then none else some 0

def many1 (p : Char → Bool) : Matcher := andThen (one p) (many p)

end Matcher

/-- Where a pattern occurs: the characters passed over before it, and those in it. -/
structure Occurrence where
  skipped : Nat
  length : Nat
  deriving DecidableEq, Repr

abbrev Pattern := List Char → Option Occurrence

namespace Pattern

/-- Occurs at the beginning of a text or nowhere. -/
def anchored (m : Matcher) : Pattern := fun cs => (m cs).map fun n => ⟨0, n⟩

def anywhere (m : Matcher) : Pattern
  | [] => anchored m []
  | c :: cs =>
    match m (c :: cs) with
    | some n => some ⟨0, n⟩
    | none => (anywhere m cs).map fun o => ⟨o.skipped + 1, o.length⟩

end Pattern

end Frontend
