import Frontend.Text.Bytes
import Frontend.Token.Rule
import Frontend.Token.Source

/-! # The lexer

A lexer is a rule table, a position and the text from there on. Each call tries
the rules at the cursor, passes over layout, and gives the first token it finds.
The end of the text is a token of its own, given again and again.
-/

namespace Frontend

structure Lexer where
  rules : List Rule
  /-- The number of bytes before the cursor. -/
  position : Nat
  /-- The text from the cursor on. -/
  rest : List Char
  /-- The number of characters from the cursor on. -/
  ahead : Nat
  ahead_eq : ahead = rest.length

namespace Lexer

def facing (rules : List Rule) (position : Nat) (rest : List Char) : Lexer :=
  ⟨rules, position, rest, rest.length, rfl⟩

def ofText (text : String) (rules : List Rule := Rule.table) : Lexer :=
  facing rules 0 text.toList

/-- The number of characters of remaining text quoted by an error. -/
def quotedLength : Nat := 32

def drop (lexer : Lexer) (n : Nat) : Lexer :=
  { lexer with
    position := lexer.position + Text.size (lexer.rest.take n)
    rest := lexer.rest.drop n
    ahead := lexer.ahead - n
    ahead_eq := by rw [lexer.ahead_eq, List.length_drop] }

@[simp] theorem rest_drop (lexer : Lexer) (n : Nat) : (lexer.drop n).rest = lexer.rest.drop n := rfl

@[simp] theorem position_drop (lexer : Lexer) (n : Nat) :
    (lexer.drop n).position = lexer.position + Text.size (lexer.rest.take n) := rfl

def lexeme (lexer : Lexer) (kind : TokenKind) (n : Nat) : Token :=
  let text := lexer.rest.take n
  ⟨kind, String.ofList text, ⟨lexer.position, lexer.position + Text.size text⟩⟩

def stuck (lexer : Lexer) : Error :=
  ⟨.unmatchedText (String.ofList (lexer.rest.take quotedLength)), lexer.position⟩

/-- The next token, or the error, and the lexer behind it. An error leaves the
cursor at the text that no rule matches. -/
def next (lexer : Lexer) : Except Error Token × Lexer :=
  if lexer.rest = [] then (.ok (Token.eof lexer.position), lexer)
  else
    match _h : Rule.firstMatch lexer.rules lexer.rest with
    | none => (.error lexer.stuck, lexer)
    | some (kind, n) =>
      if kind = .skip then (lexer.drop n).next
      else (.ok (lexer.lexeme kind n), lexer.drop n)
termination_by lexer.rest.length
decreasing_by
  have := Rule.firstMatch_pos _h
  have := List.length_pos_iff.mpr ‹lexer.rest ≠ []›
  simp only [rest_drop, List.length_drop]
  omega

theorem length_next_le (lexer : Lexer) : lexer.next.2.rest.length ≤ lexer.rest.length := by
  fun_induction next lexer with
  | case1 => exact Nat.le_refl _
  | case2 => exact Nat.le_refl _
  | case3 lexer _ n _ ih =>
    simp only [rest_drop, List.length_drop] at ih
    omega
  | case4 lexer => simp only [rest_drop, List.length_drop]; omega

theorem length_of_next {lexer after : Lexer} {token : Token}
    (h : lexer.next = (.ok token, after)) (hk : token.kind ≠ .eof) :
    after.rest.length < lexer.rest.length := by
  fun_induction next lexer with
  | case1 => cases h; exact absurd rfl hk
  | case2 => cases h
  | case3 lexer _ n _ ih =>
    have := ih h
    simp only [rest_drop, List.length_drop] at this
    omega
  | case4 lexer hr kind n hm _ =>
    have := Rule.firstMatch_pos hm
    have := List.length_pos_iff.mpr hr
    cases h
    simp only [rest_drop, List.length_drop]
    omega

/-- The tokens up to the end of input, with it, and the error if one comes first. -/
def run (lexer : Lexer) : List Token × Option Error :=
  match _h : lexer.next with
  | (.error e, _) => ([], some e)
  | (.ok token, after) =>
    if _hk : token.kind = .eof then ([token], none)
    else
      let (tokens, failure) := after.run
      (token :: tokens, failure)
termination_by lexer.rest.length
decreasing_by exact length_of_next _h _hk

theorem run_eq (lexer : Lexer) : lexer.run =
    match lexer.next with
    | (.error e, _) => ([], some e)
    | (.ok token, after) =>
      if token.kind = .eof then ([token], none) else (token :: after.run.1, after.run.2) := by
  rw [run]
  split <;> simp_all

end Lexer

instance : TokenSource Lexer where
  next := Lexer.next
  remaining := Lexer.ahead
  remaining_next_le lexer := by
    rw [lexer.next.2.ahead_eq, lexer.ahead_eq]
    exact lexer.length_next_le
  remaining_lt_of_next {lexer token after} h hk := by
    rw [after.ahead_eq, lexer.ahead_eq]
    exact Lexer.length_of_next h hk

/-- The tokens of a text, the end of input last. -/
def tokenize (text : String) : Except Error (List Token) :=
  match (Lexer.ofText text).run with
  | (tokens, none) => .ok tokens
  | (_, some e) => .error e

end Frontend
