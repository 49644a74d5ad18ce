import Frontend.Proofs.Token.Giving
import Frontend.Proofs.Token.Reading

/-! # Texts further on

A lexer does not look at its position. Moved on by a number of bytes, it gives the
same tokens and fails with the same error, all of them so many bytes further on.
-/

namespace Frontend

open TokenStream

def Token.shift (n : ℕ) (t : Token) : Token :=
  { t with span := ⟨n + t.span.start, n + t.span.stop⟩ }

def Error.shift (n : ℕ) (e : Error) : Error := { e with position := n + e.position }

namespace Lexer

/-- The lexer in front of the same text, so many bytes further on. -/
def shift (n : ℕ) (lexer : Lexer) : Lexer := { lexer with position := n + lexer.position }

variable {n : ℕ} {lexer after : Lexer} {t : Token} {ts : List Token} {e : Error}

theorem shift_facing (rules : List Rule) (position : ℕ) (s : List Char) :
    (facing rules position s).shift n = facing rules (n + position) s := rfl

theorem shift_drop (k : ℕ) : (lexer.drop k).shift n = (lexer.shift n).drop k := by
  simp [shift, drop, Nat.add_assoc]

theorem shift_lexeme (kind : TokenKind) (k : ℕ) :
    (lexer.lexeme kind k).shift n = (lexer.shift n).lexeme kind k := by
  simp [shift, lexeme, Token.shift, Nat.add_assoc]

def shiftNext (n : ℕ) : Except Error Token × Lexer → Except Error Token × Lexer
  | (.ok t, after) => (.ok (t.shift n), after.shift n)
  | (.error e, after) => (.error (e.shift n), after.shift n)

theorem next_shift (n : ℕ) (lexer : Lexer) : (lexer.shift n).next = shiftNext n lexer.next := by
  fun_induction next lexer with
  | case1 lexer hr =>
    have hr' : (lexer.shift n).rest = [] := hr
    rw [next, if_pos hr']
    rfl
  | case2 lexer hr hm => exact next_of_firstMatch_eq_none hr hm
  | case3 lexer hr k hm ih =>
    have hn : (lexer.shift n).next = _ := next_of_firstMatch hr hm
    rw [hn, if_pos rfl, ← shift_drop, ih]
  | case4 lexer hr kind k hm hk =>
    have hn : (lexer.shift n).next = _ := next_of_firstMatch hr hm
    rw [hn, if_neg hk, ← shift_drop, ← shift_lexeme]
    rfl

theorem gives_shift (n : ℕ) (h : Gives lexer ts after) :
    Gives (lexer.shift n) (ts.map (Token.shift n)) (after.shift n) := by
  induction ts generalizing lexer with
  | nil => exact congrArg (shift n) h
  | cons t ts ih =>
    obtain ⟨left, hn, h⟩ := h
    have hn' : (lexer.shift n).next = _ := next_shift n lexer
    rw [show lexer.next = _ from hn] at hn'
    exact ⟨left.shift n, hn', ih h⟩

end Lexer

end Frontend
