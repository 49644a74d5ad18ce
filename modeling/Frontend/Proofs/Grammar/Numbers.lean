import Frontend.Proofs.Grammar.Statements
import Frontend.Proofs.Token.Words
import Frontend.Proofs.Tree.Literal

/-! # Numbers

A number token has the value that its digits denote, however many zeros they begin with, as long
as this is an integer of 64 bits. Otherwise it is reported where it starts, after it has been
consumed.
-/

namespace Frontend

open ParserState Text TokenStream Frontend.Parser

variable {σ : Type} {k : TokenKind} {ts : List Token} {t : Token}

namespace Literal

/-- The integers of 64 bits that a text denotes. -/
def Holds (value : String) (n : ℤ) : Prop :=
  Denotes value.toList n ∧ -2 ^ 63 ≤ n ∧ n ≤ 2 ^ 63 - 1

theorem integer?_eq_none_iff {value : String} : integer? value = none ↔ ∀ n, ¬ Holds value n := by
  simp only [Option.eq_none_iff_forall_not_mem, Option.mem_def, integer?_eq_some_iff, Holds]

end Literal

namespace Parser

theorem numberOf_of_holds {n : ℤ} (h : Literal.Holds t.value n) :
    (numberOf t : Parser σ Node) = pure (.numericLit n) := by
  rw [numberOf, Literal.integer?_eq_some_iff.mpr h]

theorem numberOf_of_not_holds (h : ∀ n, ¬ Literal.Holds t.value n) :
    (numberOf t : Parser σ Node) = fail (.invalidNumber t.value) t.span.start := by
  rw [numberOf, Literal.integer?_eq_none_iff.mpr h]

end Parser

variable [TokenSource σ]

theorem Production.parser_literal (s : ParserState σ) :
    Production.literal.parser s = Parser.literal s := by
  obtain ⟨n, hn⟩ : ∃ n, levels * (s.remaining + 1) = n + 1 := ⟨_, rfl⟩
  rw [parser, hn, within]
  rfl

theorem Parser.literal_eq {s : ParserState σ} {next : Token} {source : σ}
    (hk : s.lookahead.kind = .number) (hn : TokenStream.next s.source = (.ok next, source)) :
    Production.literal.parser s = numberOf s.lookahead { s with source, lookahead := next } := by
  rw [Production.parser_literal, Parser.literal, kind_bind_apply, hk]
  exact bind_ok _ ((consume_of_eq hk).trans (advance_ok hn))

namespace Parser.Leads

variable {α β : Type} {p : Parser σ α} {cause : Cause} {position : ℕ}

theorem bind_fail (f : α → Parser σ β) (h : Leads p ts k (fail cause position)) :
    Leads (p >>= f) ts k (fail cause position) := by
  intro s s₁ hs hc hk
  exact bind_error f (h s s₁ hs hc hk)

theorem statement_of_literal (ht : t.kind = .number)
    (h : Leads (Production.literal.parser : Parser σ Node) (t :: ts) k (fail cause position)) :
    Leads (Production.statement.parser : Parser σ Node) (t :: ts) k (fail cause position) := by
  have hmember : Leads (Production.member.parser : Parser σ Node) (t :: ts) k
      (fail cause position) := by
    refine .parser (.bind_fail _ (.parser (.peek ?_)))
    rwa [entry_cons, ht]
  have hprefixed : Leads (Production.prefixed.parser : Parser σ Node) (t :: ts) k
      (fail cause position) := by
    refine .parser (.peek ?_)
    rw [entry_cons, ht]
    refine .parser (.peek ?_)
    rw [entry_cons, ht]
    exact .peek (.bind_fail _ hmember)
  have hdisjunction : Leads (Production.disjunction.parser : Parser σ Node) (t :: ts) k
      (fail cause position) :=
    .parser (.bind_fail _ (.parser (.bind_fail _ (.parser (.bind_fail _ (.parser (.bind_fail _
      (.parser (.bind_fail _ (.parser (.bind_fail _ hprefixed)))))))))))
  have hsequence : Leads (Production.sequence.parser : Parser σ Node) (t :: ts) k
      (fail cause position) :=
    .parser (.bind_fail _ (.bind_fail _ (.parser (.bind_fail _ hdisjunction))))
  refine .parser (.dispatch ?_)
  rw [entry_cons, ht]
  exact .parser (.bind_fail _ hsequence)

end Parser.Leads

def numberToken (digits : String) : Token := ⟨.number, digits, ⟨0, digits.utf8ByteSize⟩⟩

theorem Lexer.gives_number {digits : String} (h : IsNumeral digits.toList) :
    ∃ semicolon e rest, semicolon.kind = .semicolon ∧ e.kind = .eof ∧
      Gives (ofText (digits ++ ";")) [numberToken digits, semicolon, e] rest := by
  have htext : (digits ++ ";").toList = digits.toList ++ [';'] := String.toList_append
  have hnumber : (ofText (digits ++ ";")).next =
      (.ok (numberToken digits), facing Rule.table digits.utf8ByteSize [';']) := by
    have hn := next_digits (s := [';']) 0 h.1 h.2 (by decide)
    rwa [String.ofList_toList, size_toList, Nat.zero_add, ← htext] at hn
  have hspells : TokenKind.Spells .semicolon [';'] := TokenKind.spells_of_mem (by decide)
  have hsemicolon : Rule.firstMatch Rule.table ([';'] ++ []) = some (.semicolon, 1) :=
    Rule.firstMatch_of_spells hspells
  exact ⟨_, _, _, rfl, rfl, _, hnumber, _, next_lexeme hsemicolon nofun, _,
    next_facing_nil _ _, rfl⟩

variable {digits : String}

theorem parse_number (h : IsNumeral digits.toList) (hle : decimal digits.toList ≤ 2 ^ 63 - 1) :
    parse (digits ++ ";") =
      .ok (.program [.exprStmt (.numericLit (decimal digits.toList))]) := by
  obtain ⟨semicolon, e, rest, hs, he, hg⟩ := Lexer.gives_number h
  have hvalue : Literal.integer? digits = some (decimal digits.toList : ℤ) :=
    (Literal.integer?_of_isNumeral h).mpr ⟨rfl, by omega⟩
  have hnumber : Production.primary.Derives [numberToken digits]
      (.numericLit (decimal digits.toList)) :=
    .alternative (q := .literal) (by decide) (.number rfl hvalue)
  have hstatement : Production.statement.Derives [numberToken digits, semicolon]
      (.exprStmt (.numericLit (decimal digits.toList))) :=
    .alternative (q := .expressionStatement) (by decide)
      (.expressionStatement hnumber.sequence_of_primary hs)
  exact parseTokens_eq_ok hg (by simp [numberToken, hs]) he
    (derivesProgram_singleton_iff.mpr hstatement)

theorem parse_large_number (h : IsNumeral digits.toList)
    (hlt : 2 ^ 63 - 1 < decimal digits.toList) :
    parse (digits ++ ";") = .error ⟨.invalidNumber digits, 0⟩ := by
  obtain ⟨semicolon, e, rest, hs, -, hg⟩ := Lexer.gives_number h
  have hnot : ∀ n, ¬ Literal.Holds digits n := by
    intro n hn
    have := (Literal.integer?_of_isNumeral h).mp (Literal.integer?_eq_some_iff.mpr hn)
    omega
  have hliteral : Leads (Production.literal.parser : Parser Lexer Node) [numberToken digits]
      .semicolon (fail (.invalidNumber digits) 0) := by
    rintro s s₁ - ⟨ht, -, next, source, hn, rfl⟩ -
    rw [literal_eq (by rw [ht]; rfl) hn, ht, numberOf_of_not_holds hnot]
    rfl
  have hprogram : Leads (program : Parser Lexer Node) [numberToken digits] .semicolon
      (fail (.invalidNumber digits) 0) := .bind_fail _ (.statement_of_literal rfl hliteral)
  obtain ⟨left, hn', left', hn'', -⟩ := hg
  have hg : Gives (Lexer.ofText (digits ++ ";")) ([numberToken digits] ++ [semicolon]) left' :=
    ⟨left, hn', left', hn'', rfl⟩
  obtain ⟨t, rest, hn, hc⟩ := gives_concat_iff.mpr ⟨by simp [numberToken], hg⟩
  rw [parse, parseTokens, parseFrom_of_ok hn, hprogram _ _ (isStandard_facing t rest) hc hs]
  rfl

/-- The literal in front of a number token is the integer that its text denotes, if this is one of
64 bits, and otherwise the token is reported where it starts. So it is for a text of digits with a
semicolon behind them. -/
theorem literal_eq_numericLit_or_invalidNumber :
    (∀ {σ : Type} [TokenSource σ] (s : ParserState σ) (next : Token) (source : σ),
      s.lookahead.kind = .number → TokenStream.next s.source = (.ok next, source) →
      (∀ n, Literal.Holds s.lookahead.value n → Production.literal.parser s =
        .ok (.numericLit n) { s with source, lookahead := next }) ∧
      ((∀ n, ¬ Literal.Holds s.lookahead.value n) → Production.literal.parser s =
        .error (.error ⟨.invalidNumber s.lookahead.value, s.lookahead.span.start⟩)
          { s with source, lookahead := next })) ∧
    ∀ digits : String, IsNumeral digits.toList → parse (digits ++ ";") =
      if decimal digits.toList ≤ 2 ^ 63 - 1 then
        .ok (.program [.exprStmt (.numericLit (decimal digits.toList))])
      else .error ⟨.invalidNumber digits, 0⟩ := by
  constructor
  · intro σ _ s next source hk hn
    rw [literal_eq hk hn]
    constructor
    · intro n h
      rw [numberOf_of_holds h]
      rfl
    · intro h
      rw [numberOf_of_not_holds h]
      rfl
  · intro digits h
    split
    · exact parse_number h ‹_›
    · exact parse_large_number h (by omega)

theorem literal_eq_numericLit_or_invalidNumber_limits :
    let number (value : String) : Token := ⟨.number, value, ⟨3, 25⟩⟩
    let next : Token := ⟨.semicolon, ";", ⟨25, 26⟩⟩
    Production.literal.parser
        (facing (number "-09223372036854775808") (TokenList.ofTokens [next])) =
      .ok (.numericLit (-2 ^ 63)) (facing next (TokenList.ofTokens [])) ∧
    Production.literal.parser
        (facing (number "+09223372036854775808") (TokenList.ofTokens [next])) =
      .error (.error ⟨.invalidNumber "+09223372036854775808", 3⟩)
        (facing next (TokenList.ofTokens [])) ∧
    parse "0009223372036854775807;" = .ok (.program [.exprStmt (.numericLit (2 ^ 63 - 1))]) ∧
    parse "0009223372036854775808;" = .error ⟨.invalidNumber "0009223372036854775808", 0⟩ := by
  intro number next
  have hstate (value : String) := literal_eq_numericLit_or_invalidNumber.1
    (facing (number value) (TokenList.ofTokens [next])) next (TokenList.ofTokens []) rfl rfl
  have hnumeral (d : String) (h : d.toList ≠ [] ∧ d.toList.all isDigit = true) :=
    literal_eq_numericLit_or_invalidNumber.2 d ⟨h.1, List.all_eq_true.mp h.2⟩
  refine ⟨(hstate _).1 _ (Literal.integer?_eq_some_iff.mp ?_),
    (hstate _).2 (Literal.integer?_eq_none_iff.mp ?_), ?_, ?_⟩
  · decide +kernel
  · decide +kernel
  · exact hnumeral "0009223372036854775807" (by decide +kernel)
  · exact hnumeral "0009223372036854775808" (by decide +kernel)

end Frontend
