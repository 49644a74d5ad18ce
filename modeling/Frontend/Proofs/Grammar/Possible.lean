import Frontend.Proofs.Grammar.Position
import Frontend.Proofs.Grammar.Tokenized
import Frontend.Proofs.Tree.Literal

/-! # Errors that cannot occur

The rules of the lexer and the tables of operators agree. What is spelled like an operator
is one wherever the grammar asks for it, but for `+`, which is no prefix. What is spelled
like a number is one unless it is too large. So some errors are raised by no text at all.
-/

namespace Frontend

open TokenStream Frontend.Parser

variable {t : Token} {ts : List Token} {cause : Cause}

namespace TokenKind

theorem Spells.mem_of_spellings_ne_nil {kind : TokenKind} {value : String}
    (h : kind.Spells value.toList) (hk : kind.spellings ≠ []) : value ∈ kind.spellings := by
  rw [← String.ofList_toList (s := value)]
  cases kind <;> first | exact h | exact absurd rfl hk

end TokenKind

/-- The rules spell no operators that the tables do not have, but for a prefix. -/
theorem OperatorFamily.Lacks.eq_plus {family : OperatorFamily} (h : family.Lacks t)
    (ht : t.kind.Spells t.value.toList) : family = .unary ∧ t.value = "+" := by
  have hall : ∀ k ∈ family.kinds, k.spellings ≠ [] ∧ ∀ symbol ∈ k.spellings,
      family.has symbol = false → family = .unary ∧ symbol = "+" := by
    cases family <;> decide
  obtain ⟨hspelled, hsymbol⟩ := hall _ h.1
  exact hsymbol _ (ht.mem_of_spellings_ne_nil hspelled) h.2

theorem lt_decimal_of_integer?_eq_none {value : String} (h : IsNumeral value.toList)
    (hv : Literal.integer? value = none) : 2 ^ 63 - 1 < decimal value.toList := by
  by_contra hle
  have hsome : Literal.integer? value = some (decimal value.toList : ℤ) :=
    (Literal.integer?_of_isNumeral h).mpr ⟨rfl, by omega⟩
  cases hv.symm.trans hsome

/-- What an error may say. -/
def Cause.IsPossible : Cause → Prop
  | unexpectedToken actual _ expected => actual ≠ expected ∧ actual ≠ .eof ∧ actual ≠ .skip
  | unexpectedEnd expected => expected ≠ .eof
  | unknownLiteral kind _ => kind.isLiteral = false ∧
      kind ∉ [.identifier, .openParen, .thisWord, .newWord] ∧ kind ≠ .skip
  | unknownOperator .unary symbol => symbol = "+"
  | unknownOperator .binary _ | unknownOperator .logical _ | unknownOperator .assign _ => False
  | invalidNumber value => value ≠ "" ∧ (∀ c ∈ value.toList, '0' ≤ c ∧ c ≤ '9') ∧
      2 ^ 63 - 1 < decimal value.toList
  | notAssignable _ | unmatchedText _ => True

/-- What is said of a token that is spelled as its kind is may be said. -/
theorem Cause.Blames.isPossible (hb : cause.Blames ts t) (hs : t.kind ≠ .skip)
    (ht : t.kind ≠ .eof → t.kind.Spells t.value.toList) : cause.IsPossible := by
  cases cause with
  | unmatchedText => exact hb.elim
  | notAssignable => trivial
  | unexpectedToken =>
    obtain ⟨heof, rfl, -, hne⟩ := hb
    exact ⟨hne, heof, hs⟩
  | unexpectedEnd => exact hb.2
  | unknownLiteral =>
    obtain ⟨rfl, -, hp⟩ := hb
    simp only [TokenKind.startsPrimary, Bool.or_eq_false_iff, beq_eq_false_iff_ne] at hp
    simp [Cause.IsPossible, hp, hs]
  | unknownOperator family symbol =>
    obtain ⟨rfl, hl⟩ := hb
    obtain ⟨rfl, hv⟩ := hl.eq_plus (ht hl.ne_eof)
    exact hv
  | invalidNumber =>
    obtain ⟨hk, rfl, hv⟩ := hb
    rw [hk] at ht
    have hn : IsNumeral t.value.toList := ht (by decide)
    refine ⟨?_, fun c hc => by simpa [isDigit] using hn.2 c hc,
      lt_decimal_of_integer?_eq_none hn hv⟩
    simpa using hn.1

theorem isLexical_or_blames_of_parse {text : String} {e : Error} (h : parse text = .error e) :
    e.cause.IsLexical ∨
      ∃ ts t rest, Gives (Lexer.ofText text) (ts ++ [t]) rest ∧ e.cause.Blames ts t := by
  rcases fails_or_blames_of_parseFrom (Prod.ext h rfl) with
    ⟨ts, left, -, hn⟩ | ⟨ts, t, rest, hg, -, hb⟩
  · exact .inl (Lexer.isLexical_of_next hn)
  · exact .inr ⟨ts, t, rest, hg, hb⟩

/-- No text is refused but for what an error may say. -/
theorem isPossible_of_parse {text : String} {e : Error} (h : parse text = .error e) :
    e.cause.IsPossible := by
  rcases isLexical_or_blames_of_parse h with hl | ⟨ts, t, rest, hg, hb⟩
  · generalize e.cause = cause at hl
    cases cause with
    | unmatchedText => trivial
    | _ => cases hl
  · have hmem : t ∈ ts ++ [t] := by simp
    refine hb.isPossible ?_ (Lexer.spells_of_gives hg t hmem)
    rcases (Lexer.standsIn_of_gives [] text.toList hg).1 t hmem with ⟨hk, -⟩ | ⟨-, -, hk, -⟩
    · exact hk ▸ nofun
    · exact hk

theorem isPossible_plus_and_large :
    parse "+1;" = .error ⟨.unknownOperator .unary "+", 0⟩ ∧
      (Cause.unknownOperator .unary "+").IsPossible ∧
    parse "9223372036854775808;" = .error ⟨.invalidNumber "9223372036854775808", 0⟩ ∧
      (Cause.invalidNumber "9223372036854775808").IsPossible := by
  have hplus : parse "+1;" = .error ⟨.unknownOperator .unary "+", 0⟩ := by decide +kernel
  have hlarge : parse "9223372036854775808;" =
    .error ⟨.invalidNumber "9223372036854775808", 0⟩ := by decide +kernel
  exact ⟨hplus, isPossible_of_parse hplus, hlarge, isPossible_of_parse hlarge⟩

end Frontend
