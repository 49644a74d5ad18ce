import Frontend.Proofs.Grammar.Cascade
import Frontend.Proofs.Grammar.Spans
import Frontend.Proofs.Grammar.Variation

/-! # Redundant parentheses

Parentheses leave no trace in a tree. An expression in any number of them is a primary expression
for the tree that it has without, whatever follows. So they may be put around every whole
expression of a program.
-/

namespace Frontend

open Frontend.Parser ParserState TokenStream

/-- An opening parenthesis and a closing one. -/
structure Parentheses where
  opening : Token
  closing : Token
  kind_opening : opening.kind = .openParen
  kind_closing : closing.kind = .closeParen

namespace Parentheses

/-- Tokens in pairs of parentheses, the outermost first. -/
def around : List Parentheses → List Token → List Token
  | [], ts => ts
  | pair :: pairs, ts => pair.opening :: around pairs ts ++ [pair.closing]

variable {ts : List Token} {tree : Node} {pairs : List Parentheses}

theorem primary_derives (pair : Parentheses) (h : Production.sequence.Derives ts tree) :
    Production.primary.Derives (pair.opening :: ts ++ [pair.closing]) tree :=
  .alternative (q := .grouping) (by decide) (.grouping pair.kind_opening h pair.kind_closing)

theorem derives_around (h : Production.sequence.Derives ts tree) (pairs : List Parentheses) :
    Production.sequence.Derives (around pairs ts) tree := by
  induction pairs with
  | nil => exact h
  | cons pair pairs ih => exact .sequence_of_primary (pair.primary_derives ih)

theorem primary_derives_around (h : Production.sequence.Derives ts tree) (hp : pairs ≠ []) :
    Production.primary.Derives (around pairs ts) tree := by
  obtain ⟨pair, pairs, rfl⟩ := List.exists_cons_of_ne_nil hp
  exact pair.primary_derives (derives_around h pairs)

variable {σ : Type} [TokenSource σ]

theorem parser_around (h : Production.sequence.Derives ts tree) (hp : pairs ≠ [])
    {s s₁ : ParserState σ} (hs : s.IsStandard) (hc : s.Consumes (around pairs ts) s₁) :
    Production.primary.parser s = .ok tree s₁ := by
  have hreach : Production.primary.reach < s₁.lookahead.kind.looseness := by
    cases s₁.lookahead.kind <;> decide
  have hfinds : Production.primary.Finds σ (around pairs ts) tree :=
    (primary_derives_around h hp).finds
  exact hfinds.leads (Nat.zero_le _) hreach s s₁ hs hc rfl

/-- Redundant parentheses never change a tree. Tokens that are taken for a whole expression, in
front of a semicolon for instance, are taken as a primary expression in one pair of parentheses or
more. Any number of them, maybe none, may stand around the expression wherever a program has it as
that of a statement, a `return`, a condition or an index: it is parsed to the same tree. -/
theorem around_keeps_tree {next : Token} (h : Production.sequence.Takes ts next tree) :
    (∀ pairs, pairs ≠ [] → ∀ s s₁ : ParserState σ, s.IsStandard →
      s.Consumes (around pairs ts) s₁ → Production.primary.parser s = .ok tree s₁) ∧
    ∀ (variants : List Parentheses → List Token) (program : Node),
      VariesProgram (around · ts) tree variants program →
        ∀ (pairs : List Parentheses) (us : List Token) (last : Token) (source rest : σ),
          Token.AllAlike (variants pairs) us → last.kind = .eof →
            Gives source (us ++ [last]) rest → parseTokens source = .ok program := by
  have hd := h.derives
  refine ⟨fun pairs hp s s₁ hs hc => parser_around hd hp hs hc, ?_⟩
  intro variants program hv pairs us last source rest ha hl hg
  have hprogram := hv.derives (derives_around hd) pairs
  exact parseTokens_of_allAlike hprogram ha hg (Token.AllAlike.ne_eof ha hprogram.endFree) hl

def twoNames : Segment :=
  ([⟨.identifier, "a", default⟩, ⟨.comma, ",", default⟩, ⟨.identifier, "b", default⟩],
    .seqExpr [.identifier "a", .identifier "b"])

def twoNamesAsIndex (pairs : List Parentheses) : List Token :=
  [⟨.identifier, "x", default⟩] ++ ⟨.openBracket, "[", default⟩ :: around pairs twoNames.1 ++
    [⟨.closeBracket, "]", default⟩] ++ [⟨.semicolon, ";", default⟩]

def twoNamesAsCondition (pairs : List Parentheses) : List Token :=
  ⟨.ifWord, "if", default⟩ :: (⟨.openParen, "(", default⟩ :: around pairs twoNames.1 ++
    [⟨.closeParen, ")", default⟩]) ++ twoNamesAsIndex pairs

theorem around_keeps_tree_twoNames :
    let pair : Parentheses := ⟨⟨.openParen, "(", default⟩, ⟨.closeParen, ")", default⟩, rfl, rfl⟩
    let inner := around [pair] twoNames.1 ++ [pair.closing, Token.eof 0]
    Production.primary.parser (facing pair.opening (TokenList.ofTokens inner)) =
      .ok twoNames.2 (facing (Token.eof 0) (TokenList.ofTokens [])) ∧
    parseTokens (TokenList.ofTokens (twoNamesAsCondition [pair, pair] ++ [Token.eof 0])) =
      .ok (.program [.ifStmt twoNames.2
        (.exprStmt (.memberExpr true (.identifier "x") twoNames.2)) none]) := by
  intro pair inner
  have hname (v : String) :
      Production.primary.Derives [⟨.identifier, v, default⟩] (.identifier v) :=
    .alternative (q := .identifier) (by decide) (.identifier (t := ⟨_, v, _⟩) rfl)
  have hnames : Production.sequence.Derives twoNames.1 twoNames.2 := by
    have hi : ∀ item ∈ ([([⟨.identifier, "a", default⟩], .identifier "a"),
        ([⟨.identifier, "b", default⟩], .identifier "b")] : List Segment),
        Production.assignment.Derives item.1 item.2 := by
      simpa using ⟨(hname "a").of_primary _ (by decide), (hname "b").of_primary _ (by decide)⟩
    exact .sequence hi (.cons _ rfl (.single _))
  have htakes : Production.sequence.Takes twoNames.1 ⟨.semicolon, ";", default⟩ twoNames.2 :=
    hnames.takes_of_leads (hnames.finds .semicolon (Nat.le_refl 12))
  have hindex : Production.statement.Varies (around · twoNames.1) twoNames.2 twoNamesAsIndex
      (.exprStmt (.memberExpr true (.identifier "x") twoNames.2)) := by
    refine .alternative (q := .expressionStatement) (by decide) (.expressionStatement ?_ rfl)
    refine .sequence_of_level (p := .member) (by decide) (.computed (.fixed ?_) rfl .here rfl)
    exact (hname "x").of_primary .member (by decide)
  have hif : Production.statement.Varies (around · twoNames.1) twoNames.2 twoNamesAsCondition
      (.ifStmt twoNames.2 (.exprStmt (.memberExpr true (.identifier "x") twoNames.2)) none) :=
    .alternative (q := .conditional) (by decide)
      (.conditional rfl (.grouping rfl .here rfl) hindex)
  have hprogram : VariesProgram (around · twoNames.1) twoNames.2 twoNamesAsCondition
      (.program [.ifStmt twoNames.2
        (.exprStmt (.memberExpr true (.identifier "x") twoNames.2)) none]) := by
    simpa using @VariesProgram.intro _ _ _ [(twoNamesAsCondition, _)] (by simp) (by simpa using hif)
  obtain ⟨hprimary, hparse⟩ := around_keeps_tree (σ := TokenList) htakes
  refine ⟨hprimary [pair, pair] (by simp) _ _ rfl ?_, ?_⟩
  · exact consumes_facing.mpr ⟨_, _, rfl, by decide, _, rfl, TokenList.gives_ofTokens_self inner⟩
  · exact hparse twoNamesAsCondition _ hprogram [pair, pair] _ (Token.eof 0) _
      (TokenList.ofTokens []) (.refl _) rfl (TokenList.gives_ofTokens_self _)

end Parentheses

end Frontend
