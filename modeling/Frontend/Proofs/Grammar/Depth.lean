import Frontend.Proofs.Grammar.Completeness
import Frontend.Proofs.Grammar.Source

/-! # How deep calls are nested

Every part of the parser returns, and consumes a token if it succeeds. A production calls
others in front of the same token from a higher rank to a lower one. Hence a stack of calls
grows by less than the number of levels from one token to the next, and a budget in proportion
to the tokens before the end of input is enough for a program.
-/

namespace Frontend

open ParserState Frontend.Parser

variable {σ : Type} [TokenSource σ] {α : Type} {s s₁ : ParserState σ}

namespace Production

/-- Parsers of the productions, one of which is cut off in front of one state. -/
structure CutsOff (run : Production → Parser σ Node) (q : Production) (s₁ : ParserState σ) :
    Prop where
  cut : run q s₁ = .error .exhausted s₁
  parse : ∀ r s, (r, s) ≠ (q, s₁) → run r s = r.parser s

/-- Whether a production in front of a state calls another one in front of a state: it stops
where this call is cut off. -/
def Calls (p : Production) (s : ParserState σ) (q : Production) (s₁ : ParserState σ) : Prop :=
  ∃ (run : Production → Parser σ Node) (s₂ : ParserState σ),
    CutsOff run q s₁ ∧ p.body run s = .error .exhausted s₂

variable {p q : Production}

/-- What a production calls stands behind some tokens, or has a lower rank. -/
theorem Calls.exists_consumes (h : p.Calls s q s₁) (hs : s.IsStandard) :
    ∃ ts, s.Consumes ts s₁ ∧ (ts = [] → q.rank < p.rank) := by
  obtain ⟨run, s₂, hrun, he⟩ := h
  by_contra hn
  have hagree : Agree true (p.body run) (p.body parser) s := by
    refine (Form.body p).agree (fun r ts s' hc hr => ?_) hs trivial
    have hne : (r, s') ≠ (q, s₁) := by
      rintro ⟨⟩
      exact hn ⟨ts, hc, hr⟩
    have hsame := hrun.parse r s' hne
    exact ⟨hsame, hsame ▸ (r.agree_self (hc.isStandard hs)).2⟩
  have hset := hagree.2
  rw [he] at hset
  exact hset

theorem exists_cutsOff (q : Production) (s₁ : ParserState σ) : ∃ run, CutsOff run q s₁ := by
  classical
  refine ⟨fun r s => if (r, s) = (q, s₁) then exhausted s else r.parser s, ?_, fun r s h => ?_⟩
  · exact if_pos rfl
  · exact if_neg h

theorem Calls.of_entered
    (h : ∀ run, run q s = .error .exhausted s → p.body run s = .error .exhausted s) :
    p.Calls s q s := by
  obtain ⟨run, hrun⟩ := exists_cutsOff q s
  exact ⟨run, s, hrun, h run hrun.cut⟩

/-- Productions in front of states, each of which calls the next. -/
def IsStack (frames : List (Production × ParserState σ)) : Prop :=
  frames.IsChain fun a b => a.1.Calls a.2 b.1 b.2

/-- A stack grows by less than the number of levels from one token to the next. -/
theorem IsStack.length_add_rank_le {frames : List (Production × ParserState σ)}
    (h : IsStack ((p, s) :: frames)) (hs : s.IsStandard) :
    ∃ ts, s.Consumes ts (((p, s) :: frames).getLast (by simp)).2 ∧
      frames.length + (((p, s) :: frames).getLast (by simp)).1.rank ≤
        levels * ts.length + p.rank := by
  induction frames generalizing p s with
  | nil => exact ⟨[], rfl, by simp⟩
  | cons frame frames ih =>
    obtain ⟨q, s₁⟩ := frame
    obtain ⟨hcall, h⟩ := List.isChain_cons_cons.mp h
    obtain ⟨ts, hc, hr⟩ := hcall.exists_consumes hs
    obtain ⟨us, hc', hle⟩ := ih h (hc.isStandard hs)
    refine ⟨ts ++ us, hc.trans hc', ?_⟩
    rw [List.getLast_cons (by simp), List.length_append, List.length_cons]
    have hlt := q.rank_lt_levels
    simp only [levels] at *
    obtain rfl | hne := eq_or_ne ts []
    · have := hr rfl
      simp only [List.length_nil] at *
      omega
    · have := List.length_pos_iff.mpr hne
      omega

def descent : List Production :=
  [statement, expressionStatement, sequence, assignment, disjunction, conjunction, equality,
    relation, sum, product, prefixed, leftHandSide, member, primary, grouping]

theorem isStack_descent (hs : s.IsStandard) (hk : s.lookahead.kind = .openParen) :
    IsStack (descent.map (·, s)) := by
  have hl : s.handlers = Handlers.standard := hs
  simp only [IsStack, descent, List.map_cons, List.map_nil, List.isChain_cons_cons,
    List.isChain_singleton, and_true]
  refine ⟨?_, ?_, ?_, ?_, ?_, ?_, ?_, ?_, ?_, ?_, ?_, ?_, ?_, ?_⟩ <;>
    refine .of_entered fun run h => ?_
  · rw [body, Parser.statement, handler?_bind_apply, hl, hk]
    exact h
  · exact bind_error _ h
  · exact bind_error _ (bind_error _ h)
  · exact bind_error _ h
  · exact bind_error _ h
  · exact bind_error _ h
  · exact bind_error _ h
  · exact bind_error _ h
  · exact bind_error _ h
  · exact bind_error _ h
  · rw [body, Parser.prefixed, kind_bind_apply, hk]
    exact h
  · rw [body, Parser.leftHandSide, kind_bind_apply, hk, if_neg (by decide), callsOfMember,
      kind_bind_apply]
    exact bind_error _ h
  · exact bind_error _ h
  · rw [body, Parser.primary, kind_bind_apply, hk]
    exact h

end Production

namespace Parser

/-- The productions and the other parsers that they share, with whether success has to consume a
token. Only statements up to a stop may be none. -/
inductive IsPart : {α : Type} → Bool → Parser σ α → Prop where

  | production (p : Production) : IsPart true p.parser

  | operators {ω : Type} [Operator ω] (build : ω → Node → Node → Node) (operand : Production)
      {k : TokenKind} : k ≠ .eof → IsPart true (leftAssociative build operand.parser k)

  | calls (callee : Node) : IsPart true (calls Production.parser callee)

  | arguments : IsPart true (arguments Production.parser)

  | condition : IsPart true (condition Production.parser)

  | program : IsPart true program

  | statements (stop : TokenKind) : IsPart false (statements Production.parser stop)

/-- The loops of the parser: the kinds they go on at, and what they do in each round. -/
inductive IsLoop : {α : Type} → (TokenKind → Bool) → (α → Parser σ α) → Prop where

  | statements (stop : TokenKind) :
      IsLoop (fun kind => kind != stop && kind != .eof) fun nodes => do
        return (← Production.statement.parser) :: nodes

  /-- Sequences, arguments, declarations and parameters, by what they list. -/
  | items (item : Production) : IsLoop (· == .comma) fun nodes => do
      let _ ← consume .comma
      return (← item.parser) :: nodes

  | operators {ω : Type} [Operator ω] (build : ω → Node → Node → Node) (operand : Production)
      {k : TokenKind} : k ≠ .eof → IsLoop (· == k) (operation build operand)

  | members : IsLoop (fun kind => kind == .dot || kind == .openBracket) (memberOf Production.parser)

  | calls : IsLoop (· == .openParen) (callOf Production.parser)

theorem IsPart.form {strict : Bool} {p : Parser σ α} (h : IsPart strict p) :
    Form Production.parser Production.parser (fun _ => True) Production.levels strict p p := by
  cases h with
  | production p => exact .call p p.rank_lt_levels
  | operators build operand hk => exact .leftAssociative build operand.rank_lt_levels hk
  | calls callee => exact .calls callee
  | arguments => exact .arguments
  | condition => exact .condition
  | program => exact form_program
  | statements stop => exact .statements

theorem IsLoop.form {wanted : TokenKind → Bool} {body : α → Parser σ α} (h : IsLoop wanted body)
    (a : α) : Form Production.parser Production.parser (wanted · = true) Production.levels true
      (body a) (body a) := by
  cases h with
  | statements stop =>
    exact (Form.call .statement (by decide)).bind fun node => .pure (node :: a)
  | items item =>
    exact .skip .comma (by decide) ((Form.call item item.rank_lt_levels).bind fun node =>
      .pure (node :: a))
  | operators build operand hk => exact .operation build operand hk a
  | members => exact .memberOf a
  | calls => exact .callOf a

def programOf (run : Production → Parser σ Node) : Parser σ Node := do
  let first ← run .statement
  let rest ← statements run .eof
  return .program (first :: rest)

theorem agree_programOf (hs : s.IsStandard) {n : ℕ} (hn : Production.levels * (s.ahead + 1) ≤ n) :
    Agree true (programOf (Production.within n)) program s := by
  have hf : Form (Production.within n) Production.parser (fun _ => True) Production.levels true
      (programOf (Production.within n) : Parser σ Node) (program : Parser σ Node) :=
    (Form.call .statement (by decide)).bind fun _ => Form.statements.bind fun _ => .pure _
  refine hf.agree (fun r ts s₁ hc _ => r.agree_parse (hc.isStandard hs) ?_) hs trivial
  have hle := hc.ahead_add_length
  have hlt := r.rank_lt_levels
  simp only [Production.need, Production.levels] at *
  omega

end Parser

/-- What a run ends with, unless its budget is spent. -/
def settled? : EStateM.Result Halt (ParserState σ) Node → Option (Except Error Node)
  | .ok tree _ => some (.ok tree)
  | .error (.error e) _ => some (.error e)
  | .error .exhausted _ => none

/-- The program that a source holds, unless a budget of nested productions is spent. -/
def parseTokensWithin (n : ℕ) (source : σ) : Option (Except Error Node) :=
  match start source with
  | (.error e, _) => some (.error e)
  | (.ok state, _) => settled? (programOf (Production.within n) state)

/-- A budget in proportion to the tokens before the end of input is enough. -/
theorem parseTokensWithin_eq (source : σ) {n : ℕ}
    (hn : Production.levels * (TokenSource.count source + 1) ≤ n) :
    parseTokensWithin n source = some (parseTokens source) := by
  unfold parseTokensWithin parseTokens
  rcases hp : TokenStream.next source with ⟨e | t, rest⟩
  · rw [parseFrom_of_error hp, start, hp]
  · have hahead : (facing t rest).ahead = TokenSource.count source :=
      (TokenSource.count_of_ok hp).symm
    obtain ⟨he, hset⟩ := agree_programOf (isStandard_facing t rest) (hahead ▸ hn)
    rw [parseFrom_of_ok hp, start, hp, ← he]
    change settled? (programOf (Production.within n) (facing t rest)) = _
    generalize programOf (Production.within n) (facing t rest) = r at hset
    rcases r with _ | ⟨_ | _, _⟩
    · rfl
    · rfl
    · cases hset

/-- The runs of the parser in front of a state come to an end. -/
structure Terminates (s : ParserState σ) : Prop where
  /-- Every part returns, and consumes a token if it succeeds. -/
  settles : ∀ {α : Type} {strict : Bool} {p : Parser σ α}, IsPart strict p → Settles strict s (p s)
  /-- Every round of a loop returns, and consumes a token if it succeeds. -/
  round : ∀ {α : Type} {wanted : TokenKind → Bool} {body : α → Parser σ α}, IsLoop wanted body →
    wanted s.lookahead.kind = true → ∀ a, Settles true s (body a s)
  /-- From a call to one nested in it there are fewer calls than levels, for each token that is
  consumed on the way and once more. -/
  depth : ∀ (p : Production) (frames : List (Production × ParserState σ)),
    Production.IsStack ((p, s) :: frames) →
      ∃ ts, s.Consumes ts (((p, s) :: frames).getLast (by simp)).2 ∧
        frames.length < Production.levels * (ts.length + 1)
  /-- Budgets in proportion to the tokens ahead make no difference. -/
  budget : ∀ (p : Production) (n : ℕ), Production.levels * (s.ahead + 1) ≤ n →
    Production.within n p s = p.parser s

/-- Parsing comes to an end in front of every state, on a budget in proportion to the tokens
before the end of input. -/
theorem terminates_on_budget :
    (∀ s : ParserState σ, s.IsStandard → Terminates s) ∧
      ∀ (source : σ) (n : ℕ), Production.levels * (TokenSource.count source + 1) ≤ n →
        parseTokensWithin n source = some (parseTokens source) := by
  refine ⟨fun s hs => ⟨fun h => h.form.settles hs trivial,
    fun h hw a => (h.form a).settles hs hw, fun p frames h => ?_, fun p n hn => ?_⟩,
    fun source n => parseTokensWithin_eq source⟩
  · obtain ⟨ts, hc, hle⟩ := h.length_add_rank_le hs
    have hlt := p.rank_lt_levels
    exact ⟨ts, hc, by simp only [Production.levels] at *; omega⟩
  · have hlt := p.rank_lt_levels
    exact (p.agree_parse hs (by simp only [Production.need, Production.levels] at *; omega)).1

theorem terminates_on_budget_grouped :
    let opening : Token := ⟨.openParen, "(", default⟩
    let closing : Token := ⟨.closeParen, ")", default⟩
    let rest : List Token := [opening, ⟨.identifier, "a", default⟩, closing, closing,
      ⟨.semicolon, ";", default⟩, Token.eof 0]
    let s := facing opening (TokenList.ofTokens rest)
    Terminates s ∧ Production.IsStack (Production.descent.map (·, s)) ∧
      parseTokensWithin 112 (TokenList.ofTokens (opening :: rest)) =
        some (.ok (.program [.exprStmt (.identifier "a")])) := by
  intro opening closing rest s
  have hg : TokenStream.Gives (TokenList.ofTokens (opening :: rest))
      ((opening :: rest).dropLast ++ [Token.eof 0]) (TokenList.ofTokens []) :=
    TokenList.gives_ofTokens_self (opening :: rest)
  have hcount : TokenSource.count (TokenList.ofTokens (opening :: rest)) = 6 :=
    TokenSource.count_of_gives hg (by decide) rfl
  have hs : s.IsStandard := isStandard_facing opening (TokenList.ofTokens rest)
  refine ⟨terminates_on_budget.1 s hs, Production.isStack_descent hs rfl, ?_⟩
  rw [terminates_on_budget.2 _ 112 (by rw [hcount]; decide)]
  rfl

end Frontend
