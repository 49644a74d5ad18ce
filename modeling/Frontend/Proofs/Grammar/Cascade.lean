import Frontend.Proofs.Grammar.Completeness
import Frontend.Proofs.Grammar.Soundness
import Frontend.Proofs.Grammar.Source
import Frontend.Proofs.Tree.Cascade

/-! # The cascade of operators

Six levels of loops, each over the next, read operands with operators between them. A
level goes on as long as the operators have its rank or a higher one, and builds a
ranked tree of what it has read. The loosest level reads the whole sequence.
-/

namespace Frontend

open ParserState Frontend.Parser

variable {σ : Type} [TokenSource σ] {s s₁ s₂ s₃ : ParserState σ} {ts us : List Token}
  {tree : Node} {next : Token} {x : Segment} {rest : List (Connective × Segment)}

theorem ParserState.Consumes.eq (h : s.Consumes ts s₁) (h' : s.Consumes us s₁) : ts = us := by
  induction ts generalizing s us with
  | nil =>
    obtain rfl := consumes_nil.mp h
    have hle := h'.ahead_add_length
    exact (List.eq_nil_of_length_eq_zero (by omega)).symm
  | cons t ts ih =>
    obtain _ | ⟨u, us⟩ := us
    · obtain rfl := consumes_nil.mp h'
      have hle := h.ahead_add_length
      exact List.eq_nil_of_length_eq_zero (by omega)
    · obtain ⟨rfl, -, next, source, hn, h⟩ := h
      obtain ⟨rfl, -, next', source', hn', h'⟩ := h'
      cases hn.symm.trans hn'
      rw [ih h h']

theorem TokenKind.reach_lt_looseness {k : TokenKind} (h : 0 < k.rank) :
    Production.prefixed.reach < k.looseness := by
  revert h
  cases k <;> decide

theorem TokenKind.eq_of_rank {k k' : TokenKind} (hk : 0 < k.rank) (h : k'.rank = k.rank) :
    k' = k := by
  cases k <;> first
    | exact absurd hk (by decide)
    | cases k' <;> first | rfl | exact absurd h (by decide)

namespace Production

/-- From some state the parser of a production takes all of some tokens, returns a tree, and stops
in front of a token. -/
def Takes (p : Production) (ts : List Token) (next : Token) (tree : Node) : Prop :=
  ∃ s s₁ : ParserState TokenList, s.IsStandard ∧ s.Consumes ts s₁ ∧ s₁.lookahead = next ∧
    p.parser s = .ok tree s₁

variable {p : Production}

theorem Takes.derives (h : p.Takes ts next tree) : p.Derives ts tree := by
  obtain ⟨s, s₁, hs, hc, -, hp⟩ := h
  rcases (Grammatical.parser p).run s hs trivial with ⟨s₂, he⟩ | ⟨v, us, t, he, hv⟩
  · cases hp.symm.trans he
  · rw [hp] at he
    cases he with
    | value hc' => exact hc.eq hc' ▸ hv.1

theorem Derives.takes_of_leads (h : p.Derives ts tree)
    (hl : Leads (p.parser : Parser TokenList Node) ts next.kind (pure tree)) :
    p.Takes ts next tree := by
  have hg := TokenList.gives_ofTokens_self (ts ++ [next])
  obtain ⟨t, left, -, hc⟩ := gives_concat_iff.mpr ⟨composable_endFree.derives h, hg⟩
  have hs := isStandard_facing t left
  exact ⟨_, _, hs, hc, rfl, hl _ _ hs hc rfl⟩

/-- What the grammar derives is taken in front of a token that does not extend it. -/
theorem Derives.takes (h : p.Derives ts tree) (hf : p.Follow tree next.kind)
    (hn : p.reach < next.kind.looseness) : p.Takes ts next tree :=
  h.takes_of_leads (h.finds.leads hf hn)

theorem Takes.parser_eq (h : p.Takes ts next tree) (hs : s.IsStandard) (hc : s.Consumes ts s₁)
    (hn : s₁.lookahead = next) : p.parser s = .ok tree s₁ := by
  obtain ⟨s', s₁', hs', hc', rfl, hp⟩ := h
  obtain ⟨v, us, t, he, hl⟩ := p.local_parse (τ := σ) hs'
  rw [hp] at he
  cases he with
  | value hc'' =>
    obtain rfl := hc'.eq hc''
    exact hl s ts _ _ hs (.refl ts) (hn ▸ .refl _) (.value hc)

end Production

def Connective.tokens (rest : List (Connective × Segment)) : List Token :=
  rest.flatMap fun item => item.1.token :: item.2.1

/-- The operands of a sequence in front of a token. Each one is taken whole by the parser of
prefixed expressions, the last in front of this token, the others in front of some operator. -/
def AreOperands (next : Token) : Segment → List (Connective × Segment) → Prop
  | x, [] => Production.prefixed.Takes x.1 next x.2
  | x, (_, y) :: rest => (∃ c : Connective, Production.prefixed.Takes x.1 c.token x.2) ∧
      AreOperands next y rest

/-- Operators with operands behind them lead from a state to another, and each operand is taken
whole where it stands. -/
inductive Alternates : ParserState σ → List (Connective × Segment) → ParserState σ → Prop where

  | nil (s : ParserState σ) : Alternates s [] s

  | cons {c : Connective} {x : Segment} {rest : List (Connective × Segment)}
      {s s₁ s₂ s₃ : ParserState σ} : s.Consumes [c.token] s₁ → s₁.Consumes x.1 s₂ →
      Production.prefixed.parser s₁ = .ok x.2 s₂ → Alternates s₂ rest s₃ →
      Alternates s ((c, x) :: rest) s₃

theorem AreOperands.alternates (h : AreOperands next x rest) (hs : s.IsStandard)
    (hc : s.Consumes (x.1 ++ Connective.tokens rest) s₃) (hn : s₃.lookahead = next) :
    ∃ s₁, s.Consumes x.1 s₁ ∧ Production.prefixed.parser s = .ok x.2 s₁ ∧
      Alternates s₁ rest s₃ := by
  induction rest generalizing s x with
  | nil =>
    rw [Connective.tokens, List.flatMap_nil, List.append_nil] at hc
    exact ⟨s₃, hc, Production.Takes.parser_eq h hs hc hn, .nil s₃⟩
  | cons item rest ih =>
    obtain ⟨c, y⟩ := item
    obtain ⟨⟨d, hd⟩, hrest⟩ := h
    obtain ⟨s₁, hx, hc⟩ := consumes_append.mp hc
    have hbehind : s₁.Consumes ([c.token] ++ (y.1 ++ Connective.tokens rest)) s₃ := hc
    obtain ⟨s₂, hop, hc⟩ := consumes_append.mp hbehind
    obtain ⟨s₂', hy, hpy, ha⟩ := ih hrest (hop.isStandard (hx.isStandard hs)) hc
    refine ⟨s₁, hx, ?_, .cons hop hy hpy ha⟩
    have hloose := TokenKind.reach_lt_looseness c.rank_pos
    exact (hd.derives.takes hloose.le hloose).parser_eq hs hx hop.1

structure IsClimb (n : ℕ) (x : Segment) (taken : List (Connective × Segment))
    (tree : OperatorTree) : Prop where
  spans : tree.Spans x taken
  isRanked : tree.IsRanked
  le_rank : ∀ c ∈ tree.root?, n ≤ c.rank

theorem IsClimb.operation {n : ℕ} {taken taken' : List (Connective × Segment)} {y : Segment}
    {left right : OperatorTree} {c : Connective} (hc : c.rank = n) (hl : IsClimb n x taken left)
    (hr : IsClimb (n + 1) y taken' right) :
    IsClimb n x (taken ++ (c, y) :: taken') (.operation c left right) where
  spans := ⟨hl.spans.first_eq, by
    rw [OperatorTree.rest, hl.spans.rest_eq, hr.spans.first_eq, hr.spans.rest_eq]⟩
  isRanked := ⟨hc ▸ hl.le_rank, hc ▸ hr.le_rank, hl.isRanked, hr.isRanked⟩
  le_rank := by
    rintro _ ⟨⟩
    exact hc.ge

inductive EndsBelow (n : ℕ) (x : Segment) (taken : List (Connective × Segment))
    (s₃ : ParserState σ) : List (Connective × Segment) →
      EStateM.Result Halt (ParserState σ) Node → Prop where

  | intro {tree : OperatorTree} {more behind : List (Connective × Segment)} {s : ParserState σ} :
      IsClimb n x (taken ++ more) tree → s.IsStandard → Alternates s behind s₃ →
      s.lookahead.kind.rank < n → EndsBelow n x taken s₃ (more ++ behind) (.ok tree.node s)

/-- In front of an operand and operators behind it, the parser of a production takes those from
some rank on, as many as there are. -/
def Climbs (σ : Type) [TokenSource σ] (p : Production) (n : ℕ) : Prop :=
  ∀ ⦃s s₁ s₃ : ParserState σ⦄ ⦃x : Segment⦄ ⦃rest : List (Connective × Segment)⦄, s.IsStandard →
    s.Consumes x.1 s₁ → Production.prefixed.parser s = .ok x.2 s₁ → Alternates s₁ rest s₃ →
      s₃.lookahead.kind.rank = 0 → EndsBelow n x [] s₃ rest (p.parser s)

theorem climbs_prefixed : Climbs σ .prefixed 7 := by
  intro s s₁ s₃ x rest hs hx hp ha _
  have hlt : s₁.lookahead.kind.rank < 7 := by cases s₁.lookahead.kind <;> decide
  have htree : IsClimb 7 x ([] ++ []) (.operand x) := ⟨⟨rfl, rfl⟩, trivial, nofun⟩
  rw [hp]
  exact .intro htree (hx.isStandard hs) ha hlt

theorem Parser.operator_eq_ok {ω : Type} [Operator ω] {t : Token} {op : ω}
    (ho : Operator.ofSymbol? t.value = some op) (hc : s.Consumes [t] s₁) :
    operator s = .ok op s₁ := by
  obtain ⟨rfl, -, next, source, hn, rfl⟩ := hc
  rw [operator, bind_ok _ (advance_ok hn), operatorOf, ho]
  rfl

structure IsLevel {ω : Type} [Operator ω] (σ : Type) [TokenSource σ]
    (build : ω → Node → Node → Node) (p : Production) (k : TokenKind) (q : Production) : Prop where
  body_eq : ∀ self : Production → Parser σ Node, p.body self = leftAssociative build (self q) k
  join?_eq : ∀ t : Token, t.kind = k → t.join? = (Operator.ofSymbol? t.value : Option ω).map build
  rank_pos : 0 < k.rank

section

variable {ω : Type} [Operator ω] {build : ω → Node → Node → Node} {p q : Production}
  {k : TokenKind}

theorem IsLevel.operation_eq_ok (hl : IsLevel σ build p k q) {c : Connective}
    {left right : OperatorTree} (hc : c.token.kind = k) (hop : s.Consumes [c.token] s₁)
    (hr : q.parser s₁ = .ok right.node s₂) :
    operation build q left.node s = .ok (OperatorTree.operation c left right).node s₂ := by
  have hjoin := c.join?_eq
  rw [hl.join?_eq _ hc] at hjoin
  obtain ⟨op, ho, hj⟩ := Option.map_eq_some_iff.mp hjoin
  rw [operation, bind_ok _ (operator_eq_ok ho hop), bind_ok _ hr, OperatorTree.node, ← hj]
  rfl

/-- The loop of a level goes on until an operator of a lower rank. -/
theorem Climbs.loop (hl : IsLevel σ build p k q) (hq : Climbs σ q (k.rank + 1))
    (h₃ : s₃.lookahead.kind.rank = 0) {taken : List (Connective × Segment)} {left : OperatorTree}
    (hs : s.IsStandard) (ha : Alternates s rest s₃) (hle : s.lookahead.kind.rank < k.rank + 1)
    (hleft : IsClimb k.rank x taken left) :
    EndsBelow k.rank x taken s₃ rest
      (repeatWhile (· == k) left.node (operation build q) s) := by
  have hround : ∀ a (s : ParserState σ), s.IsStandard → (s.lookahead.kind == k) = true →
      Settles true s (operation build q a s) := fun a s hs hk =>
    (Form.operation build q (by rintro rfl; exact absurd hl.rank_pos (by decide)) a).settles hs hk
  -- The induction is on the operators that are left: a round takes one of them, and those of
  -- higher ranks behind its operand.
  induction hn : rest.length using Nat.strongRecOn generalizing s taken left rest with
  | ind n ih =>
    rw [repeatWhile_eq hround left.node hs]
    by_cases hk : s.lookahead.kind = k
    · cases ha with
      | nil => exact absurd (hk ▸ h₃) hl.rank_pos.ne'
      | @cons c y rest _ s₁ s₂ _ hop hy hpy ha =>
        have hc : c.token.kind = k := hop.1 ▸ hk
        have hright := hq (hop.isStandard hs) hy hpy ha h₃
        generalize hr : q.parser s₁ = r at hright
        cases hright with
        | @intro right taken' behind s₄ hright hs₄ hbehind hlt =>
          rw [if_pos (by simpa using hk), bind_ok _ (hl.operation_eq_ok hc hop hr)]
          have htree := hleft.operation (congrArg TokenKind.rank hc) hright
          have hfewer : behind.length < n := by
            rw [← hn, List.length_cons, List.length_append]
            omega
          have hend := ih behind.length hfewer hs₄ hbehind hlt htree rfl
          generalize repeatWhile (· == k) _ (operation build q) s₄ = r at hend
          cases hend with
          | @intro tree more behind s₅ htree hs₅ hlast hlt =>
            have hall : IsClimb k.rank x (taken ++ (c, y) :: (taken' ++ more)) tree := by
              simpa using htree
            simpa using EndsBelow.intro hall hs₅ hlast hlt
    · have hne : s.lookahead.kind.rank ≠ k.rank := fun he =>
        hk (TokenKind.eq_of_rank hl.rank_pos he)
      have htree : IsClimb k.rank x (taken ++ []) left := by rwa [List.append_nil]
      rw [if_neg (by simpa using hk)]
      exact .intro htree hs ha (by omega)

/-- A level over one that climbs from the next rank climbs from its own. -/
theorem Climbs.level (hl : IsLevel σ build p k q) (hq : Climbs σ q (k.rank + 1)) :
    Climbs σ p k.rank := by
  intro s s₁ s₃ x rest hs hx hpx ha h₃
  have hfirst := hq hs hx hpx ha h₃
  rw [p.parser_eq hs, hl.body_eq, leftAssociative]
  generalize hr : q.parser s = r at hfirst
  cases hfirst with
  | @intro tree taken behind s₂ htree hs₂ hbehind hlt =>
    have htree' : IsClimb k.rank x taken tree :=
      ⟨htree.spans, htree.isRanked, fun c hc => (Nat.le_succ _).trans (htree.le_rank c hc)⟩
    rw [bind_ok _ hr]
    have hend := hq.loop hl h₃ hs₂ hbehind hlt htree'
    change EndsBelow _ _ _ _ _ (repeatWhile (· == k) tree.node (operation build q) s₂)
    generalize repeatWhile (· == k) tree.node (operation build q) s₂ = r at hend
    cases hend with
    | @intro tree more behind s₄ htree hs₄ hlast hlt =>
      rw [← List.append_assoc]
      exact .intro htree hs₄ hlast hlt

end

theorem climbs_disjunction : Climbs σ .disjunction 1 := by
  have product : IsLevel σ Node.binaryExpr .product .multiplicativeOp .prefixed :=
    ⟨fun _ => rfl, fun t ht => by rw [Token.join?, ht], by decide⟩
  have sum : IsLevel σ Node.binaryExpr .sum .additiveOp .product :=
    ⟨fun _ => rfl, fun t ht => by rw [Token.join?, ht], by decide⟩
  have relation : IsLevel σ Node.binaryExpr .relation .relationalOp .sum :=
    ⟨fun _ => rfl, fun t ht => by rw [Token.join?, ht], by decide⟩
  have equality : IsLevel σ Node.binaryExpr .equality .equalityOp .relation :=
    ⟨fun _ => rfl, fun t ht => by rw [Token.join?, ht], by decide⟩
  have conjunction : IsLevel σ Node.logicalExpr .conjunction .andOp .equality :=
    ⟨fun _ => rfl, fun t ht => by rw [Token.join?, ht], by decide⟩
  have disjunction : IsLevel σ Node.logicalExpr .disjunction .orOp .conjunction :=
    ⟨fun _ => rfl, fun t ht => by rw [Token.join?, ht], by decide⟩
  exact Climbs.level disjunction <| Climbs.level conjunction <| Climbs.level equality <|
    Climbs.level relation <| Climbs.level sum <| Climbs.level product climbs_prefixed

/-- A sequence of operands and operators in front of a token that is no such operator is read
whole, as the one ranked tree over it. -/
theorem disjunction_eq_ranked (hs : s.IsStandard) (hx : AreOperands next x rest)
    (hc : s.Consumes (x.1 ++ Connective.tokens rest) s₁) (hn : s₁.lookahead = next)
    (h₀ : next.kind.rank = 0) :
    ∃ tree : OperatorTree, tree.Spans x rest ∧ tree.IsRanked ∧
      Production.disjunction.parser s = .ok tree.node s₁ ∧
      ∀ other : OperatorTree, other.Spans x rest → other.IsRanked → other = tree := by
  obtain ⟨s₂, hx, hp, ha⟩ := hx.alternates hs hc hn
  have hend := climbs_disjunction hs hx hp ha (hn ▸ h₀)
  generalize hr : Production.disjunction.parser s = r at hend
  cases hend with
  | @intro tree taken behind s₃ htree _ hbehind hlt =>
    cases hbehind with
    | nil =>
      rw [List.append_nil]
      exact ⟨tree, htree.spans, htree.isRanked, rfl, fun other ho hr =>
        hr.eq_of_spans htree.isRanked ho htree.spans⟩
    | @cons c _ _ _ _ _ _ hop =>
      have hpos := c.rank_pos
      rw [Connective.rank, ← hop.1] at hpos
      omega

theorem disjunction_eq_ranked_mixed :
    let name (x : String) : Segment := ([⟨.identifier, x, default⟩], .identifier x)
    let or : Connective := ⟨⟨.orOp, "||", default⟩, .logicalExpr .or, rfl⟩
    let minus : Connective := ⟨⟨.additiveOp, "-", default⟩, .binaryExpr .sub, rfl⟩
    let times : Connective := ⟨⟨.multiplicativeOp, "*", default⟩, .binaryExpr .mul, rfl⟩
    let rest := [(or, name "b"), (minus, name "c"), (minus, name "d"), (times, name "e")]
    let next : Token := ⟨.semicolon, ";", default⟩
    let tree : OperatorTree := .operation or (.operand (name "a")) (.operation minus
      (.operation minus (.operand (name "b")) (.operand (name "c")))
      (.operation times (.operand (name "d")) (.operand (name "e"))))
    Production.disjunction.parser
        (facing ⟨.identifier, "a", default⟩
          (TokenList.ofTokens (Connective.tokens rest ++ [next]))) =
      .ok tree.node (facing next (TokenList.ofTokens [])) ∧
        ∀ other : OperatorTree, other.Spans (name "a") rest → other.IsRanked → other = tree := by
  intro name or minus times rest next tree
  have hname (x : String) (t : Token) (ht : Production.prefixed.reach < t.kind.looseness) :
      Production.prefixed.Takes (name x).1 t (name x).2 := by
    have hd : Production.primary.Derives (name x).1 (name x).2 :=
      .alternative (q := .identifier) (by decide) (.identifier rfl)
    exact (hd.of_primary .prefixed (by decide)).takes ht.le ht
  have hx : AreOperands next (name "a") rest :=
    ⟨⟨or, hname _ _ (by decide)⟩, ⟨minus, hname _ _ (by decide)⟩, ⟨minus, hname _ _ (by decide)⟩,
      ⟨times, hname _ _ (by decide)⟩, hname _ _ (by decide)⟩
  have hc : (facing ⟨.identifier, "a", default⟩
      (TokenList.ofTokens (Connective.tokens rest ++ [next]))).Consumes
        ((name "a").1 ++ Connective.tokens rest) (facing next (TokenList.ofTokens [])) :=
    consumes_facing.mpr ⟨next, _, rfl, by decide, _, rfl,
      TokenList.gives_ofTokens (Connective.tokens rest ++ [next]) []⟩
  obtain ⟨found, hspans, hranked, hp, hunique⟩ :=
    disjunction_eq_ranked (isStandard_facing _ _) hx hc rfl rfl
  have htree : tree = found := hunique tree ⟨rfl, rfl⟩ (by
    simp [tree, or, minus, times, OperatorTree.IsRanked, OperatorTree.root?, Connective.rank,
      TokenKind.rank])
  exact htree ▸ ⟨hp, hunique⟩

end Frontend
