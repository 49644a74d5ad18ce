import Frontend.Proofs.Grammar.Cascade

/-! # Chains of assignments

Assignments group to the right. What is assigned to is checked as soon as the operator behind
it has been consumed. So the first that is no name or member is reported, whatever comes behind
the token after its operator.
-/

namespace Frontend

open ParserState Frontend.Parser

variable {σ : Type} [TokenSource σ] {k : TokenKind}

/-- What is assigned to and the operator behind it. It is taken whole in front of some operator
that assigns. -/
structure Assignee where
  tokens : List Token
  tree : Node
  symbol : Token
  op : AssignOp
  isAssignOp : symbol.kind.isAssignOp = true
  ofSymbol?_eq : Operator.ofSymbol? symbol.value = some op
  takes : ∃ t : Token, t.kind.isAssignOp = true ∧ Production.disjunction.Takes tokens t tree

namespace Assignee

/-- The tokens in front of a value. -/
def written (chain : List Assignee) : List Token := chain.flatMap fun x => x.tokens ++ [x.symbol]

/-- The tree of a chain with a value behind it. -/
def assigned (chain : List Assignee) (value : Node) : Node :=
  chain.foldr (fun x right => .assignExpr x.op x.tree right) value

theorem finds (x : Assignee) : Production.disjunction.Finds σ x.tokens x.tree := by
  obtain ⟨t, -, h⟩ := x.takes
  exact h.derives.finds

theorem leads (x : Assignee) :
    Leads (Production.assignment.parser : Parser σ Node) (x.tokens ++ [x.symbol]) k
      (if x.tree.isAssignable then
        Production.assignment.parser >>= fun right => pure (.assignExpr x.op x.tree right)
      else fail (.notAssignable x.tree) x.symbol.span.start) := by
  have hk := TokenKind.looseness_of_isAssignOp x.isAssignOp
  refine .parser (.bind (x.finds.leads ?_ ?_) (.peek ?_))
  · simp [hk]
  · simp [hk]
  · rw [entry_cons, if_pos x.isAssignOp]
    refine .advance ?_
    rw [operatorOf, x.ofSymbol?_eq, pure_bind]
    exact .refl _

/-- Behind assignments to names and members, an assignment is parsed as if it stood alone. -/
theorem leads_assigned {chain : List Assignee} (h : ∀ x ∈ chain, x.tree.isAssignable = true) :
    Leads (Production.assignment.parser : Parser σ Node) (written chain) k
      (Production.assignment.parser >>= fun right => pure (assigned chain right)) := by
  induction chain with
  | nil =>
    change Leads _ [] _ (Production.assignment.parser >>= pure)
    rw [bind_pure]
    exact .refl _
  | cons x chain ih =>
    obtain ⟨hx, h⟩ := List.forall_mem_cons.mp h
    have hfirst : Leads (Production.assignment.parser : Parser σ Node) (x.tokens ++ [x.symbol])
        (entry (written chain) k) _ := x.leads
    rw [if_pos hx] at hfirst
    have hrest := (ih h).bind_right fun right =>
      (pure (.assignExpr x.op x.tree right) : Parser σ Node)
    rw [bind_assoc] at hrest
    exact hfirst.trans hrest

end Assignee

open Assignee

/-- A chain of assignments is nested to the right if all that is assigned to are names and members.
Otherwise the first that is not is reported at its operator. Of the tokens behind the operator,
the parser has only the one at hand. -/
theorem assignment_eq_assigned_or_notAssignable (chain : List Assignee) (s : ParserState σ)
    (hs : s.IsStandard) :
    ((∀ x ∈ chain, x.tree.isAssignable = true) → ∀ (value : Segment) (next : Token) s₁,
      Production.assignment.Takes value.1 next value.2 →
      s.Consumes (written chain ++ value.1) s₁ → s₁.lookahead = next →
      Production.assignment.parser s = .ok (assigned chain value.2) s₁) ∧
    ∀ before x after, chain = before ++ x :: after →
      (∀ y ∈ before, y.tree.isAssignable = true) → x.tree.isAssignable = false →
      ∀ s₁, s.Consumes (written (before ++ [x])) s₁ →
        Production.assignment.parser s =
          .error (.error ⟨.notAssignable x.tree, x.symbol.span.start⟩) s₁ := by
  constructor
  · intro h value next s₁ hv hc hn
    obtain ⟨s₂, hc, hc'⟩ := consumes_append.mp hc
    rw [leads_assigned h s s₂ hs hc rfl, bind_ok _ (hv.parser_eq (hc.isStandard hs) hc' hn)]
    rfl
  · intro before x after _ h hx s₁ hc
    rw [written, List.flatMap_append, List.flatMap_singleton] at hc
    obtain ⟨s₂, hc, hc'⟩ := consumes_append.mp hc
    have hrefused := x.leads s₂ s₁ (hc.isStandard hs) hc' rfl
    rw [if_neg (by simp [hx])] at hrefused
    rw [leads_assigned h s s₂ hs hc rfl, bind_error _ hrefused]

/-- In `a = b += c;` both targets are names. In `a = this += 9999999999999999999` one is not, and
the number that is too large goes unnoticed. -/
theorem assignment_eq_assigned_or_notAssignable_this :
    let name (x : String) : Token := ⟨.identifier, x, default⟩
    let word : Token := ⟨.thisWord, "this", ⟨4, 8⟩⟩
    let assign : Token := ⟨.simpleAssign, "=", ⟨2, 3⟩⟩
    let add : Token := ⟨.complexAssign, "+=", ⟨9, 11⟩⟩
    let next : Token := ⟨.semicolon, ";", default⟩
    let large : Token := ⟨.number, "9999999999999999999", default⟩
    Production.assignment.parser
        (facing (name "a") (TokenList.ofTokens [assign, name "b", add, name "c", next])) =
      .ok (.assignExpr .simple (.identifier "a")
        (.assignExpr .add (.identifier "b") (.identifier "c")))
          (facing next (TokenList.ofTokens [])) ∧
    Production.assignment.parser
        (facing (name "a") (TokenList.ofTokens [assign, word, add, large])) =
      .error (.error ⟨.notAssignable .thisExpr, 9⟩) (facing large (TokenList.ofTokens [])) := by
  intro name word assign add next large
  have hname (x : String) : Production.primary.Derives [name x] (.identifier x) :=
    .alternative (q := .identifier) (by decide) (.identifier rfl)
  have hword : Production.primary.Derives [word] .thisExpr := .this rfl
  have hassign : Production.disjunction.reach < assign.kind.looseness := by decide
  have hnext : Production.assignment.reach < next.kind.looseness := by decide
  have htakes {ts : List Token} {tree : Node} (h : Production.primary.Derives ts tree) :
      ∃ t : Token, t.kind.isAssignOp = true ∧ Production.disjunction.Takes ts t tree :=
    ⟨assign, rfl, (h.of_primary .disjunction (by decide)).takes hassign.le hassign⟩
  let a : Assignee := ⟨[name "a"], _, assign, .simple, rfl, rfl, htakes (hname "a")⟩
  let b : Assignee := ⟨[name "b"], _, add, .add, rfl, rfl, htakes (hname "b")⟩
  let this' : Assignee := ⟨[word], _, add, .add, rfl, rfl, htakes hword⟩
  have hvalue : Production.assignment.Takes [name "c"] next (.identifier "c") :=
    ((hname "c").of_primary .assignment (by decide)).takes hnext.le hnext
  have hconsumes (t u : Token) (ts : List Token) (h : ∀ v ∈ t :: ts, v.kind ≠ .eof) :
      (facing t (TokenList.ofTokens (ts ++ [u]))).Consumes (t :: ts)
        (facing u (TokenList.ofTokens [])) :=
    consumes_facing.mpr ⟨u, _, rfl, h, _, rfl, TokenList.gives_ofTokens_self (ts ++ [u])⟩
  constructor
  · exact (assignment_eq_assigned_or_notAssignable [a, b] _ (isStandard_facing _ _)).1
      (List.forall_mem_cons.mpr ⟨rfl, List.forall_mem_singleton.mpr rfl⟩)
      ([name "c"], .identifier "c") next _ hvalue
      (hconsumes (name "a") next [assign, name "b", add, name "c"] (by decide)) rfl
  · exact (assignment_eq_assigned_or_notAssignable [a, this'] _ (isStandard_facing _ _)).2 [a]
      this' [] rfl (List.forall_mem_singleton.mpr rfl) rfl _
      (hconsumes (name "a") large [assign, word, add] (by decide))

end Frontend
