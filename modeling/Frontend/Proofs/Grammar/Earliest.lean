import Frontend.Proofs.Grammar.Language
import Frontend.Proofs.Grammar.Returning

/-! # Errors are found at the earliest token

A parser that refuses the token at hand has read nothing beyond it. The tokens
before it begin some program, while no program begins with that token too. A
parser that rejects a token has pulled one more and not looked at it.
-/

namespace Frontend

open ParserState TokenStream Frontend.Parser

/-- The tokens that a parse pulls from a source, in order. -/
def pulled {σ : Type} [TokenSource σ] (source : σ) : List Token :=
  (parseFrom (Recorded.start source)).2.given.reverse

/-- A parse fails at the token at hand. The parse of every stream that begins with the tokens up to
this one returns the same error, and the tokens before it can be continued to a program. -/
def FailsAtHand {σ : Type} [TokenSource σ] (source : σ) (e : Error) : Prop :=
  ∃ before t, pulled source = before ++ [t] ∧ e.cause.Refuses t ∧ e.position = t.span.start ∧
    (∀ (τ : Type) [TokenStream τ] (other rest : τ), Gives other (before ++ [t]) rest →
      Returns other (.error e) rest) ∧
    ∃ after tree, parseTokens (TokenList.ofTokens (before ++ after)) = .ok tree

/-- A parse fails because of a token behind which it has pulled another. The parse of every stream
that begins with the tokens up to this one, and has one more, returns the same error. -/
def FailsBehind {σ : Type} [TokenSource σ] (source : σ) (e : Error) : Prop :=
  ∃ before t next, pulled source = before ++ [t, next] ∧ e.cause.Rejects t ∧
    e.position = t.span.start ∧ ∀ (τ : Type) [TokenStream τ] (other left rest : τ) (u : Token),
      Gives other (before ++ [t]) left → TokenStream.next left = (.ok u, rest) →
        Returns other (.error e) rest

theorem Cause.Refuses.not_rejects {cause : Cause} {t u : Token} (h : cause.Refuses t) :
    ¬ cause.Rejects u := by
  cases cause <;> simp_all [Cause.Refuses, Cause.Rejects]

namespace Parser

section

variable {σ : Type} [TokenStream σ] {source : σ} {v : Verdict Node} {us : List Token} {u : Token}
  {r : Except Error Node × Recorded σ}

theorem Parses.of_start (h : Parses (Recorded.start source) v us u r) :
    Parses source v us u (r.1, r.2.source) := by
  cases h with
  | value ht hts h => exact .value ht hts (Recorded.gives_iff.mp h).1
  | refused hr hts h => exact .refused hr hts (Recorded.gives_iff.mp h).1
  | rejected hr hts h => exact .rejected hr hts (Recorded.gives_iff.mp h).1
  | failed hts h hn =>
    exact .failed hts (Recorded.gives_iff.mp h).1 (Recorded.next_eq_error.mp hn).1

theorem Parses.exists_start {result : Except Error Node} {rest : σ}
    (h : Parses source v us u (result, rest)) :
    ∃ left, Parses (Recorded.start source) v us u (result, left) := by
  have hstart {ts : List Token} {rest : σ} (h : Gives source ts rest) :
      Gives (Recorded.start source) ts ⟨rest, ts.reverse⟩ :=
    Recorded.gives_iff.mpr ⟨h, by simp [Recorded.start]⟩
  cases h with
  | value ht hts h => exact ⟨_, .value ht hts (hstart h)⟩
  | refused hr hts h => exact ⟨_, .refused hr hts (hstart h)⟩
  | rejected hr hts h => exact ⟨_, .rejected hr hts (hstart h)⟩
  | failed hts h hn =>
    exact ⟨⟨rest, _⟩, .failed hts (hstart h) (Recorded.next_eq_error.mpr ⟨hn, rfl⟩)⟩

end

theorem parseFrom_start_eq {σ : Type} [TokenSource σ] (source : σ) :
    (parseFrom (Recorded.start source)).1 = parseTokens source := by
  rcases hn : TokenStream.next (Recorded.start source) with ⟨e | t, left⟩
  · have hs : TokenStream.next source = (.error e, left.source) :=
      (Recorded.next_eq_error.mp hn).1
    rw [parseFrom_of_error hn, parseTokens, parseFrom_of_error hs]
  · obtain ⟨v, ts, u, hp, hl⟩ := exists_parses (τ := σ) hn
    rw [parseTokens, hl source ts u _ (.refl ts) (.refl u) hp.of_start]

variable {ts : List Token} {e : Error}

theorem next_start (ts : List Token) :
    ∃ t rest, TokenStream.next (Recorded.start (TokenList.ofTokens ts)) = (.ok t, rest) := by
  obtain ⟨t, left, hn⟩ := TokenList.next_ofTokens ts
  exact ⟨t, ⟨TokenList.ofTokens left, [t]⟩, Recorded.next_eq_ok.mpr ⟨hn, rfl⟩⟩

theorem Parses.cases_of_error {v : Verdict Node} {us : List Token} {u : Token}
    {r : Except Error Node × Recorded TokenList}
    (hp : Parses (Recorded.start (TokenList.ofTokens ts)) v us u r) (he : r.1 = .error e) :
    e.position = u.span.start ∧ (∀ t ∈ us, t.kind ≠ .eof) ∧
      ((v = .refused e.cause ∧ e.cause.Refuses u ∧ r.2.given.reverse = us ++ [u]) ∨
        v = .rejected e.cause ∧ e.cause.Rejects u ∧ u.kind ≠ .eof ∧
          ∃ next, r.2.given.reverse = us ++ [u, next]) := by
  have hgiven : ∀ {ts' : List Token} {rest : Recorded TokenList},
      Gives (Recorded.start (TokenList.ofTokens ts)) ts' rest → rest.given.reverse = ts' :=
    fun h => by simp [(Recorded.gives_iff.mp h).2, Recorded.start]
  cases hp with
  | value => cases he
  | refused hr hus h =>
    cases he
    exact ⟨rfl, hus, .inl ⟨rfl, hr, hgiven h⟩⟩
  | rejected hr hus h =>
    cases he
    exact ⟨rfl, fun t ht => hus t (List.mem_append_left _ ht),
      .inr ⟨rfl, hr, hus _ (by simp), _, hgiven h⟩⟩
  | failed _ h hn =>
    obtain ⟨t, rest, hok⟩ := TokenList.next_of_gives (Recorded.gives_iff.mp h).1
    cases hok.symm.trans (Recorded.next_eq_error.mp hn).1

/-- Every stream that begins with the tokens up to a refused one is parsed alike. -/
theorem returns_of_refused {before : List Token} {t : Token} {τ : Type} [TokenStream τ]
    {other rest : τ} (h : parseTokens (TokenList.ofTokens ts) = .error e)
    (hp : pulled (TokenList.ofTokens ts) = before ++ [t]) (hr : e.cause.Refuses t)
    (hg : Gives other (before ++ [t]) rest) : Returns other (.error e) rest := by
  obtain ⟨t₀, left, hn⟩ := next_start ts
  obtain ⟨v, us, u, hparses, hl⟩ := exists_returns (τ := τ) hn
  obtain ⟨hpos, hus, ⟨rfl, -, hgiven⟩ | ⟨-, hj, -⟩⟩ :=
    hparses.cases_of_error ((parseFrom_start_eq _).trans h)
  · obtain ⟨rfl, hu⟩ := List.append_inj' (hgiven.symm.trans hp) rfl
    cases hu
    have hreturns := hl other rest _ _ _ (.refl us) (.refl t) (.refused hr hus hg)
    rwa [← hpos] at hreturns
  · exact absurd hj hr.not_rejects

theorem returns_of_rejected {before : List Token} {t next u : Token} {τ : Type}
    [TokenStream τ] {other rest : τ} (h : parseTokens (TokenList.ofTokens ts) = .error e)
    (hp : pulled (TokenList.ofTokens ts) = before ++ [t, next]) (hr : e.cause.Rejects t)
    (hg : Gives other (before ++ [t, u]) rest) : Returns other (.error e) rest := by
  obtain ⟨t₀, left, hn⟩ := next_start ts
  obtain ⟨v, us, t', hparses, hl⟩ := exists_returns (τ := τ) hn
  obtain ⟨hpos, hus, ⟨-, hf, -⟩ | ⟨rfl, -, hk, next', hgiven⟩⟩ :=
    hparses.cases_of_error ((parseFrom_start_eq _).trans h)
  · exact absurd hr hf.not_rejects
  · obtain ⟨rfl, hu⟩ := List.append_inj' (hgiven.symm.trans hp) rfl
    cases hu
    have hend : ∀ t'' ∈ us ++ [t], t''.kind ≠ .eof := by
      simpa [or_imp, forall_and] using ⟨hus, hk⟩
    have hreturns := hl other rest _ _ _ (.refl us) (.refl t) (.rejected hr hend hg)
    rwa [← hpos] at hreturns

/-- The tokens before a refused one can be continued to a program. -/
theorem exists_program_of_refused {before : List Token} {t : Token}
    (h : parseTokens (TokenList.ofTokens ts) = .error e)
    (hp : pulled (TokenList.ofTokens ts) = before ++ [t]) (hr : e.cause.Refuses t) :
    ∃ after tree, parseTokens (TokenList.ofTokens (before ++ after)) = .ok tree := by
  obtain ⟨t₀, left, hn⟩ := next_start ts
  obtain ⟨v, us, u, hparses, hv⟩ := exists_explained hn
  have h := (parseFrom_start_eq _).trans h
  obtain ⟨-, -, ⟨rfl, -, hgiven⟩ | ⟨-, hj, -⟩⟩ := hparses.cases_of_error h
  · obtain ⟨rfl, -⟩ := List.append_inj' (hgiven.symm.trans hp) rfl
    obtain ⟨after, tree, hd⟩ := hv
    refine ⟨after ++ [Token.eof 0], tree, ?_⟩
    rw [← List.append_assoc]
    exact parseTokens_eq_ok (TokenList.gives_ofTokens_self _) hd.endFree rfl hd
  · exact absurd hj hr.not_rejects

end Parser

/-- Errors are found at the earliest token that can tell. -/
theorem failsAtHand_or_failsBehind_of_parseTokens (ts : List Token) (e : Error)
    (h : parseTokens (TokenList.ofTokens ts) = .error e) :
    match e.cause with
    | .unexpectedToken .. | .unexpectedEnd _ | .unknownLiteral .. =>
      FailsAtHand (TokenList.ofTokens ts) e
    | .unknownOperator .. | .notAssignable _ | .invalidNumber _ =>
      FailsBehind (TokenList.ofTokens ts) e
    | .unmatchedText _ => False := by
  obtain ⟨t₀, left, hn⟩ := next_start ts
  obtain ⟨v, us, u, hparses, -⟩ := exists_parses (τ := TokenList) hn
  obtain ⟨hpos, -, ⟨-, hr, hgiven⟩ | ⟨-, hr, -, next, hgiven⟩⟩ :=
    hparses.cases_of_error ((parseFrom_start_eq _).trans h)
  · have hf : FailsAtHand (TokenList.ofTokens ts) e :=
      ⟨us, u, hgiven, hr, hpos, fun τ _ other rest => returns_of_refused h hgiven hr,
        exists_program_of_refused h hgiven hr⟩
    split <;> simp_all [Cause.Refuses]
  · have hf : FailsBehind (TokenList.ofTokens ts) e := by
      refine ⟨us, u, next, hgiven, hr, hpos, fun τ _ other left rest w hg hn => ?_⟩
      have hg : Gives other (us ++ [u, w]) rest := by
        rw [List.append_cons, gives_append]
        exact ⟨left, hg, rest, hn, rfl⟩
      exact returns_of_rejected h hgiven hr hg
    split <;> simp_all [Cause.Rejects]

theorem failsAtHand_and_failsBehind :
    FailsAtHand (TokenList.ofTokens [⟨.identifier, "x", ⟨0, 1⟩⟩, ⟨.closeParen, ")", ⟨1, 2⟩⟩])
      ⟨.unexpectedToken .closeParen ")" .semicolon, 1⟩ ∧
    FailsBehind (TokenList.ofTokens [⟨.thisWord, "this", ⟨0, 4⟩⟩, ⟨.simpleAssign, "=", ⟨4, 5⟩⟩])
      ⟨.notAssignable .thisExpr, 4⟩ := by
  have hr := failsAtHand_or_failsBehind_of_parseTokens
    [⟨.identifier, "x", ⟨0, 1⟩⟩, ⟨.closeParen, ")", ⟨1, 2⟩⟩]
    ⟨.unexpectedToken .closeParen ")" .semicolon, 1⟩ rfl
  have hb := failsAtHand_or_failsBehind_of_parseTokens
    [⟨.thisWord, "this", ⟨0, 4⟩⟩, ⟨.simpleAssign, "=", ⟨4, 5⟩⟩] ⟨.notAssignable .thisExpr, 4⟩ rfl
  exact ⟨hr, hb⟩

end Frontend
