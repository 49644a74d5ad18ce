import Mathlib.Data.Stream.Init
import Mathlib.Logic.Relation
import Frontend.Proofs.Grammar.Advance
import Frontend.Proofs.Grammar.Depth
import Frontend.Proofs.Grammar.Returning

/-! # What calls leave over

A call that returns takes tokens off the stream at hand, which may never end, and leaves the rest
of it. The error that it fails with describes the first token that is left or the last one that
was taken. So a parser can be called again after a failure: what its calls have taken and what is
at hand are the tokens that were pulled, even if pulls have failed.
-/

namespace Frontend

open ParserState TokenStream Frontend.Parser

section

variable {σ : Type} [TokenStream σ] {α : Type} {s s₁ : ParserState σ} {ts : List Token}

/-- A stream none of whose pulls fails. -/
def TokenStream.Infallible (source : σ) : Prop := ∀ n, ∃ t, pull n source = .ok t

theorem TokenStream.Infallible.after {source rest : σ} {r : Except Error Token}
    (h : Infallible source) (hn : TokenStream.next source = (r, rest)) :
    (∃ t, r = .ok t) ∧ Infallible rest := by
  have hrest (n : ℕ) : pull n rest = pull (n + 1) source := by rw [pull, hn]
  refine ⟨?_, fun n => hrest n ▸ h (n + 1)⟩
  have hfirst := h 0
  rwa [pull, hn] at hfirst

namespace ParserState

/-- The token at hand and the answers to all pulls still to come. -/
def stream (s : ParserState σ) : Stream' (Except Error Token) :=
  .cons (.ok s.lookahead) fun n => pull n s.source

theorem stream_eq_cons {next : Token} {source : σ}
    (hn : TokenStream.next s.source = (.ok next, source)) :
    s.stream = .cons (.ok s.lookahead) { s with source, lookahead := next }.stream := by
  funext n
  obtain _ | _ | n := n
  · rfl
  · change pull 0 s.source = .ok next
    rw [pull, hn]
  · change pull (n + 1) s.source = pull n source
    rw [pull, hn]

theorem Advances.stream_eq (h : s.Advances ts s₁) (hi : Infallible s.source) :
    s.stream = ts.map .ok ++ₛ s₁.stream ∧ Infallible s₁.source := by
  induction h with
  | refl => exact ⟨rfl, hi⟩
  | taken ht _ ih =>
    obtain ⟨rfl, next, source, hn, rfl⟩ := advance_eq_ok.mp ht
    obtain ⟨hs, hi'⟩ := ih (hi.after hn).2
    exact ⟨(stream_eq_cons hn).trans (congrArg (Stream'.cons _) hs), hi'⟩
  | failed hf =>
    obtain ⟨e, source, hn, -, -⟩ := advance_eq_error.mp hf
    obtain ⟨t, ht⟩ := (hi.after hn).1
    cases ht
  | registered hr _ ih =>
    cases hr
    exact ih hi

theorem Advances.pulled_eq {s s₁ : ParserState (Watched σ)} (h : s.Advances ts s₁)
    (before : List Token)
    (hs : s.source.answers.filterMap Except.toOption = before ++ [s.lookahead]) :
    s₁.source.answers.filterMap Except.toOption = before ++ ts ++ [s₁.lookahead] := by
  induction h generalizing before with
  | refl => rwa [List.append_nil]
  | @taken _ _ _ t ts ht _ ih =>
    obtain ⟨rfl, next, source, hn, rfl⟩ := advance_eq_ok.mp ht
    rw [List.append_cons before]
    refine ih _ ?_
    change source.answers.filterMap _ = _
    rw [(Watched.next_eq_iff.mp hn).2, List.filterMap_append, hs]
    rfl
  | failed hf _ ih =>
    obtain ⟨e, source, hn, -, rfl⟩ := advance_eq_error.mp hf
    refine ih _ ?_
    change source.answers.filterMap _ = _
    rw [(Watched.next_eq_iff.mp hn).2, List.filterMap_append, hs]
    exact List.append_nil _
  | registered hr _ ih =>
    cases hr
    exact ih before hs

end ParserState

/-- The token that an error describes, by its cause: the one at hand or the last one taken. -/
def Error.Describes (e : Error) (taken : List Token) (lookahead : Token) : Prop :=
  match e.cause with
  | .unexpectedToken .. | .unexpectedEnd _ | .unknownLiteral .. =>
    e.cause.Refuses lookahead ∧ e.position = lookahead.span.start
  | .unknownOperator .. | .notAssignable _ | .invalidNumber _ =>
    ∃ t, taken.getLast? = some t ∧ e.cause.Rejects t ∧ e.position = t.span.start
  | .unmatchedText _ => False

theorem Cause.Refuses.describes {cause : Cause} {t : Token} (h : cause.Refuses t)
    (taken : List Token) : Error.Describes ⟨cause, t.span.start⟩ taken t := by
  cases cause with
  | unexpectedToken | unexpectedEnd | unknownLiteral => exact ⟨h, rfl⟩
  | _ => cases h

theorem Cause.Rejects.describes {cause : Cause} {t : Token} (h : cause.Rejects t)
    (taken : List Token) (lookahead : Token) :
    Error.Describes ⟨cause, t.span.start⟩ (taken ++ [t]) lookahead := by
  have hlast : (taken ++ [t]).getLast? = some t := List.getLast?_concat
  cases cause with
  | unknownOperator | notAssignable | invalidNumber => exact ⟨t, hlast, h, rfl⟩
  | _ => cases h

/-- What a run takes and leaves: the stream is cut in two, and an error describes a token where
it is cut. -/
structure Parser.Cuts (s : ParserState σ) (ts : List Token)
    (r : EStateM.Result Halt (ParserState σ) α) : Prop where
  advances : s.Advances ts (left r)
  stream_eq : s.stream = ts.map .ok ++ₛ (left r).stream
  describes : ∀ halt s₁, r = .error halt s₁ →
    ∃ e, halt = .error e ∧ e.Describes ts s₁.lookahead

namespace Parser

theorem Cuts.value {a : α} (hi : Infallible s.source) (h : s.Advances ts s₁) :
    Cuts s ts (.ok a s₁) := ⟨h, (h.stream_eq hi).1, by simp⟩

theorem Cuts.error {e : Error} (hi : Infallible s.source) (h : s.Advances ts s₁)
    (he : e.Describes ts s₁.lookahead) :
    Cuts s ts (.error (.error e) s₁ : EStateM.Result Halt (ParserState σ) α) :=
  ⟨h, (h.stream_eq hi).1, by rintro _ _ ⟨⟩; exact ⟨e, rfl, he⟩⟩

theorem Ends.exists_cuts {v : Verdict α} {t : Token} {r : EStateM.Result Halt (ParserState σ) α}
    (h : Ends s v ts t r) (hi : Infallible s.source) : ∃ us, Cuts s us r := by
  cases h with
  | value hc => exact ⟨ts, .value hi hc.advances⟩
  | refused hc hr => exact ⟨ts, .error hi hc.advances (hr.describes ts)⟩
  | rejected hc hr => exact ⟨ts ++ [t], .error hi hc.advances (hr.describes ts _)⟩
  | failed hc _ hn =>
    obtain ⟨u, hu⟩ := ((hc.advances.stream_eq hi).2.after hn).1
    cases hu

theorem cuts_advance (hi : Infallible s.source) : ∃ ts, Cuts s ts (advance s) := by
  cases he : advance s with
  | ok t s₁ => exact ⟨[t], .value hi (.taken he (.refl s₁))⟩
  | error halt s₁ =>
    obtain ⟨e, source, hn, -, -⟩ := advance_eq_error.mp he
    obtain ⟨t, ht⟩ := (hi.after hn).1
    cases ht

end Parser

end

variable {σ : Type} {α : Type} {ts : List Token}

namespace Parser

section

variable [TokenSource σ] {s : ParserState σ}

/-- What can be called on a parser: its productions and what they share, single tokens, and the
registration of a handler. -/
inductive IsCall : {α : Type} → Parser σ α → Prop where

  | part {α : Type} {strict : Bool} {p : Parser σ α} : IsPart strict p → IsCall p

  | consume (kind : TokenKind) : IsCall (consume kind)

  | advance : IsCall advance

  | register (kind : TokenKind) (production : Production) : IsCall (register kind production)

theorem IsCall.exists_cuts {p : Parser σ α} (h : IsCall p) (hs : s.IsStandard)
    (hi : Infallible s.source) : ∃ ts, Cuts s ts (p s) := by
  cases h with
  | part hp =>
    -- How a part ends says which token its error is about. A single call may also meet the end
    -- of input, which parts never take, so it is followed step by step.
    obtain ⟨v, ts, t, he, -⟩ :=
      hp.form.local (fun r _ hs _ => r.local_parse hs) hs trivial (Nat.le_refl _)
    exact he.exists_cuts hi
  | consume kind =>
    by_cases hk : s.lookahead.kind = kind
    · rw [consume_of_eq hk]
      exact cuts_advance hi
    · rw [consume_of_ne hk, refuse_apply]
      exact ⟨[], .error hi (.refl s) ((mismatch_refuses kind _).describes [])⟩
  | advance => exact cuts_advance hi
  | register kind production => exact ⟨[], .value hi (.registered rfl (.refl _))⟩

theorem IsPart.advancing {strict : Bool} {p : Parser σ α} (h : IsPart strict p) : Advancing p := by
  have hall : ∀ p : Production, Advancing (p.parser : Parser σ Node) := Production.advancing
  cases h with
  | production p => exact p.advancing
  | operators build operand => exact .leftAssociative operand.advancing
  | calls callee => exact .calls hall callee
  | arguments => exact .arguments hall
  | condition => exact .condition hall
  | program =>
    exact (hall .statement).bind fun first => (Advancing.statements hall .eof).bind fun rest =>
      .pure (Node.program (first :: rest))
  | statements stop => exact .statements hall stop

theorem IsCall.advancing {p : Parser σ α} (h : IsCall p) : Advancing p := by
  cases h with
  | part hp => exact hp.advancing
  | consume kind => exact .consume kind
  | advance => exact .advance
  | register kind production => exact .register kind production

end

def withoutMeter : EStateM.Result Halt (ParserState (Metered σ)) α →
    EStateM.Result Halt (ParserState σ) α
  | .ok a s => .ok a s.unmetered
  | .error halt s => .error halt s.unmetered

theorem left_withoutMeter (r : EStateM.Result Halt (ParserState (Metered σ)) α) :
    left (withoutMeter r) = (left r).unmetered := by
  cases r <;> rfl

variable [TokenStream σ]

/-- A call in front of a state returns a result: so it does behind some meter that it does not use
up. Where tokens never end, there may be none. -/
def Yields (p : Parser (Metered σ) α) (s : ParserState σ)
    (r : EStateM.Result Halt (ParserState σ) α) : Prop :=
  ∃ n, (left (p (s.metered n))).source.pulls ≠ 0 ∧ r = withoutMeter (p (s.metered n))

end Parser

namespace ParserState

variable [TokenStream σ]

theorem Advances.unmetered {s s₁ : ParserState (Metered σ)} (h : s.Advances ts s₁)
    (hm : s₁.source.pulls ≠ 0) :
    s.source.pulls ≠ 0 ∧ s.unmetered.Advances ts s₁.unmetered := by
  induction h with
  | refl s => exact ⟨hm, .refl s.unmetered⟩
  | @taken s _ _ _ _ ht _ ih =>
    obtain ⟨rfl, next, source, hn, rfl⟩ := advance_eq_ok.mp ht
    obtain ⟨hs, h⟩ := ih hm
    obtain ⟨hn, hpulls⟩ := (Metered.next_eq_iff hs).mp hn
    exact ⟨hpulls ▸ Nat.succ_ne_zero _,
      .taken (advance_eq_ok.mpr ⟨rfl, next, source.source, hn, rfl⟩) h⟩
  | @failed s _ _ _ _ hf _ ih =>
    obtain ⟨e, source, hn, rfl, rfl⟩ := advance_eq_error.mp hf
    obtain ⟨hs, h⟩ := ih hm
    obtain ⟨hn, hpulls⟩ := (Metered.next_eq_iff hs).mp hn
    exact ⟨hpulls ▸ Nat.succ_ne_zero _,
      .failed (advance_eq_error.mpr ⟨e, source.source, hn, rfl, rfl⟩) h⟩
  | registered hr _ ih =>
    cases hr
    obtain ⟨hs, h⟩ := ih hm
    exact ⟨hs, .registered rfl h⟩

theorem Consumes.metered {s s₁ : ParserState σ} (h : s.Consumes ts s₁) (n : ℕ) :
    (s.metered (n + ts.length)).Consumes ts (s₁.metered n) := by
  induction ts generalizing s with
  | nil => exact consumes_nil.mp h ▸ rfl
  | cons t ts ih =>
    obtain ⟨ht, hk, next, source, hn, h⟩ := h
    exact ⟨ht, hk, next, ⟨source, n + ts.length⟩, Metered.next_succ hn _, ih h⟩

end ParserState

theorem TokenStream.Infallible.metered [TokenStream σ] {source : σ} (h : Infallible source)
    (n : ℕ) : Infallible (⟨source, n⟩ : Metered σ) := by
  intro k
  induction k generalizing source n with
  | zero =>
    cases n with
    | zero => exact ⟨Token.eof 0, rfl⟩
    | succ n => exact h 0
  | succ k ih =>
    cases n with
    | zero => exact ih h 0
    | succ n => exact ih (h.after rfl).2 n

namespace Parser

variable [TokenStream σ] {s s₁ : ParserState σ}

theorem Yields.exists_advances {p : Parser (Metered σ) α}
    {r : EStateM.Result Halt (ParserState σ) α} (h : Yields p s r) (hp : IsCall p) :
    ∃ ts, s.Advances ts (left r) := by
  obtain ⟨n, hm, rfl⟩ := h
  obtain ⟨ts, ht⟩ := hp.advancing (s.metered n)
  rw [left_withoutMeter]
  exact ⟨ts, (ht.unmetered hm).2⟩

theorem Ends.exists_metered {v : Verdict α} {t : Token} {r : EStateM.Result Halt (ParserState σ) α}
    (h : Ends s v ts t r) : ∃ n r', Ends (s.metered n) v ts t r' ∧ (left r').source.pulls ≠ 0 ∧
      r = withoutMeter r' := by
  cases h with
  | @value a _ s₁ hc => exact ⟨_, .ok a (s₁.metered 1), .value (hc.metered 1), Nat.one_ne_zero, rfl⟩
  | @refused cause _ s₁ hc hr =>
    exact ⟨_, .error _ (s₁.metered 1), .refused (hc.metered 1) hr, Nat.one_ne_zero, rfl⟩
  | @rejected cause _ _ s₁ hc hr =>
    exact ⟨_, .error _ (s₁.metered 1), .rejected (hc.metered 1) hr, Nat.one_ne_zero, rfl⟩
  | @failed e _ s₁ rest hc hk hn =>
    exact ⟨_, _, .failed (hc.metered 2) hk (Metered.next_succ hn 1), Nat.one_ne_zero, rfl⟩

/-- In front of a source that runs dry a production returns, with the result that it has there. -/
theorem yields_production {σ : Type} [TokenSource σ] (p : Production) {s : ParserState σ}
    (hs : s.IsStandard) : Yields p.parser s (p.parser s) := by
  obtain ⟨v, ts, t, he, hl⟩ := p.local_parse (τ := Metered σ) hs
  obtain ⟨n, r, hends, hm, hr⟩ := he.exists_metered
  have hrun := hl (s.metered n) ts t r hs (.refl ts) (.refl t) hends
  exact ⟨n, hrun ▸ hm, hrun ▸ hr⟩

theorem Cuts.withoutMeter {n : ℕ} {r : EStateM.Result Halt (ParserState (Metered σ)) α}
    (h : Cuts (s.metered n) ts r) (hm : (left r).source.pulls ≠ 0) (hi : Infallible s.source) :
    Cuts s ts (withoutMeter r) := by
  have ht : s.Advances ts (left (Parser.withoutMeter r)) := by
    rw [left_withoutMeter]
    exact (h.advances.unmetered hm).2
  refine ⟨ht, (ht.stream_eq hi).1, ?_⟩
  cases r with
  | ok a s₁ =>
    intro _ _ he
    simp only [Parser.withoutMeter, reduceCtorEq] at he
  | error halt s₁ =>
    intro _ _ he
    simp only [Parser.withoutMeter, EStateM.Result.error.injEq] at he
    obtain ⟨rfl, rfl⟩ := he
    exact h.describes halt s₁ rfl

/-- One call on a parser leads from a state to the one it leaves, whatever it returns. -/
def Called (s s₁ : ParserState σ) : Prop :=
  ∃ (α : Type) (p : Parser (Metered σ) α) (r : EStateM.Result Halt (ParserState σ) α),
    IsCall p ∧ Yields p s r ∧ left r = s₁

theorem exists_advances_of_called (h : Relation.ReflTransGen Called s s₁) :
    ∃ ts, s.Advances ts s₁ := by
  induction h with
  | refl => exact ⟨[], .refl s⟩
  | tail _ hcall ih =>
    obtain ⟨ts, ht⟩ := ih
    obtain ⟨α, p, r, hp, hr, rfl⟩ := hcall
    obtain ⟨us, hu⟩ := hr.exists_advances hp
    exact ⟨ts ++ us, ht.trans hu⟩

theorem filterMap_answers_of_start {source : σ} {rest : Watched σ} {s : ParserState (Watched σ)}
    (h : start (Watched.start source) = (.ok s, rest)) :
    s.source.answers.filterMap Except.toOption = [s.lookahead] := by
  unfold start at h
  split at h
  · rename_i t left hn
    cases h
    rw [(Watched.next_eq_iff.mp hn).2]
    rfl
  · cases h

/-- A call that returns on an infallible stream cuts what is at hand in two, and its error
describes a token there. On a source that runs dry, productions return, and every call cuts. Where
the stream fails, the token at hand is kept, so that over any calls the tokens taken and the one at
hand are those pulled. -/
theorem calls_cut_stream_and_keep_pulled :
    (∀ {α : Type} {p : Parser (Metered σ) α} (s : ParserState σ)
      (r : EStateM.Result Halt (ParserState σ) α), IsCall p → s.IsStandard →
        Infallible s.source → Yields p s r → ∃ ts, Cuts s ts r) ∧
    (∀ {τ : Type} [TokenSource τ] (s : ParserState τ), s.IsStandard →
      (∀ p : Production, Yields p.parser s (p.parser s)) ∧
      ∀ {α : Type} {p : Parser τ α}, IsCall p → Infallible s.source → ∃ ts, Cuts s ts (p s)) ∧
    (∀ (kind : TokenKind) (s : ParserState σ) (e : Error) (rest : σ), s.lookahead.kind = kind →
      TokenStream.next s.source = (.error e, rest) →
        consume kind s = .error (.error e) { s with source := rest }) ∧
    ∀ (source : σ) (rest : Watched σ) (s s₁ : ParserState (Watched σ)),
      start (Watched.start source) = (.ok s, rest) → Relation.ReflTransGen Called s s₁ →
        ∃ ts, s.Advances ts s₁ ∧
          s₁.source.answers.filterMap Except.toOption = ts ++ [s₁.lookahead] := by
  refine ⟨?_, fun s hs => ⟨fun p => yields_production p hs, fun hp => hp.exists_cuts hs⟩,
    fun kind s e rest hk hn => ?_, fun source rest s s₁ hstart hcalls => ?_⟩
  · rintro α p s _ hp hs hi ⟨n, hm, rfl⟩
    obtain ⟨ts, ht⟩ := hp.exists_cuts (s := s.metered n) hs (hi.metered n)
    exact ⟨ts, ht.withoutMeter hm hi⟩
  · rw [consume_of_eq hk]
    exact advance_error hn
  · obtain ⟨ts, ht⟩ := exists_advances_of_called hcalls
    exact ⟨ts, ht, ht.pulled_eq [] (filterMap_answers_of_start hstart)⟩

/-- A statement stops in front of the second of names that never end. Where the first pull behind a
name fails, a statement fails with the name at hand, and one more call takes it and a semicolon. -/
theorem calls_cut_stream_and_keep_pulled_retry :
    let name (n : ℕ) : Token := ⟨.identifier, "a", ⟨n, n + 1⟩⟩
    let names : Stream' (Except Error Token) := fun n => .ok (name (n + 1))
    let stopped := facing (name 1) names.tail
    let semicolon : Token := ⟨.semicolon, ";", ⟨2, 3⟩⟩
    let failure : Error := ⟨.unmatchedText "?", 1⟩
    let first : ParserState (Watched TokenList) :=
      facing (name 0) ⟨⟨[.error failure, .ok semicolon]⟩, [.ok (name 0)]⟩
    let again : ParserState (Watched TokenList) :=
      facing (name 0) ⟨⟨[.ok semicolon]⟩, [.ok (name 0), .error failure]⟩
    let last : ParserState (Watched TokenList) := facing (Token.eof 0)
      ⟨⟨[]⟩, [.ok (name 0), .error failure, .ok semicolon, .ok (Token.eof 0)]⟩
    (∃ ts, Cuts (facing (name 0) names) ts
      (.error (.error ⟨.unexpectedToken .identifier "a" .semicolon, 1⟩) stopped :
        EStateM.Result Halt (ParserState (Stream' (Except Error Token))) Node)) ∧
    consume .identifier (facing (name 0) (⟨[.error failure, .ok semicolon]⟩ : TokenList)) =
      .error (.error failure) (facing (name 0) ⟨[.ok semicolon]⟩) ∧
    Called first again ∧ Called again last ∧ ∃ ts, first.Advances ts last ∧
      last.source.answers.filterMap Except.toOption = ts ++ [last.lookahead] := by
  intro name names stopped semicolon failure first again last
  have hagain : Called first again :=
    ⟨Node, Production.statement.parser, .error (.error failure) again,
      .part (.production .statement), ⟨3, by decide, rfl⟩, rfl⟩
  have hlast : Called again last :=
    ⟨Node, Production.statement.parser, .ok (.exprStmt (.identifier "a")) last,
      .part (.production .statement), ⟨3, by decide, rfl⟩, rfl⟩
  refine ⟨?_, ?_, hagain, hlast, ?_⟩
  · refine calls_cut_stream_and_keep_pulled.1 (p := Production.statement.parser) _ _
      (.part (.production .statement)) rfl (fun n => ?_) ⟨2, by decide, rfl⟩
    exact ⟨name (n + 1), pull_answers names n⟩
  · exact calls_cut_stream_and_keep_pulled.2.2.1 _ _ failure _ rfl rfl
  · exact calls_cut_stream_and_keep_pulled.2.2.2 ⟨[.ok (name 0), .error failure, .ok semicolon]⟩ _
      first _ rfl (.tail (.single hagain) hlast)

end Parser

end Frontend
