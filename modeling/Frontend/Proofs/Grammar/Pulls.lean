import Frontend.Proofs.Grammar.Spans

/-! # One token ahead

A parser asks its source for a token only in front of one that is not the end of input. So
a parse that succeeds pulls the tokens up to the first end of input. One that fails pulls
those up to the token at hand, or one more where it has consumed the token that its error
is about.
-/

namespace Frontend

open ParserState TokenStream Frontend.Parser

/-- A source with the answers to all pulls so far, failures among them. -/
structure Watched (σ : Type) where
  source : σ
  answers : List (Except Error Token)

section

variable {σ : Type} [TokenStream σ]

namespace Watched

def start (source : σ) : Watched σ := ⟨source, []⟩

def next (watched : Watched σ) : Except Error Token × Watched σ :=
  let (answer, source) := TokenStream.next watched.source
  (answer, ⟨source, watched.answers ++ [answer]⟩)

theorem next_eq_iff {watched left : Watched σ} {answer : Except Error Token} :
    watched.next = (answer, left) ↔ TokenStream.next watched.source = (answer, left.source) ∧
      left.answers = watched.answers ++ [answer] := by
  rcases left with ⟨source, answers⟩
  rcases hn : TokenStream.next watched.source with ⟨answer', source'⟩
  rw [next, hn]
  constructor
  · rintro ⟨⟩
    exact ⟨rfl, rfl⟩
  · rintro ⟨⟨⟩, rfl⟩
    rfl

instance : TokenStream (Watched σ) where
  next := next

theorem gives_iff {watched rest : Watched σ} {ts : List Token} : Gives watched ts rest ↔
    Gives watched.source ts rest.source ∧ rest.answers = watched.answers ++ ts.map .ok := by
  induction ts generalizing watched with
  | nil =>
    rcases watched with ⟨source, answers⟩
    rcases rest with ⟨source', answers'⟩
    simp [eq_comm]
  | cons t ts ih =>
    constructor
    · rintro ⟨left, hn, h⟩
      obtain ⟨hn, hl⟩ := next_eq_iff.mp hn
      obtain ⟨h, hr⟩ := ih.mp h
      exact ⟨⟨left.source, hn, h⟩, by simp [hr, hl]⟩
    · rintro ⟨⟨left, hn, h⟩, hr⟩
      have hl : TokenStream.next watched = (.ok t, ⟨left, watched.answers ++ [.ok t]⟩) :=
        next_eq_iff.mpr ⟨hn, rfl⟩
      exact ⟨_, hl, ih.mpr ⟨h, by simpa using hr⟩⟩

theorem gives_start {source : σ} {rest : Watched σ} {ts : List Token}
    (h : Gives (start source) ts rest) : Gives source ts rest.source ∧ rest.answers = ts.map .ok :=
  gives_iff.mp h

end Watched

end

instance {σ : Type} [TokenSource σ] : TokenSource (Watched σ) where
  remaining watched := TokenSource.remaining watched.source
  remaining_next_le watched := TokenSource.remaining_next_le watched.source
  remaining_lt_of_next h hk := TokenSource.remaining_lt_of_next (Watched.next_eq_iff.mp h).1 hk

/-- With a token at hand, answers to pulls that are made only in front of tokens, never behind
the end of input or a failure. -/
inductive AsksInFront : Token → List (Except Error Token) → Prop where

  | done (t : Token) : AsksInFront t []

  | token {t u : Token} {answers : List (Except Error Token)} : t.kind ≠ .eof →
      AsksInFront u answers → AsksInFront t (.ok u :: answers)

  | failure {t : Token} (e : Error) : t.kind ≠ .eof → AsksInFront t [.error e]

theorem AsksInFront.eq_nil {t : Token} {answers : List (Except Error Token)}
    (h : AsksInFront t answers) (ht : t.kind = .eof) : answers = [] := by
  cases h with
  | done => rfl
  | token hk | failure _ hk => exact absurd ht hk

def Parser.left {σ α : Type} : EStateM.Result Halt (ParserState σ) α → ParserState σ
  | .ok _ s | .error _ s => s

section

variable {σ : Type} [TokenStream σ] {s s₁ : ParserState (Watched σ)} {ts : List Token}

theorem ParserState.Consumes.asksInFront (h : s.Consumes ts s₁) :
    ∃ answers, s₁.source.answers = s.source.answers ++ answers ∧
      ∀ more, AsksInFront s₁.lookahead more → AsksInFront s.lookahead (answers ++ more) := by
  induction ts generalizing s with
  | nil =>
    obtain rfl := consumes_nil.mp h
    exact ⟨[], by simp, fun more hm => hm⟩
  | cons t ts ih =>
    obtain ⟨rfl, hk, next, source, hn, h⟩ := h
    obtain ⟨answers, ha, hmore⟩ := ih h
    refine ⟨.ok next :: answers, ?_, fun more hm => .token hk (hmore more hm)⟩
    rw [ha, (Watched.next_eq_iff.mp hn).2, List.append_assoc]
    rfl

theorem Parser.Ends.asksInFront {α : Type} {v : Verdict α} {t : Token}
    {r : EStateM.Result Halt (ParserState (Watched σ)) α} (h : Ends s v ts t r) :
    ∃ answers, (left r).source.answers = s.source.answers ++ answers ∧
      AsksInFront s.lookahead answers := by
  cases h with
  | value hc | refused hc | rejected hc =>
    obtain ⟨answers, ha, hmore⟩ := hc.asksInFront
    exact ⟨answers, ha, by simpa using hmore [] (.done _)⟩
  | @failed e _ s₁ source hc hk hn =>
    obtain ⟨answers, ha, hmore⟩ := hc.asksInFront
    refine ⟨answers ++ [.error e], ?_, hmore _ (.failure e hk)⟩
    change source.answers = _
    rw [(Watched.next_eq_iff.mp hn).2, ha, List.append_assoc]

end

/-- No production asks for a token once the end of input is at hand. -/
theorem Production.asksInFront {σ : Type} [TokenSource σ] {s : ParserState (Watched σ)}
    (p : Production) (hs : s.IsStandard) :
    ∃ answers, (left (p.parser s)).source.answers = s.source.answers ++ answers ∧
      AsksInFront s.lookahead answers := by
  obtain ⟨v, ts, t, h, -⟩ := p.local_parse (τ := Watched σ) hs
  exact h.asksInFront

variable {σ : Type} [TokenSource σ]

/-- The answers to the pulls that a parse makes, in order. -/
def asked (source : σ) : List (Except Error Token) :=
  (parseFrom (Watched.start source)).2.answers

/-- Where the pulls of a parse stop that has a result, the tokens among the answers, and all of
them. -/
inductive Stops (source : σ) :
    Except Error Node → List Token → List (Except Error Token) → Prop where

  | tree {tree : Node} {ts : List Token} {t : Token} {rest : σ} : t.kind = .eof →
      (∀ t ∈ ts, t.kind ≠ .eof) → Gives source (ts ++ [t]) rest →
      Stops source (.ok tree) (ts ++ [t]) ((ts ++ [t]).map .ok)

  | refused {cause : Cause} {ts : List Token} {t : Token} {rest : σ} : cause.Refuses t →
      (∀ t ∈ ts, t.kind ≠ .eof) → Gives source (ts ++ [t]) rest →
      Stops source (.error ⟨cause, t.span.start⟩) (ts ++ [t]) ((ts ++ [t]).map .ok)

  | rejected {cause : Cause} {ts : List Token} {t next : Token} {rest : σ} : cause.Rejects t →
      (∀ t' ∈ ts ++ [t], t'.kind ≠ .eof) → Gives source (ts ++ [t, next]) rest →
      Stops source (.error ⟨cause, t.span.start⟩) (ts ++ [t, next]) ((ts ++ [t, next]).map .ok)

  | failed {e : Error} {ts : List Token} {left rest : σ} : (∀ t ∈ ts, t.kind ≠ .eof) →
      Gives source ts left → TokenStream.next left = (.error e, rest) →
      Stops source (.error e) ts (ts.map .ok ++ [.error e])

theorem Recorded.gives_of_watched {source : σ} {rest : Watched σ} {ts : List Token}
    (h : Gives (Watched.start source) ts rest) :
    Gives (Recorded.start source) ts ⟨rest.source, ts.reverse⟩ :=
  Recorded.gives_iff.mpr ⟨(Watched.gives_start h).1, by simp [Recorded.start]⟩

theorem stops_parse (source : σ) :
    Stops source (parseTokens source) (pulled source) (asked source) := by
  rw [← parseFrom_start_eq, pulled, asked]
  rcases hn : TokenStream.next (Watched.start source) with ⟨e | t, left⟩
  · obtain ⟨hs, ha⟩ := Watched.next_eq_iff.mp hn
    have hr : TokenStream.next (Recorded.start source) = (.error e, ⟨left.source, []⟩) :=
      Recorded.next_eq_error.mpr ⟨hs, rfl⟩
    rw [parseFrom_of_error hn, parseFrom_of_error hr, ha]
    exact .failed (by simp) rfl hs
  · obtain ⟨v, ts, u, hp, hl⟩ := exists_parses (τ := Recorded σ) hn
    replace hl := fun r => hl (Recorded.start source) ts u r (.refl ts) (.refl u)
    generalize parseFrom (Watched.start source) = r at hp
    cases hp with
    | value hu hts h =>
      rw [hl _ (.value hu hts (Recorded.gives_of_watched h)), (Watched.gives_start h).2,
        List.reverse_reverse]
      exact .tree hu hts (Watched.gives_start h).1
    | refused hr hts h =>
      rw [hl _ (.refused hr hts (Recorded.gives_of_watched h)), (Watched.gives_start h).2,
        List.reverse_reverse]
      exact .refused hr hts (Watched.gives_start h).1
    | rejected hr hts h =>
      rw [hl _ (.rejected hr hts (Recorded.gives_of_watched h)), (Watched.gives_start h).2,
        List.reverse_reverse]
      exact .rejected hr hts (Watched.gives_start h).1
    | @failed e ts u left rest hts h hn' =>
      obtain ⟨hg, hgiven⟩ := Watched.gives_start h
      obtain ⟨hn', hlast⟩ := Watched.next_eq_iff.mp hn'
      have hr : TokenStream.next (⟨left.source, (ts ++ [u]).reverse⟩ : Recorded σ) =
          (.error e, ⟨rest.source, (ts ++ [u]).reverse⟩) :=
        Recorded.next_eq_error.mpr ⟨hn', rfl⟩
      rw [hl _ (.failed hts (Recorded.gives_of_watched h) hr), hlast, hgiven, List.reverse_reverse]
      exact .failed hts hg hn'

/-- What the last pull of a parse is for, by its result: the end of input, the token at hand that
an error is about, the one behind the token that an error is about, or no token at all. -/
def PullsUpTo (answers : List (Except Error Token)) : Except Error Node → Prop
  | .ok _ =>
    ∃ (ts : List Token) (t : Token),
      answers = (ts ++ [t]).map .ok ∧ (∀ u ∈ ts, u.kind ≠ .eof) ∧ t.kind = .eof
  | .error e =>
    match e.cause with
    | .unexpectedToken .. | .unexpectedEnd _ | .unknownLiteral .. =>
      ∃ (ts : List Token) (t : Token), answers = (ts ++ [t]).map .ok ∧ e.cause.Refuses t ∧
        e.position = t.span.start
    | .unknownOperator .. | .notAssignable _ | .invalidNumber _ =>
      ∃ (ts : List Token) (t next : Token), answers = (ts ++ [t, next]).map .ok ∧
        e.cause.Rejects t ∧ e.position = t.span.start
    | .unmatchedText _ => ∃ ts : List Token, answers = ts.map .ok ++ [.error e]

namespace Lexer

/-- The answers that a parse gets begin those that there are. -/
theorem prefix_answers_of_stops {lexer : Lexer} {result : Except Error Node} {ts : List Token}
    {asked : List (Except Error Token)} (h : Stops lexer result ts asked) :
    asked <+: lexer.answers := by
  have hgiven : ∀ {ts t rest}, (∀ t ∈ ts, t.kind ≠ .eof) → Gives lexer (ts ++ [t]) rest →
      (ts ++ [t]).map .ok <+: lexer.answers := fun hts hg =>
    ((prefix_run_of_gives hts hg).map Except.ok).trans (List.prefix_append _ _)
  cases h with
  | tree _ hts hg | refused _ hts hg => exact hgiven hts hg
  | rejected _ hts hg =>
    rw [List.append_cons] at hg ⊢
    exact hgiven hts hg
  | failed hts hg hn => exact answers_of_error hts hg hn ▸ List.prefix_refl _

theorem pullsUpTo_of_stops {lexer : Lexer} {result : Except Error Node} {ts : List Token}
    {asked : List (Except Error Token)} (h : Stops lexer result ts asked) :
    PullsUpTo asked result := by
  cases h with
  | tree ht hts => exact ⟨_, _, rfl, hts, ht⟩
  | @refused cause ts t _ hr =>
    cases cause with
    | unexpectedToken | unexpectedEnd | unknownLiteral => exact ⟨ts, t, rfl, hr, rfl⟩
    | _ => cases hr
  | @rejected cause ts t next _ hr =>
    cases cause with
    | unknownOperator | notAssignable | invalidNumber => exact ⟨ts, t, next, rfl, hr, rfl⟩
    | _ => cases hr
  | @failed e ts _ _ _ _ hn =>
    have hl := isLexical_of_next hn
    obtain ⟨cause, position⟩ := e
    cases cause with
    | unmatchedText => exact ⟨ts, rfl⟩
    | _ => cases hl

end Lexer

theorem Stops.filterMap_asked {source : σ} {result : Except Error Node} {ts : List Token}
    {asked : List (Except Error Token)} (h : Stops source result ts asked) :
    asked.filterMap Except.toOption = ts := by
  have hmap (us : List Token) :
      (us.map .ok : List (Except Error Token)).filterMap Except.toOption = us := by
    rw [List.filterMap_map]
    exact List.filterMap_some
  cases h with
  | tree | refused | rejected => exact hmap _
  | failed =>
    rw [List.filterMap_append, hmap]
    exact List.append_nil _

end Frontend
