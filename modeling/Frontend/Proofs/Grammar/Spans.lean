import Frontend.Proofs.Grammar.Accepted
import Frontend.Proofs.Grammar.Earliest

/-! # Spans do not matter

Two streams whose pulls differ in the spans of their tokens at most are parsed
alike. If one parse returns, so does the other. Both pull as many tokens then, and
they end with one tree, with an error of one cause about tokens of one number, or
with the error of a pull.
-/

namespace Frontend

open ParserState TokenStream Frontend.Parser

namespace Token

theorem Alike.symm {t u : Token} (h : t.Alike u) : u.Alike t := ⟨h.kind.symm, h.value.symm⟩

theorem AllAlike.symm {ts us : List Token} (h : AllAlike ts us) : AllAlike us ts :=
  h.flip.imp fun _ _ => Alike.symm

theorem AllAlike.concat {ts ws : List Token} {t : Token} (h : AllAlike (ts ++ [t]) ws) :
    ∃ us u, AllAlike ts us ∧ t.Alike u ∧ ws = us ++ [u] := by
  obtain ⟨us, us', hus, hu, rfl⟩ := h.append_left
  obtain ⟨u, rest, ht, hrest, rfl⟩ := List.forall₂_cons_left_iff.mp hu
  cases hrest
  exact ⟨us, u, hus, ht, rfl⟩

theorem AllAlike.ne_eof {ts us : List Token} (h : AllAlike ts us)
    (hts : ∀ t ∈ ts, t.kind ≠ .eof) : ∀ u ∈ us, u.kind ≠ .eof :=
  h.symm.forall_kind (P := (· ≠ .eof)) hts

end Token

namespace Cause

variable {cause : Cause} {t u : Token}

theorem Refuses.alike (h : cause.Refuses t) (hu : t.Alike u) : cause.Refuses u := by
  cases cause <;> simp_all [Refuses, hu.kind, hu.value]

theorem Rejects.alike (h : cause.Rejects t) (hu : t.Alike u) : cause.Rejects u := by
  cases cause <;> simp_all [Rejects, hu.kind, hu.value]

end Cause

variable {σ τ : Type} [TokenStream σ] [TokenStream τ] {source rest : σ} {other : τ}
  {ts us : List Token} {t : Token} {e : Error} {n : ℕ}

namespace TokenStream

/-- Pulls that give tokens which differ in spans at most, or that fail with the same error. -/
inductive PullAlike : Except Error Token → Except Error Token → Prop where

  | token {t u : Token} : t.Alike u → PullAlike (.ok t) (.ok u)

  | failure (e : Error) : PullAlike (.error e) (.error e)

theorem PullAlike.symm {r r' : Except Error Token} (h : PullAlike r r') : PullAlike r' r := by
  cases h with
  | token h => exact .token h.symm
  | failure e => exact .failure e

/-- Sources whose pulls are alike, however many are made. -/
def PullsAlike (source : σ) (other : τ) : Prop := ∀ n, PullAlike (pull n source) (pull n other)

theorem PullsAlike.symm (h : PullsAlike source other) : PullsAlike other source :=
  fun n => (h n).symm

theorem PullsAlike.after (h : PullsAlike source other) :
    PullsAlike (next source).2 (next other).2 := fun n => h (n + 1)

theorem Gives.alike (h : Gives source ts rest) (ha : PullsAlike source other) :
    ∃ us left, Gives other us left ∧ Token.AllAlike ts us ∧ PullsAlike rest left := by
  induction ts generalizing source other with
  | nil =>
    cases h
    exact ⟨[], other, rfl, .nil, ha⟩
  | cons t ts ih =>
    obtain ⟨left, hn, h⟩ := h
    have hfirst := ha 0
    have hafter := ha.after
    simp only [pull, hn] at hfirst hafter
    rcases hn' : next other with ⟨r, left'⟩
    rw [hn'] at hfirst hafter
    cases hfirst with
    | @token _ u htu =>
      obtain ⟨us, last, hg, hus, hl⟩ := ih h hafter
      exact ⟨u :: us, last, ⟨left', hn', hg⟩, .cons htu hus, hl⟩

theorem Gives.alike_concat (h : Gives source (ts ++ [t]) rest) (ha : PullsAlike source other) :
    ∃ us u left, Gives other (us ++ [u]) left ∧ Token.AllAlike ts us ∧ t.Alike u ∧
      Token.AllAlike (ts ++ [t]) (us ++ [u]) ∧ PullsAlike rest left := by
  obtain ⟨ws, left, hg, hws, hl⟩ := h.alike ha
  obtain ⟨us, u, hus, hu, rfl⟩ := hws.concat
  exact ⟨us, u, left, hg, hus, hu, hws, hl⟩

theorem PullsAlike.next_eq_error {left : σ} (ha : PullsAlike source other)
    (h : next source = (.error e, left)) : ∃ left', next other = (.error e, left') := by
  have hfirst := ha 0
  simp only [pull, h] at hfirst
  rcases hn : next other with ⟨r, left'⟩
  rw [hn] at hfirst
  cases hfirst
  exact ⟨left', rfl⟩

theorem Gives.pull_eq (h : Gives source ts rest) (n : ℕ) :
    pull (ts.length + n) source = pull n rest := by
  induction ts generalizing source with
  | nil =>
    cases h
    rw [List.length_nil, Nat.zero_add]
  | cons t ts ih =>
    obtain ⟨left, hn, h⟩ := h
    rw [List.length_cons, Nat.add_right_comm, pull, hn]
    exact ih h

theorem Gives.pull_length (h : Gives source (ts ++ t :: us) rest) :
    pull ts.length source = .ok t := by
  obtain ⟨left, hg, left', hn, -⟩ := gives_append.mp h
  rw [← Nat.add_zero ts.length, hg.pull_eq, pull, hn]

end TokenStream

namespace Recorded

theorem pull_eq (n : ℕ) (recorded : Recorded σ) : pull n recorded = pull n recorded.source := by
  induction n generalizing recorded with
  | zero => exact recorded.result_next
  | succ n ih =>
    rw [pull, ih, pull]
    exact congrArg (pull n) recorded.source_next

theorem gives_start {left : Recorded σ} (h : Gives (start source) ts left) :
    Gives source ts left.source ∧ left.given.reverse = ts := by
  obtain ⟨hg, hr⟩ := gives_iff.mp h
  exact ⟨hg, by simp [hr, start]⟩

end Recorded

theorem TokenStream.PullsAlike.start (h : PullsAlike source other) :
    PullsAlike (Recorded.start source) (Recorded.start other) := by
  intro n
  rw [Recorded.pull_eq, Recorded.pull_eq]
  exact h n

/-- How the parses of two sources end together after as many tokens. An error about a token is
about the tokens of one number, the last ones pulled or the last but one. An error of a pull is
passed on. -/
inductive EndAlike (source : σ) (other : τ) : ℕ → Except Error Node → Except Error Node → Prop where

  | tree (count : ℕ) (tree : Node) : EndAlike source other count (.ok tree) (.ok tree)

  | refused {cause : Cause} {n : ℕ} {t u : Token} : cause.Refuses t →
      pull n source = .ok t → pull n other = .ok u → EndAlike source other (n + 1)
        (.error ⟨cause, t.span.start⟩) (.error ⟨cause, u.span.start⟩)

  | rejected {cause : Cause} {n : ℕ} {t u : Token} : cause.Rejects t →
      pull n source = .ok t → pull n other = .ok u → EndAlike source other (n + 2)
        (.error ⟨cause, t.span.start⟩) (.error ⟨cause, u.span.start⟩)

  | passed {e : Error} {n : ℕ} : pull n source = .error e → pull n other = .error e →
      EndAlike source other n (.error e) (.error e)

namespace Parser

/-- Sources that differ in spans at most have parses with one verdict. -/
theorem Parses.alike {v : Verdict Node} {r : Except Error Node × Recorded σ}
    (hp : Parses (Recorded.start source) v ts t r) (ha : PullsAlike source other) :
    ∃ us u r', Token.AllAlike ts us ∧ t.Alike u ∧ Parses (Recorded.start other) v us u r' ∧
      Token.AllAlike r.2.given.reverse r'.2.given.reverse ∧
        EndAlike source other r.2.given.reverse.length r.1 r'.1 := by
  have ha' := ha.start
  cases hp with
  | @value tree _ _ _ ht hts hg =>
    obtain ⟨us, u, left, hg', hus, hu, hall, -⟩ := hg.alike_concat ha'
    refine ⟨us, u, _, hus, hu, .value (hu.kind ▸ ht) (hus.ne_eof hts) hg', ?_, .tree _ _⟩
    rwa [(Recorded.gives_start hg).2, (Recorded.gives_start hg').2]
  | refused hr hts hg =>
    obtain ⟨us, u, left, hg', hus, hu, hall, -⟩ := hg.alike_concat ha'
    obtain ⟨hs, hgiven⟩ := Recorded.gives_start hg
    obtain ⟨hs', hgiven'⟩ := Recorded.gives_start hg'
    refine ⟨us, u, _, hus, hu, .refused (hr.alike hu) (hus.ne_eof hts) hg', ?_, ?_⟩
    · rwa [hgiven, hgiven']
    · rw [hgiven, List.length_append]
      exact .refused hr hs.pull_length (hus.length_eq ▸ hs'.pull_length)
  | rejected hr hts hg =>
    rw [List.append_cons] at hg
    obtain ⟨vs, next, left, hg', hvs, hnext, hall, -⟩ := hg.alike_concat ha'
    obtain ⟨us, u, hus, hu, rfl⟩ := hvs.concat
    rw [← List.append_cons] at hg hg'
    obtain ⟨hs, hgiven⟩ := Recorded.gives_start hg
    obtain ⟨hs', hgiven'⟩ := Recorded.gives_start hg'
    refine ⟨us, u, _, hus, hu, .rejected (hr.alike hu) (hvs.ne_eof hts) hg', ?_, ?_⟩
    · rw [hgiven, hgiven', List.append_cons ts, List.append_cons us]
      exact hall
    · rw [hgiven, List.length_append]
      exact .rejected hr hs.pull_length (hus.length_eq ▸ hs'.pull_length)
  | @failed e _ _ _ _ hts hg hn =>
    obtain ⟨us, u, left, hg', hus, hu, hall, hleft⟩ := hg.alike_concat ha'
    obtain ⟨rest', hn'⟩ := hleft.next_eq_error hn
    obtain ⟨hs, hgiven⟩ := Recorded.gives_start hg
    obtain ⟨hs', hgiven'⟩ := Recorded.gives_start hg'
    obtain ⟨hn, hlast⟩ := Recorded.next_eq_error.mp hn
    obtain ⟨hn'', hlast'⟩ := Recorded.next_eq_error.mp hn'
    have hp := hs.pull_eq 0
    have hp' := hs'.pull_eq 0
    rw [Nat.add_zero, pull] at hp hp'
    refine ⟨us, u, _, hus, hu, .failed (hall.ne_eof hts) hg' hn', ?_, ?_⟩
    · rwa [hlast, hlast', hgiven, hgiven']
    · rw [hlast, hgiven]
      exact .passed (hp.trans (congrArg Prod.fst hn))
        (hall.length_eq ▸ hp'.trans (congrArg Prod.fst hn''))

end Parser

/-- The parse of a stream returns a result, having pulled some tokens. -/
def ReturnsAfter (source : σ) (ts : List Token) (result : Except Error Node) : Prop :=
  ∃ rest : Recorded σ, Returns (Recorded.start source) result rest ∧ rest.given.reverse = ts

theorem exists_returnsAfter_iff {result : Except Error Node} :
    (∃ ts, ReturnsAfter source ts result) ↔ ∃ rest, Returns source result rest := by
  constructor
  · rintro ⟨ts, rest, h, -⟩
    rcases h.cases (τ := σ) with ⟨e, hn, rfl⟩ | ⟨v, us, u, hp, hl⟩
    · exact ⟨rest.source, .of_error (Recorded.next_eq_error.mp hn).1⟩
    · exact ⟨rest.source, hl _ _ us u _ (.refl us) (.refl u) hp.of_start⟩
  · rintro ⟨rest, h⟩
    rcases h.cases (τ := Recorded σ) with ⟨e, hn, rfl⟩ | ⟨v, us, u, hp, hl⟩
    · have hn : next (Recorded.start source) = (.error e, ⟨rest, []⟩) :=
        Recorded.next_eq_error.mpr ⟨hn, rfl⟩
      exact ⟨[], _, .of_error hn, rfl⟩
    · obtain ⟨left, hp⟩ := hp.exists_start
      exact ⟨_, left, hl _ _ us u _ (.refl us) (.refl u) hp, rfl⟩

theorem ReturnsAfter.unique {result result' : Except Error Node}
    (h : ReturnsAfter source ts result) (h' : ReturnsAfter source us result') :
    ts = us ∧ result = result' := by
  obtain ⟨rest, h, rfl⟩ := h
  obtain ⟨rest', h', rfl⟩ := h'
  obtain ⟨rfl, rfl⟩ := h.unique h'
  exact ⟨rfl, rfl⟩

/-- A stream is parsed like one that returns, if they differ in spans at most. -/
theorem ReturnsAfter.alike {result : Except Error Node} (h : ReturnsAfter source ts result)
    (ha : PullsAlike source other) : ∃ us result', ReturnsAfter other us result' ∧
      Token.AllAlike ts us ∧ EndAlike source other ts.length result result' := by
  obtain ⟨rest, h, rfl⟩ := h
  rcases h.cases (τ := Recorded τ) with ⟨e, hn, rfl⟩ | ⟨v, us, u, hp, hl⟩
  · obtain ⟨rest', hn'⟩ := ha.start.next_eq_error hn
    obtain ⟨hs, hgiven⟩ := Recorded.next_eq_error.mp hn
    obtain ⟨hs', hgiven'⟩ := Recorded.next_eq_error.mp hn'
    refine ⟨_, _, ⟨rest', .of_error hn', rfl⟩, ?_, ?_⟩
    · rw [hgiven, hgiven']
      exact .nil
    · rw [hgiven]
      exact .passed (congrArg Prod.fst hs) (congrArg Prod.fst hs')
  · obtain ⟨us', u', ⟨result', rest'⟩, hus, hu, hp', hgiven, hend⟩ := hp.alike ha
    exact ⟨_, result', ⟨rest', hl _ _ us' u' _ hus hu hp', rfl⟩, hgiven, hend⟩

theorem ReturnsAfter.endAlike {result result' : Except Error Node}
    (h : ReturnsAfter source ts result) (h' : ReturnsAfter other us result')
    (ha : PullsAlike source other) :
    Token.AllAlike ts us ∧ EndAlike source other ts.length result result' := by
  obtain ⟨us', result'', h'', hts, hend⟩ := h.alike ha
  obtain ⟨rfl, rfl⟩ := h'.unique h''
  exact ⟨hts, hend⟩

theorem exists_returns_of_pullsAlike (ha : PullsAlike source other)
    (h : ∃ result rest, Returns source result rest) :
    ∃ result rest, Returns other result rest := by
  obtain ⟨result, h⟩ := h
  obtain ⟨ts, h⟩ := exists_returnsAfter_iff.mpr h
  obtain ⟨us, result', h', -⟩ := h.alike ha
  exact ⟨result', exists_returnsAfter_iff.mp ⟨us, h'⟩⟩

theorem returnsAfter_pulled {σ : Type} [TokenSource σ] (source : σ) :
    ReturnsAfter source (pulled source) (parseTokens source) :=
  ⟨_, returns_iff.mpr (Prod.ext (parseFrom_start_eq source) rfl), rfl⟩

/-- Streams that differ in spans at most are parsed alike: if one parse returns, so does the other,
and then both end alike after as many tokens. The parses of sources that run dry do return. -/
theorem endAlike_of_pullsAlike :
    (∀ {σ τ : Type} [TokenStream σ] [TokenStream τ] (source : σ) (other : τ),
      PullsAlike source other →
        ((∃ result rest, Returns source result rest) ↔ ∃ result rest, Returns other result rest) ∧
        ∀ (ts us : List Token) (result result' : Except Error Node),
          ReturnsAfter source ts result → ReturnsAfter other us result' →
            Token.AllAlike ts us ∧ EndAlike source other ts.length result result') ∧
    ∀ {σ τ : Type} [TokenSource σ] [TokenSource τ] (source : σ) (other : τ),
      PullsAlike source other → Token.AllAlike (pulled source) (pulled other) ∧
        EndAlike source other (pulled source).length (parseTokens source) (parseTokens other) := by
  constructor
  · intro σ τ _ _ source other h
    refine ⟨⟨exists_returns_of_pullsAlike h, exists_returns_of_pullsAlike h.symm⟩, ?_⟩
    exact fun ts us result result' hr hr' => hr.endAlike hr' h
  · intro σ τ _ _ source other h
    exact (returnsAfter_pulled source).endAlike (returnsAfter_pulled other) h

/-- `this = this = ` and so on for ever is rejected at its second token, wherever its tokens
stand. -/
theorem endAlike_this_assigned :
    let answers (spans : ℕ → Span) : Stream' (Except Error Token) := fun n =>
      .ok (if n % 2 = 0 then ⟨.thisWord, "this", spans n⟩ else ⟨.simpleAssign, "=", spans n⟩)
    let source := answers fun n => ⟨n, n + 1⟩
    let other := answers fun n => ⟨7 * n, 7 * n⟩
    PullsAlike source other ∧
      ReturnsAfter source [⟨.thisWord, "this", ⟨0, 1⟩⟩, ⟨.simpleAssign, "=", ⟨1, 2⟩⟩,
        ⟨.thisWord, "this", ⟨2, 3⟩⟩] (.error ⟨.notAssignable .thisExpr, 1⟩) ∧
      EndAlike source other 3 (.error ⟨.notAssignable .thisExpr, 1⟩)
        (.error ⟨.notAssignable .thisExpr, 7⟩) := by
  intro answers source other
  have halike : PullsAlike source other := by
    intro n
    rw [pull_answers, pull_answers]
    by_cases hn : n % 2 = 0
    · simp only [source, other, answers, hn, if_true]
      exact .token ⟨rfl, rfl⟩
    · simp only [source, other, answers, hn, if_false]
      exact .token ⟨rfl, rfl⟩
  have hr : ReturnsAfter source [⟨.thisWord, "this", ⟨0, 1⟩⟩, ⟨.simpleAssign, "=", ⟨1, 2⟩⟩,
      ⟨.thisWord, "this", ⟨2, 3⟩⟩] (.error ⟨.notAssignable .thisExpr, 1⟩) := ⟨_, ⟨4, rfl⟩, rfl⟩
  have hr' : ReturnsAfter other [⟨.thisWord, "this", ⟨0, 0⟩⟩, ⟨.simpleAssign, "=", ⟨7, 7⟩⟩,
      ⟨.thisWord, "this", ⟨14, 14⟩⟩] (.error ⟨.notAssignable .thisExpr, 7⟩) := ⟨_, ⟨4, rfl⟩, rfl⟩
  exact ⟨halike, hr, ((endAlike_of_pullsAlike.1 source other halike).2 _ _ _ _ hr hr').2⟩

end Frontend
