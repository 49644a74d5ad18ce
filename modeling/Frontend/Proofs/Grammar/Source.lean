import Frontend.Proofs.Grammar.Locality
import Frontend.Proofs.Token.Giving

/-! # Whole runs over a source

A parse pulls tokens from its source one by one. The tokens it reads are the
first ones that the source gives, and every source that gives them too, or
tokens like them, is parsed in the same way.
-/

namespace Frontend

open ParserState Frontend.Parser

namespace ParserState

def facing {σ : Type} (t : Token) (source : σ) : ParserState σ := ⟨source, t, .standard⟩

theorem isStandard_facing {σ : Type} (t : Token) (source : σ) : (facing t source).IsStandard := rfl

end ParserState

namespace ParserState

open TokenStream

variable {σ : Type} [TokenStream σ] {source rest : σ} {ts : List Token}

theorem consumes_facing {t : Token} {s₁ : ParserState σ} :
    (facing t source).Consumes ts s₁ ↔ ∃ u rest, s₁ = facing u rest ∧ (∀ t ∈ ts, t.kind ≠ .eof) ∧
      ∃ ws, t :: ws = ts ++ [u] ∧ Gives source ws rest := by
  induction ts generalizing t source with
  | nil =>
    constructor
    · rintro rfl
      exact ⟨t, source, rfl, by simp, [], rfl, rfl⟩
    · rintro ⟨u, rest, rfl, -, ws, hw, h⟩
      cases hw
      cases h
      rfl
  | cons t' ts ih =>
    have hi : ∀ next left, ({ facing t source with source := left, lookahead := next } :
      ParserState σ) = facing next left := fun _ _ => rfl
    constructor
    · rintro ⟨rfl, hk, next, left, hn, h⟩
      rw [hi, ih] at h
      obtain ⟨u, rest, rfl, hts, ws, hw, h⟩ := h
      exact ⟨u, rest, rfl, by simpa using ⟨hk, hts⟩, next :: ws, by rw [hw]; rfl, left, hn, h⟩
    · rintro ⟨u, rest, rfl, hts, ws, hw, h⟩
      obtain ⟨rfl, hws⟩ := List.cons.inj hw
      obtain _ | ⟨next, ws⟩ := ws
      · simp at hws
      obtain ⟨left, hn, h⟩ := h
      refine ⟨rfl, hts _ List.mem_cons_self, next, left, hn, ?_⟩
      rw [hi, ih]
      exact ⟨u, rest, rfl, fun t ht => hts t (List.mem_cons_of_mem _ ht), ws, hws, h⟩

theorem gives_concat_iff {u : Token} {rest : σ} :
    (∃ t left, TokenStream.next source = (.ok t, left) ∧
      (facing t left).Consumes ts (facing u rest)) ↔
        (∀ t ∈ ts, t.kind ≠ .eof) ∧ Gives source (ts ++ [u]) rest := by
  constructor
  · rintro ⟨t, left, hn, h⟩
    obtain ⟨u', rest', he, hts, ws, hw, h⟩ := consumes_facing.mp h
    cases he
    exact ⟨hts, hw ▸ ⟨left, hn, h⟩⟩
  · rintro ⟨hts, h⟩
    obtain ⟨t, ws, hw⟩ := List.exists_cons_of_ne_nil (l := ts ++ [u]) (by simp)
    rw [hw] at h
    obtain ⟨left, hn, h⟩ := h
    exact ⟨t, left, hn, consumes_facing.mpr ⟨u, rest, rfl, hts, ws, hw.symm, h⟩⟩

end ParserState

namespace Parser

open TokenStream

section

variable {σ : Type} [TokenStream σ] {source : σ} {ts : List Token}

/-- A parse reads some tokens and a last one of its source, and its verdict fixes the rest. -/
inductive Parses (source : σ) :
    Verdict Node → List Token → Token → Except Error Node × σ → Prop where

  | value {tree : Node} {ts : List Token} {t : Token} {rest : σ} : t.kind = .eof →
      (∀ t ∈ ts, t.kind ≠ .eof) → Gives source (ts ++ [t]) rest →
      Parses source (.value tree) ts t (.ok tree, rest)

  | refused {cause : Cause} {ts : List Token} {t : Token} {rest : σ} : cause.Refuses t →
      (∀ t ∈ ts, t.kind ≠ .eof) → Gives source (ts ++ [t]) rest →
      Parses source (.refused cause) ts t (.error ⟨cause, t.span.start⟩, rest)

  | rejected {cause : Cause} {ts : List Token} {t next : Token} {rest : σ} : cause.Rejects t →
      (∀ t' ∈ ts ++ [t], t'.kind ≠ .eof) → Gives source (ts ++ [t, next]) rest →
      Parses source (.rejected cause) ts t (.error ⟨cause, t.span.start⟩, rest)

  | failed {e : Error} {ts : List Token} {t : Token} {left rest : σ} :
      (∀ t' ∈ ts ++ [t], t'.kind ≠ .eof) → Gives source (ts ++ [t]) left →
      TokenStream.next left = (.error e, rest) → Parses source .failed ts t (.error e, rest)

def outcome : EStateM.Result Halt (ParserState σ) Node → Except Error Node × σ
  | .ok tree s => (.ok tree, s.source)
  | .error (.error e) s => (.error e, s.source)
  | .error .exhausted s =>
    (.error ⟨.unknownLiteral s.lookahead.kind s.lookahead.value, s.lookahead.span.start⟩, s.source)

theorem parses_iff {v : Verdict Node} {t : Token} {r : Except Error Node × σ} :
    Parses source v ts t r ↔ ∃ t' left r', TokenStream.next source = (.ok t', left) ∧
      Ends (facing t' left) v ts t r' ∧ (∀ tree s₁, r' = .ok tree s₁ → s₁.lookahead.kind = .eof) ∧
        r = outcome r' := by
  constructor
  · intro h
    cases h with
    | value ht hts h =>
      obtain ⟨t', left, hn, hc⟩ := gives_concat_iff.mpr ⟨hts, h⟩
      exact ⟨t', left, _, hn, .value hc, by rintro _ _ ⟨⟩; exact ht, rfl⟩
    | refused hr hts h =>
      obtain ⟨t', left, hn, hc⟩ := gives_concat_iff.mpr ⟨hts, h⟩
      exact ⟨t', left, _, hn, .refused hc hr, by simp, rfl⟩
    | rejected hr hts h =>
      obtain ⟨t', left, hn, hc⟩ := gives_concat_iff.mpr ⟨hts, by simpa using h⟩
      exact ⟨t', left, _, hn, .rejected hc hr, by simp, rfl⟩
    | failed hts h hn' =>
      obtain ⟨t', left, hn, hc⟩ :=
        gives_concat_iff.mpr ⟨fun t ht => hts t (List.mem_append_left _ ht), h⟩
      exact ⟨t', left, _, hn, .failed hc (hts t (by simp)) hn', by simp, rfl⟩
  · rintro ⟨t', left, r', hn, h, he, rfl⟩
    cases h with
    | value hc =>
      obtain ⟨u, rest, rfl, -⟩ := consumes_facing.mp hc
      obtain ⟨hts, h⟩ := gives_concat_iff.mp ⟨t', left, hn, hc⟩
      exact .value (he _ _ rfl) hts h
    | refused hc hr =>
      obtain ⟨u, rest, rfl, -⟩ := consumes_facing.mp hc
      obtain ⟨hts, h⟩ := gives_concat_iff.mp ⟨t', left, hn, hc⟩
      exact .refused hr hts h
    | rejected hc hr =>
      obtain ⟨u, rest, rfl, -⟩ := consumes_facing.mp hc
      obtain ⟨hts, h⟩ := gives_concat_iff.mp ⟨t', left, hn, hc⟩
      rw [List.append_assoc] at h
      exact .rejected hr hts h
    | failed hc hk hn' =>
      obtain ⟨u, rest, rfl, -⟩ := consumes_facing.mp hc
      obtain ⟨hts, h⟩ := gives_concat_iff.mp ⟨t', left, hn, hc⟩
      refine .failed (fun t ht => ?_) h hn'
      rcases List.mem_append.mp ht with ht | ht
      · exact hts t ht
      · rwa [List.mem_singleton.mp ht]

end

variable {σ τ : Type} [TokenSource σ] [TokenSource τ] {source rest : σ} {ts us : List Token}

theorem parseFrom_of_error {e : Error} (h : TokenStream.next source = (.error e, rest)) :
    parseFrom source = (.error e, rest) := by
  rw [parseFrom, start, h]

theorem parseFrom_of_ok {t : Token} (h : TokenStream.next source = (.ok t, rest)) :
    parseFrom source = outcome (program (facing t rest)) := by
  rw [parseFrom, start, h]
  simp only [apply, facing]
  split <;> rename_i he <;> rw [he] <;> rfl

theorem eof_of_program {s s₁ : ParserState σ} {tree : Node} (h : program s = .ok tree s₁) :
    s₁.lookahead.kind = .eof := by
  obtain ⟨first, s₂, -, h⟩ := bind_eq_ok.mp h
  obtain ⟨nodes, s₃, h, he⟩ := bind_eq_ok.mp h
  obtain ⟨reversed, s₄, h, he'⟩ := bind_eq_ok.mp h
  cases he
  cases he'
  simpa using repeatWithin_eq_ok h

/-- A parse whose first pull succeeds has a verdict, which every source shares that gives
tokens like those it has read. -/
theorem exists_parses {t : Token} (hn : TokenStream.next source = (.ok t, rest)) :
    ∃ v ts t, Parses source v ts t (parseFrom source) ∧
      ∀ (other : τ) (us : List Token) (u : Token) (r : Except Error Node × τ),
        Token.AllAlike ts us → t.Alike u → Parses other v us u r → parseFrom other = r := by
  obtain ⟨v, ts, t', he, hl⟩ := local_program (τ := τ) (s := facing t rest) rfl
  refine ⟨v, ts, t', parses_iff.mpr ⟨t, rest, _, hn, he, ?_, parseFrom_of_ok hn⟩, ?_⟩
  · exact fun tree s₁ => eof_of_program
  intro other us u r hus hu h
  obtain ⟨t'', left, r', hn', he', -, rfl⟩ := parses_iff.mp h
  rw [parseFrom_of_ok hn', hl (facing t'' left) us u r' rfl hus hu he']

theorem exists_parses_and {P : Verdict Node → List Token → Token → Prop} {t : Token}
    (hn : TokenStream.next source = (.ok t, rest))
    (h : (∃ s₁, program (facing t rest) = .error .exhausted s₁) ∨
      ∃ v ts u, Ends (facing t rest) v ts u (program (facing t rest)) ∧ P v ts u) :
    ∃ v ts u, Parses source v ts u (parseFrom source) ∧ P v ts u := by
  rcases h with ⟨s₁, he⟩ | ⟨v, ts, u, he, hv⟩
  · obtain ⟨v, ts, u, hends, -⟩ := local_program (τ := σ) (isStandard_facing t rest)
    rw [he] at hends
    cases hends
  · refine ⟨v, ts, u, parses_iff.mpr ⟨t, rest, _, hn, he, ?_, parseFrom_of_ok hn⟩, hv⟩
    exact fun tree s₁ => eof_of_program

end Parser

end Frontend
