import Mathlib.Data.Stream.Defs
import Frontend.Proofs.Grammar.Source

/-! # Parses of streams that may not end

A parse of a stream returns if it does so behind a meter that it does not use up. What a
meter is set to makes no difference then, so a stream has one result at most. A source
has the result of its parse.
-/

namespace Frontend

/-- The answers to all pulls are a stream of tokens, which may never end. -/
instance : TokenStream (Stream' (Except Error Token)) where
  next answers := (answers.head, answers.tail)

theorem TokenStream.pull_answers (answers : Stream' (Except Error Token)) (n : ℕ) :
    pull n answers = answers n := by
  induction n generalizing answers with
  | zero => rfl
  | succ n ih => exact ih answers.tail

namespace Parser

open TokenStream

section

variable {σ : Type} [TokenStream σ]

def Verdict.pulls (ts : List Token) : Verdict Node → ℕ
  | value _ | refused _ => ts.length + 1
  | rejected _ | failed => ts.length + 2

theorem parses_metered_iff {metered left : Metered σ} {v : Verdict Node} {ts : List Token}
    {t : Token} {result : Except Error Node} (hl : left.pulls ≠ 0) :
    Parses metered v ts t (result, left) ↔ Parses metered.source v ts t (result, left.source) ∧
      metered.pulls = left.pulls + v.pulls ts := by
  constructor
  · intro h
    cases h with
    | value ht hts hg =>
      obtain ⟨hs, hp⟩ := (Metered.gives_iff hl).mp hg
      exact ⟨.value ht hts hs, by simpa [Verdict.pulls] using hp⟩
    | refused hr hts hg =>
      obtain ⟨hs, hp⟩ := (Metered.gives_iff hl).mp hg
      exact ⟨.refused hr hts hs, by simpa [Verdict.pulls] using hp⟩
    | rejected hr hts hg =>
      obtain ⟨hs, hp⟩ := (Metered.gives_iff hl).mp hg
      exact ⟨.rejected hr hts hs, by simpa [Verdict.pulls] using hp⟩
    | failed hts hg hn =>
      obtain ⟨hn, hk⟩ := (Metered.next_eq_iff hl).mp hn
      obtain ⟨hs, hp⟩ := (Metered.gives_iff (by omega)).mp hg
      refine ⟨.failed hts hs hn, ?_⟩
      rw [hp, hk, List.length_append, List.length_singleton, Nat.add_right_comm, Nat.add_assoc]
      rfl
  · rintro ⟨h, hp⟩
    generalize hs : (result, left.source) = r at h
    cases h with
    | value ht hts hg =>
      cases hs
      exact .value ht hts ((Metered.gives_iff hl).mpr ⟨hg, by simpa [Verdict.pulls] using hp⟩)
    | refused hr hts hg =>
      cases hs
      exact .refused hr hts ((Metered.gives_iff hl).mpr ⟨hg, by simpa [Verdict.pulls] using hp⟩)
    | rejected hr hts hg =>
      cases hs
      exact .rejected hr hts ((Metered.gives_iff hl).mpr ⟨hg, by simpa [Verdict.pulls] using hp⟩)
    | @failed e ts t last _ hts hg hn =>
      cases hs
      refine .failed hts ((Metered.gives_iff (Nat.succ_ne_zero _)).mpr ⟨hg, ?_⟩)
        (Metered.next_succ hn left.pulls)
      rw [hp, List.length_append, List.length_singleton, Nat.add_right_comm, Nat.add_assoc]
      rfl

theorem parseMetered_eq_some {source rest : σ} {result : Except Error Node} {n : ℕ} :
    parseMetered n source = some (result, rest) ↔
      ∃ m, m ≠ 0 ∧ parseFrom (⟨source, n⟩ : Metered σ) = (result, ⟨rest, m⟩) := by
  rcases hp : parseFrom (⟨source, n⟩ : Metered σ) with ⟨result', ⟨rest', m⟩⟩
  cases m with
  | zero => simp [parseMetered, hp]
  | succ m => simp [parseMetered, hp]

end

variable {σ τ : Type} [TokenStream τ]

/-- Every stream that gives tokens like those a parse has read is parsed with its verdict. -/
theorem exists_returns [TokenSource σ] {source rest : σ} {t : Token}
    (hn : TokenStream.next source = (.ok t, rest)) :
    ∃ v ts t, Parses source v ts t (parseFrom source) ∧
      ∀ (other left : τ) (us : List Token) (u : Token) (result : Except Error Node),
        Token.AllAlike ts us → t.Alike u → Parses other v us u (result, left) →
          Returns other result left := by
  obtain ⟨v, ts, t, hp, hl⟩ := exists_parses (τ := Metered τ) hn
  refine ⟨v, ts, t, hp, fun other left us u result hus hu h => ?_⟩
  have hm : Parses (⟨other, 1 + v.pulls us⟩ : Metered τ) v us u (result, ⟨left, 1⟩) :=
    (parses_metered_iff Nat.one_ne_zero).mpr ⟨h, rfl⟩
  exact ⟨_, parseMetered_eq_some.mpr ⟨1, Nat.one_ne_zero, hl _ us u _ hus hu hm⟩⟩

variable [TokenStream σ] {source rest rest' : σ} {result result' : Except Error Node}

theorem Returns.of_error {e : Error} (h : TokenStream.next source = (.error e, rest)) :
    Returns source (.error e) rest :=
  ⟨2, parseMetered_eq_some.mpr ⟨1, Nat.one_ne_zero,
    parseFrom_of_error (Metered.next_succ h 1)⟩⟩

theorem Returns.cases (h : Returns source result rest) :
    (∃ e, TokenStream.next source = (.error e, rest) ∧ result = .error e) ∨
      ∃ v ts t, Parses source v ts t (result, rest) ∧
        ∀ (other left : τ) (us : List Token) (u : Token) (result : Except Error Node),
          Token.AllAlike ts us → t.Alike u → Parses other v us u (result, left) →
            Returns other result left := by
  obtain ⟨n, h⟩ := h
  obtain ⟨m, hm, h⟩ := parseMetered_eq_some.mp h
  rcases hn : TokenStream.next (⟨source, n⟩ : Metered σ) with ⟨e | t, left⟩
  · rw [parseFrom_of_error hn] at h
    cases h
    exact .inl ⟨e, ((Metered.next_eq_iff hm).mp hn).1, rfl⟩
  · obtain ⟨v, ts, u, hp, hl⟩ := exists_returns (τ := τ) hn
    rw [h] at hp
    exact .inr ⟨v, ts, u, ((parses_metered_iff hm).mp hp).1, hl⟩

/-- More pulls make no difference to a parse that returns. -/
theorem parseMetered_add {n : ℕ} (h : parseMetered n source = some (result, rest)) (k : ℕ) :
    parseMetered (n + k) source = some (result, rest) := by
  obtain ⟨m, hm, h⟩ := parseMetered_eq_some.mp h
  have hne : m + k ≠ 0 := by omega
  refine parseMetered_eq_some.mpr ⟨m + k, hne, ?_⟩
  rcases hn : TokenStream.next (⟨source, n⟩ : Metered σ) with ⟨e | t, left⟩
  · rw [parseFrom_of_error hn] at h
    cases h
    obtain ⟨hs, hp⟩ := (Metered.next_eq_iff hm).mp hn
    change n = m + 1 at hp
    have hpulls : n + k = m + k + 1 := by omega
    exact parseFrom_of_error ((Metered.next_eq_iff hne).mpr ⟨hs, hpulls⟩)
  · obtain ⟨v, ts, u, hp, hl⟩ := exists_parses (τ := Metered σ) hn
    rw [h] at hp
    obtain ⟨hs, hp⟩ := (parses_metered_iff hm).mp hp
    change n = m + v.pulls ts at hp
    refine hl _ ts u _ (.refl ts) (.refl u) ((parses_metered_iff hne).mpr ⟨hs, ?_⟩)
    change n + k = m + k + v.pulls ts
    omega

theorem Returns.unique (h : Returns source result rest) (h' : Returns source result' rest') :
    result = result' ∧ rest = rest' := by
  obtain ⟨n, h⟩ := h
  obtain ⟨n', h'⟩ := h'
  have hsame := parseMetered_add h n'
  rw [Nat.add_comm, parseMetered_add h' n] at hsame
  cases hsame
  exact ⟨rfl, rfl⟩

/-- The parse of a source that runs dry returns, and what it returns is its result. -/
theorem returns_iff {σ : Type} [TokenSource σ] {source rest : σ} {result : Except Error Node} :
    Returns source result rest ↔ parseFrom source = (result, rest) := by
  have hself : Returns source (parseFrom source).1 (parseFrom source).2 := by
    rcases hn : TokenStream.next source with ⟨e | t, left⟩
    · rw [parseFrom_of_error hn]
      exact .of_error hn
    · obtain ⟨v, ts, u, hp, hl⟩ := exists_returns (τ := σ) hn
      exact hl source _ ts u _ (.refl ts) (.refl u) hp
  constructor
  · intro h
    obtain ⟨hresult, hrest⟩ := hself.unique h
    exact Prod.ext hresult hrest
  · intro h
    rwa [h] at hself

end Parser

end Frontend
