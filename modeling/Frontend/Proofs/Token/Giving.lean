import Frontend.Token.Lexer

/-! # What sources give

A source gives tokens one after the other. What it gives is determined, so that
of two lists it gives one continues the other. A prepared list gives its tokens
and then the end of input. A lexer gives its run. Only so many tokens come before
the end of input.
-/

namespace Frontend

namespace TokenStream

variable {σ : Type} [TokenStream σ] {source rest rest' : σ} {ts us : List Token}

/-- Pulling tokens in order leaves a source. -/
def Gives : σ → List Token → σ → Prop
  | source, [], rest => source = rest
  | source, t :: ts, rest => ∃ left, TokenStream.next source = (.ok t, left) ∧ Gives left ts rest

@[simp] theorem gives_nil : Gives source [] rest ↔ source = rest := Iff.rfl

theorem gives_cons {t : Token} : Gives source (t :: ts) rest ↔
    ∃ left, TokenStream.next source = (.ok t, left) ∧ Gives left ts rest := Iff.rfl

theorem gives_append : Gives source (ts ++ us) rest ↔ ∃ left, Gives source ts left ∧
    Gives left us rest := by
  induction ts generalizing source with
  | nil => simp
  | cons t ts ih =>
    simp only [List.cons_append, gives_cons, ih]
    constructor
    · rintro ⟨left, hn, left', h, h'⟩
      exact ⟨left', ⟨left, hn, h⟩, h'⟩
    · rintro ⟨left', ⟨left, hn, h⟩, h'⟩
      exact ⟨left, hn, left', h, h'⟩

theorem Gives.eq (h : Gives source ts rest) (h' : Gives source ts rest') : rest = rest' := by
  induction ts generalizing source with
  | nil => exact h.symm.trans h'
  | cons t ts ih =>
    obtain ⟨left, hn, h⟩ := h
    obtain ⟨left', hn', h'⟩ := h'
    cases hn.symm.trans hn'
    exact ih h h'

theorem Gives.prefix_of_error {e : Error} {left : σ} (h : Gives source us rest)
    (he : TokenStream.next rest = (.error e, left)) (h' : Gives source ts rest') : ts <+: us := by
  induction ts generalizing source us with
  | nil => exact List.nil_prefix
  | cons t ts ih =>
    obtain ⟨left', hn, h'⟩ := h'
    cases us with
    | nil =>
      cases h
      cases hn.symm.trans he
    | cons u us =>
      obtain ⟨left'', hn', h⟩ := h
      cases hn.symm.trans hn'
      exact (List.cons_prefix_cons).mpr ⟨rfl, ih h h'⟩

theorem Gives.prefix_of_eof {t u : Token} (h : Gives source (us ++ [u]) rest)
    (hu : u.kind = .eof) (hts : ∀ t ∈ ts, t.kind ≠ .eof) (h' : Gives source (ts ++ [t]) rest') :
    ts ++ [t] <+: us ++ [u] := by
  induction ts generalizing source us with
  | nil =>
    obtain ⟨left, hn, -⟩ := h'
    cases us with
    | nil =>
      obtain ⟨left', hn', -⟩ := h
      cases hn.symm.trans hn'
      exact List.prefix_refl _
    | cons v us =>
      obtain ⟨left', hn', -⟩ := h
      cases hn.symm.trans hn'
      exact (List.cons_prefix_cons).mpr ⟨rfl, List.nil_prefix⟩
  | cons t' ts ih =>
    obtain ⟨left, hn, h'⟩ := h'
    cases us with
    | nil =>
      obtain ⟨left', hn', -⟩ := h
      cases hn.symm.trans hn'
      exact absurd hu (hts _ List.mem_cons_self)
    | cons v us =>
      obtain ⟨left', hn', h⟩ := h
      cases hn.symm.trans hn'
      exact (List.cons_prefix_cons).mpr
        ⟨rfl, ih h (fun t ht => hts t (List.mem_cons_of_mem _ ht)) h'⟩

/-- What the pull of a number gives, counted from zero. -/
def pull : Nat → σ → Except Error Token
  | 0, source => (next source).1
  | n + 1, source => pull n (next source).2

def after : Nat → σ → σ
  | 0, source => source
  | n + 1, source => after n (next source).2

theorem pull_eq_next_after (n : Nat) (source : σ) : pull n source = (next (after n source)).1 := by
  induction n generalizing source with
  | zero => rfl
  | succ n ih => exact ih _

theorem after_succ (n : Nat) (source : σ) : after (n + 1) source = (next (after n source)).2 := by
  induction n generalizing source with
  | zero => rfl
  | succ n ih => exact ih _

end TokenStream

namespace TokenSource

open TokenStream

variable {σ : Type} [TokenSource σ] {source rest : σ} {ts : List Token}

/-- The number of tokens that a source gives before the end of input, or before it fails. -/
def count (source : σ) : Nat :=
  match _hn : TokenStream.next source with
  | (.error _, _) => 0
  | (.ok t, rest) => if _hk : t.kind = .eof then 0 else count rest + 1
termination_by remaining source
decreasing_by exact remaining_lt_of_next _hn _hk

theorem count_of_ok {t : Token} (h : TokenStream.next source = (.ok t, rest)) :
    count source = if t.kind = .eof then 0 else count rest + 1 := by
  rw [count]
  split <;> simp_all

theorem count_le_remaining (source : σ) : count source ≤ remaining source := by
  fun_induction count source with
  | case1 => exact Nat.zero_le _
  | case2 => exact Nat.zero_le _
  | case3 source t rest hn hk ih =>
    have := remaining_lt_of_next hn hk
    omega

theorem count_of_gives {t : Token} (h : Gives source (ts ++ [t]) rest)
    (hts : ∀ t ∈ ts, t.kind ≠ .eof) (ht : t.kind = .eof) : count source = ts.length := by
  induction ts generalizing source with
  | nil =>
    obtain ⟨left, hn, -⟩ := h
    rw [count_of_ok hn, if_pos ht]
    rfl
  | cons u ts ih =>
    obtain ⟨hu, hts⟩ := List.forall_mem_cons.mp hts
    obtain ⟨left, hn, h⟩ := h
    rw [count_of_ok hn, if_neg hu, ih h hts, List.length_cons]

end TokenSource

namespace Recorded

open TokenStream

variable {σ : Type} [TokenStream σ] {recorded : Recorded σ} {ts : List Token}

theorem next_eq_ok {t : Token} {left : Recorded σ} :
    TokenStream.next recorded = (.ok t, left) ↔
      TokenStream.next recorded.source = (.ok t, left.source) ∧
        left.given = t :: recorded.given := by
  change next recorded = _ ↔ _
  unfold next
  rcases left with ⟨source, given⟩
  split <;> rename_i hn <;> rw [hn]
  · constructor
    · rintro ⟨⟩
      exact ⟨rfl, rfl⟩
    · rintro ⟨⟨⟩, rfl⟩
      rfl
  · simp

theorem next_eq_error {e : Error} {left : Recorded σ} :
    TokenStream.next recorded = (.error e, left) ↔
      TokenStream.next recorded.source = (.error e, left.source) ∧ left.given = recorded.given := by
  change next recorded = _ ↔ _
  unfold next
  rcases left with ⟨source, given⟩
  split <;> rename_i hn <;> rw [hn]
  · simp
  · constructor
    · rintro ⟨⟩
      exact ⟨rfl, rfl⟩
    · rintro ⟨⟨⟩, rfl⟩
      rfl

theorem gives_iff {rest : Recorded σ} : Gives recorded ts rest ↔
    Gives recorded.source ts rest.source ∧ rest.given = ts.reverse ++ recorded.given := by
  induction ts generalizing recorded with
  | nil =>
    rcases recorded with ⟨source, given⟩
    rcases rest with ⟨source', given'⟩
    simp [eq_comm]
  | cons t ts ih =>
    simp only [gives_cons, ih, next_eq_ok]
    constructor
    · rintro ⟨left, ⟨hn, hl⟩, h, hr⟩
      exact ⟨⟨left.source, hn, h⟩, by simp [hr, hl]⟩
    · rintro ⟨⟨left, hn, h⟩, hr⟩
      exact ⟨⟨left, t :: recorded.given⟩, ⟨hn, rfl⟩, h, by simpa using hr⟩

end Recorded

namespace Metered

open TokenStream

variable {σ : Type} [TokenStream σ] {metered rest : Metered σ} {ts : List Token}

theorem next_succ {source left : σ} {answer : Except Error Token}
    (h : TokenStream.next source = (answer, left)) (n : Nat) :
    TokenStream.next (⟨source, n + 1⟩ : Metered σ) = (answer, ⟨left, n⟩) := by
  change next ⟨source, n + 1⟩ = _
  rw [next, h]

theorem next_eq_iff {answer : Except Error Token} (hr : rest.pulls ≠ 0) :
    TokenStream.next metered = (answer, rest) ↔
      TokenStream.next metered.source = (answer, rest.source) ∧
        metered.pulls = rest.pulls + 1 := by
  change next metered = _ ↔ _
  obtain ⟨source, n⟩ := metered
  obtain ⟨left, m⟩ := rest
  cases n with
  | zero =>
    simp only [next, Prod.mk.injEq, Metered.mk.injEq]
    constructor
    · rintro ⟨-, -, rfl⟩
      exact absurd rfl hr
    · rintro ⟨-, h⟩
      cases h
  | succ n =>
    rcases hn : TokenStream.next source with ⟨answer', left'⟩
    change TokenStream.next (⟨source, n + 1⟩ : Metered σ) = _ ↔ _
    simp [next_succ hn, and_assoc]

theorem gives_iff (hr : rest.pulls ≠ 0) : Gives metered ts rest ↔
    Gives metered.source ts rest.source ∧ metered.pulls = rest.pulls + ts.length := by
  induction ts generalizing metered with
  | nil =>
    obtain ⟨source, n⟩ := metered
    obtain ⟨left, m⟩ := rest
    simp
  | cons t ts ih =>
    constructor
    · rintro ⟨left, hn, h⟩
      obtain ⟨h, hl⟩ := ih.mp h
      obtain ⟨hn, hp⟩ := (next_eq_iff (by omega)).mp hn
      exact ⟨⟨left.source, hn, h⟩, by rw [hp, hl, List.length_cons, Nat.add_assoc]⟩
    · rintro ⟨⟨left, hn, h⟩, hp⟩
      have hl : metered = ⟨metered.source, rest.pulls + ts.length + 1⟩ := by
        rw [Nat.add_assoc, ← List.length_cons, ← hp]
      rw [hl]
      exact ⟨_, next_succ hn _, ih.mpr ⟨h, rfl⟩⟩

end Metered

namespace TokenList

open TokenStream

def ofTokens (ts : List Token) : TokenList := ⟨ts.map .ok⟩

theorem next_ofTokens (ts : List Token) :
    ∃ t left, TokenStream.next (ofTokens ts) = (.ok t, ofTokens left) := by
  cases ts with
  | nil => exact ⟨Token.eof 0, [], rfl⟩
  | cons t ts => exact ⟨t, ts, rfl⟩

theorem next_of_gives {ts us : List Token} {left : TokenList} (h : Gives (ofTokens ts) us left) :
    ∃ t rest, TokenStream.next left = (.ok t, rest) := by
  induction us generalizing ts with
  | nil =>
    cases h
    obtain ⟨t, left, hn⟩ := next_ofTokens ts
    exact ⟨t, _, hn⟩
  | cons u us ih =>
    obtain ⟨t, left', hn⟩ := next_ofTokens ts
    obtain ⟨left'', hn', h⟩ := h
    cases hn.symm.trans hn'
    exact ih h

theorem gives_ofTokens (ts us : List Token) : Gives (ofTokens (ts ++ us)) ts (ofTokens us) := by
  induction ts with
  | nil => rfl
  | cons t ts ih => exact ⟨_, rfl, ih⟩

theorem gives_ofTokens_self (ts : List Token) : Gives (ofTokens ts) ts (ofTokens []) := by
  have h := gives_ofTokens ts []
  rwa [List.append_nil] at h

end TokenList

namespace Lexer

open TokenStream

theorem run_cases (lexer : Lexer) :
    (∃ ts t rest, lexer.run = (ts ++ [t], none) ∧ (∀ t ∈ ts, t.kind ≠ .eof) ∧ t.kind = .eof ∧
      Gives lexer (ts ++ [t]) rest) ∨
    ∃ ts e left rest, lexer.run = (ts, some e) ∧ (∀ t ∈ ts, t.kind ≠ .eof) ∧
      Gives lexer ts left ∧ left.next = (.error e, rest) := by
  fun_induction run lexer with
  | case1 lexer e rest hn => exact .inr ⟨[], e, lexer, rest, rfl, by simp, rfl, hn⟩
  | case2 lexer t rest hn hk => exact .inl ⟨[], t, rest, rfl, by simp, hk, rest, hn, rfl⟩
  | case3 lexer t rest hn hk ts failure hr ih =>
    rw [hr] at ih
    rcases ih with ⟨us, u, left, he, hus, hu, hg⟩ | ⟨us, e, left, left', he, hus, hg, hl⟩
    · obtain ⟨rfl, rfl⟩ := Prod.mk.inj he
      exact .inl ⟨t :: us, u, left, rfl, by simpa using ⟨hk, hus⟩, hu, rest, hn, hg⟩
    · obtain ⟨rfl, rfl⟩ := Prod.mk.inj he
      exact .inr ⟨t :: ts, e, left, left', rfl, by simpa using ⟨hk, hus⟩, ⟨rest, hn, hg⟩, hl⟩

theorem prefix_run_of_gives {lexer rest : Lexer} {ts : List Token} {t : Token}
    (hts : ∀ t ∈ ts, t.kind ≠ .eof) (h : Gives lexer (ts ++ [t]) rest) :
    ts ++ [t] <+: lexer.run.1 := by
  rcases run_cases lexer with
    ⟨us, u, left, hr, -, hu, hg⟩ | ⟨us, e, left, after, hr, -, hg, he⟩
  · rw [hr]
    exact hg.prefix_of_eof hu hts h
  · rw [hr]
    exact hg.prefix_of_error he h

/-- The answers to pulls up to the end of input, with it, or to the first that fails. -/
def answers (lexer : Lexer) : List (Except Error Token) :=
  lexer.run.1.map .ok ++ (lexer.run.2.map .error).toList

theorem answers_of_error {lexer left after : Lexer} {ts : List Token} {e : Error}
    (hts : ∀ t ∈ ts, t.kind ≠ .eof) (h : Gives lexer ts left) (hn : left.next = (.error e, after)) :
    lexer.answers = ts.map .ok ++ [.error e] := by
  rcases run_cases lexer with
    ⟨us, u, rest, hr, -, hu, hg⟩ | ⟨us, e', left', after', hr, -, hg, hn'⟩
  · exact absurd hu (hts u ((h.prefix_of_error hn hg).subset (by simp)))
  · obtain rfl := (hg.prefix_of_error hn' h).eq_of_length_le (h.prefix_of_error hn hg).length_le
    obtain rfl := h.eq hg
    cases hn.symm.trans hn'
    rw [answers, hr]
    rfl

end Lexer

end Frontend
