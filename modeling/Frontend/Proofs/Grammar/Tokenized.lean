import Frontend.Proofs.Grammar.Source
import Frontend.Proofs.Token.Cursor

/-! # Parsing a text and parsing its tokens

The parser pulls tokens from a lexer as it needs them. On a text that can be
cut into tokens it does what it does on these. On any other it fails where the
lexer fails, or before.
-/

namespace Frontend

open Frontend.Parser TokenStream

namespace Cause

/-- Whether the cause lies with the text and not with its tokens. -/
def IsLexical : Cause → Prop
  | unmatchedText _ => True
  | _ => False

theorem Refuses.not_isLexical {cause : Cause} {t : Token} (h : cause.Refuses t) :
    ¬ cause.IsLexical := by
  cases cause <;> simp_all [Refuses, IsLexical]

theorem Rejects.not_isLexical {cause : Cause} {t : Token} (h : cause.Rejects t) :
    ¬ cause.IsLexical := by
  cases cause <;> simp_all [Rejects, IsLexical]

end Cause

theorem Lexer.isLexical_of_next {lexer after : Lexer} {e : Error}
    (h : lexer.next = (.error e, after)) :
    e.cause.IsLexical := by
  obtain ⟨left, -, hh⟩ := lexer.exists_halts
  rw [h] at hh
  cases hh
  trivial

variable {σ : Type} [TokenSource σ] {source rest : σ} {us : List Token} {u : Token}

theorem parseTokens_eq_ofTokens (h : Gives source (us ++ [u]) rest) (hu : u.kind = .eof) :
    parseTokens source = parseTokens (TokenList.ofTokens (us ++ [u])) ∧
      ∀ e, parseTokens source = .error e → ¬ e.cause.IsLexical := by
  obtain ⟨t₀, ws, hw⟩ := List.exists_cons_of_ne_nil (l := us ++ [u]) (by simp)
  obtain ⟨left₀, hn, -⟩ := gives_cons.mp (hw ▸ h)
  obtain ⟨v, ts, t, hp, hl⟩ := exists_parses (τ := TokenList) hn
  replace hl := fun r => hl (TokenList.ofTokens (us ++ [u])) ts t r (.refl ts) (.refl t)
  have hlist : ∀ {ts' t' rest'}, (∀ t ∈ ts', t.kind ≠ .eof) → Gives source (ts' ++ [t']) rest' →
      ∃ left, Gives (TokenList.ofTokens (us ++ [u])) (ts' ++ [t']) left := by
    intro ts' t' rest' hts' h'
    obtain ⟨ws, hw⟩ := h.prefix_of_eof hu hts' h'
    exact ⟨TokenList.ofTokens ws, hw ▸ TokenList.gives_ofTokens (ts' ++ [t']) ws⟩
  unfold parseTokens
  generalize parseFrom source = r at hp
  cases hp with
  | value ht hts h' =>
    obtain ⟨left, h'⟩ := hlist hts h'
    rw [hl _ (.value ht hts h')]
    exact ⟨rfl, by simp⟩
  | refused hr hts h' =>
    obtain ⟨left, h'⟩ := hlist hts h'
    rw [hl _ (.refused hr hts h')]
    exact ⟨rfl, by rintro _ ⟨⟩; exact hr.not_isLexical⟩
  | rejected hr hts h' =>
    obtain ⟨left, h'⟩ := hlist hts (by simpa using h')
    rw [hl _ (.rejected hr hts (by simpa using h'))]
    exact ⟨rfl, by rintro _ ⟨⟩; exact hr.not_isLexical⟩
  | failed hts h' hn' => exact absurd hu (hts u ((h'.prefix_of_error hn' h).subset (by simp)))

theorem parseTokens_eq_error {lexer left after : Lexer} {e : Error} {us : List Token}
    (h : Gives lexer us left) (hus : ∀ t ∈ us, t.kind ≠ .eof) (he : left.next = (.error e, after)) :
    ∃ e', parseTokens lexer = .error e' ∧
      (e' = e ∨ ¬ e'.cause.IsLexical ∧ e'.position < e.position) := by
  have hstart : ∀ t ∈ us, t.span.start < e.position := fun t ht =>
    (Lexer.start_lt_of_gives hus h t ht).trans_le (Lexer.position_le_of_error he)
  obtain _ | ⟨t₀, us'⟩ := us
  · cases h
    exact ⟨e, by rw [parseTokens, parseFrom_of_error he], .inl rfl⟩
  obtain ⟨left₀, hn, -⟩ := gives_cons.mp h
  obtain ⟨v, ts, t, hp, -⟩ := exists_parses (τ := TokenList) hn
  unfold parseTokens
  generalize parseFrom lexer = r at hp
  cases hp with
  | value ht _ h' => exact absurd ht (hus t ((h.prefix_of_error he h').subset (by simp)))
  | refused hr _ h' =>
    have ht := (h.prefix_of_error he h').subset (List.mem_append_right ts List.mem_cons_self)
    exact ⟨_, rfl, .inr ⟨hr.not_isLexical, hstart _ ht⟩⟩
  | rejected hr _ h' =>
    have ht := (h.prefix_of_error he h').subset (List.mem_append_right ts List.mem_cons_self)
    exact ⟨_, rfl, .inr ⟨hr.not_isLexical, hstart _ ht⟩⟩
  | failed _ h' hn' =>
    have hts := (h.prefix_of_error he h').eq_of_length_le (h'.prefix_of_error hn' h).length_le
    rw [hts] at h'
    cases h'.eq h
    cases hn'.symm.trans he
    exact ⟨_, rfl, .inl rfl⟩

/-- A text parses like the list of its tokens. If it cannot be cut into tokens, then either
its lexical error is found by the parser or another error that comes before. -/
theorem parse_eq_parseTokens_of_tokenize (text : String) :
    (match tokenize text with
    | .ok ts => parse text = parseTokens (TokenList.ofTokens ts) ∧
        ∀ e, parse text = .error e → ¬ e.cause.IsLexical
    | .error e => ∃ e', parse text = .error e' ∧
        (e' = e ∨ ¬ e'.cause.IsLexical ∧ e'.position < e.position)) ∧
      ∀ tree, parse text = .ok tree → ∃ ts, tokenize text = .ok ts := by
  rcases Lexer.run_cases (Lexer.ofText text) with
    ⟨ts, t, rest, hr, hts, ht, h⟩ | ⟨ts, e, left, rest, hr, hts, h, he⟩
  · rw [tokenize, hr]
    exact ⟨parseTokens_eq_ofTokens h ht, fun _ _ => ⟨_, rfl⟩⟩
  · rw [tokenize, hr]
    obtain ⟨e', hp, he'⟩ := parseTokens_eq_error h hts he
    exact ⟨⟨e', hp, he'⟩, fun tree ht => by cases hp.symm.trans ht⟩

end Frontend
