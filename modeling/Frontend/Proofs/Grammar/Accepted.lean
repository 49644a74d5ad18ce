import Frontend.Proofs.Grammar.Language
import Frontend.Proofs.Grammar.Tokenized
import Frontend.Proofs.Token.Spelling

/-! # What is accepted

A source that is parsed to a tree gives tokens that derive the tree. A text that
is parsed is cut into tokens that derive the tree, each spelled as its kind is.
-/

namespace Frontend

open ParserState TokenStream Frontend.Parser

theorem derives_of_parseTokens_eq_ok {σ : Type} [TokenSource σ] {source : σ} {tree : Node}
    (h : parseTokens source = .ok tree) : ∃ ts, DerivesProgram ts tree := by
  rcases hn : TokenStream.next source with ⟨e | t, rest⟩
  · rw [parseTokens, parseFrom_of_error hn] at h
    cases h
  · obtain ⟨v, ts, u, hp, hv⟩ := exists_explained hn
    unfold parseTokens at h
    generalize parseFrom source = r at hp h
    cases hp with
    | value =>
      cases h
      exact ⟨ts, hv.1⟩
    | refused | rejected | failed => cases h

theorem exists_gives_of_parse {text : String} {tree : Node} (h : parse text = .ok tree) :
    ∃ ts e rest, (Lexer.ofText text).run = (ts ++ [e], none) ∧ e.kind = .eof ∧
      Gives (Lexer.ofText text) (ts ++ [e]) rest ∧ DerivesProgram ts tree := by
  rcases Lexer.run_cases (Lexer.ofText text) with
    ⟨ts, e, rest, hr, hts, he, hg⟩ | ⟨ts, e, left, rest, -, hts, hg, he⟩
  · exact ⟨ts, e, rest, hr, he, hg, derives_of_parseTokens hg hts he h⟩
  · obtain ⟨e', hp, -⟩ := parseTokens_eq_error hg hts he
    cases hp.symm.trans h

/-- The tokens of a text that is parsed derive its tree and are spelled as their kinds are. -/
theorem exists_tokens_of_parse {text : String} {tree : Node} (h : parse text = .ok tree) :
    ∃ ts e, tokenize text = .ok (ts ++ [e]) ∧ e.kind = .eof ∧ DerivesProgram ts tree ∧
      ∀ t ∈ ts, t.kind.Spells t.value.toList := by
  obtain ⟨ts, e, rest, hr, he, hg, hd⟩ := exists_gives_of_parse h
  refine ⟨ts, e, by rw [tokenize, hr], he, hd, fun t ht => ?_⟩
  exact Lexer.spells_of_gives hg t (List.mem_append_left _ ht) (hd.endFree t ht)

theorem Token.AllAlike.forall_kind {P : TokenKind → Prop} {ts us : List Token}
    (h : Token.AllAlike ts us) (hus : ∀ t ∈ us, P t.kind) : ∀ t ∈ ts, P t.kind := by
  induction h with
  | nil => nofun
  | cons ha _ ih =>
    obtain ⟨hu, hus⟩ := List.forall_mem_cons.mp hus
    exact List.forall_mem_cons.mpr ⟨ha.kind ▸ hu, ih hus⟩

/-- Tokens like those that derive a tree are parsed to it, wherever they stand. -/
theorem parseTokens_of_allAlike {σ : Type} [TokenSource σ] {source rest : σ} {ts us : List Token}
    {u : Token} {tree : Node} (hd : DerivesProgram ts tree) (ha : Token.AllAlike ts us)
    (h : Gives source (us ++ [u]) rest) (hus : ∀ t ∈ us, t.kind ≠ .eof) (hu : u.kind = .eof) :
    parseTokens source = .ok tree := by
  have hts := ha.forall_kind (P := (· ≠ .eof)) hus
  have hg := TokenList.gives_ofTokens_self (ts ++ [u])
  have hok := parseTokens_eq_ok hg hts hu hd
  obtain ⟨t, left, hn, -⟩ := gives_concat_iff.mpr ⟨hts, hg⟩
  obtain ⟨v, vs, w, hp, hl⟩ := exists_parses (τ := σ) hn
  unfold parseTokens at hok
  generalize parseFrom (TokenList.ofTokens (ts ++ [u])) = r at hp hok
  cases hp with
  | value hw hvs hg' =>
    cases hok
    have hle := (hg.prefix_of_eof hu hvs hg').length_le
    have heq := (hg'.prefix_of_eof hw hts hg).eq_of_length_le hle
    obtain ⟨rfl, hw'⟩ := List.append_inj' heq rfl
    cases hw'
    rw [parseTokens, hl source us _ (.ok tree, rest) ha (.refl _) (.value hu hus h)]
  | refused | rejected | failed => cases hok

def Lexeme.token (v : Lexeme) : Token := ⟨v.kind, v.value, default⟩

theorem exists_tokensFrom (position : ℕ) (s : List Char) (items : List (Lexeme × List Char)) :
    ∃ ts e, tokensFrom position s items = ts ++ [e] ∧
      Token.AllAlike (items.map fun item => item.1.token) ts := by
  induction items generalizing position s with
  | nil => exact ⟨[], _, rfl, .nil⟩
  | cons item items ih =>
    obtain ⟨v, s'⟩ := item
    obtain ⟨ts, e, he, ha⟩ := ih (position + Text.size s + Text.size v.value.toList) s'
    exact ⟨_ :: ts, e, congrArg (List.cons _) he, .cons ⟨rfl, rfl⟩ ha⟩

/-- Lexemes that derive a tree are parsed to it, with whatever layout they are written. -/
theorem parse_written {s : List Char} {items : List (Lexeme × List Char)} {tree : Node}
    (h : WellSpaced s items) (hd : DerivesProgram (items.map fun item => item.1.token) tree) :
    parse (String.ofList (written s items)) = .ok tree := by
  have hw := run_written items h 0
  obtain ⟨ts, e, he, ha⟩ := exists_tokensFrom 0 s items
  rw [he, ← String.toList_ofList (l := written s items), ← Lexer.ofText] at hw
  rcases Lexer.run_cases (Lexer.ofText (String.ofList (written s items))) with
    ⟨us, u, rest, hr, hus, hu, hg⟩ | ⟨us, u, left, rest, hr, -⟩
  · obtain ⟨rfl, -⟩ := List.append_inj' (congrArg Prod.fst (hw.symm.trans hr)) rfl
    exact parseTokens_of_allAlike hd ha hg hus hu
  · cases hw.symm.trans hr

end Frontend
