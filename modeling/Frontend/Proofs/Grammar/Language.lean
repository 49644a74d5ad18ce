import Frontend.Proofs.Grammar.Completeness
import Frontend.Proofs.Grammar.Soundness
import Frontend.Proofs.Grammar.Source

/-! # The language of the parser

What the parser accepts is what the grammar derives, and the tree it returns is
the only one that the grammar has for the tokens.
-/

namespace Frontend

open ParserState TokenStream Frontend.Parser

variable {σ : Type} [TokenSource σ] {source rest : σ} {ts : List Token} {tree : Node}

theorem DerivesProgram.leads (h : DerivesProgram ts tree) :
    Leads (program : Parser σ Node) ts .eof (pure tree) := by
  cases h with
  | @intro items hne hi =>
    obtain ⟨first, items, rfl⟩ := List.exists_cons_of_ne_nil hne
    obtain ⟨hf, hi⟩ := List.forall_mem_cons.mp hi
    refine .bind (hf.finds _ fun _ => ?_)
      (.last (.statements hi (fun i hi' => (hi i hi').finds) rfl (.inl rfl) (by decide)) (.refl _))
    cases items with
    | nil => simp
    | cons item items =>
      exact ((hi item List.mem_cons_self).startsWith.append).entry_ne rfl

namespace Parser

/-- A parse whose first pull succeeds ends with a verdict that agrees with the grammar. -/
theorem exists_explained {t : Token} (hn : TokenStream.next source = (.ok t, rest)) :
    ∃ v ts u, Parses source v ts u (parseFrom source) ∧
      v.Explains DerivesProgram (fun _ => False) ts u.kind :=
  exists_parses_and hn (Grammatical.program.run _ (isStandard_facing t rest) trivial)

end Parser

theorem Parser.parseTokens_eq_ok {e : Token} (h : Gives source (ts ++ [e]) rest)
    (hts : ∀ t ∈ ts, t.kind ≠ .eof) (he : e.kind = .eof) (hd : DerivesProgram ts tree) :
    parseTokens source = .ok tree := by
  obtain ⟨t, left, hn, hc⟩ := gives_concat_iff.mpr ⟨hts, h⟩
  rw [parseTokens, parseFrom_of_ok hn, hd.leads _ _ (isStandard_facing t left) hc he]
  rfl

theorem Parser.derives_of_parseTokens {e : Token} (h : Gives source (ts ++ [e]) rest)
    (hts : ∀ t ∈ ts, t.kind ≠ .eof) (he : e.kind = .eof) (hp : parseTokens source = .ok tree) :
    DerivesProgram ts tree := by
  obtain ⟨t, left, hn, -⟩ := gives_concat_iff.mpr ⟨hts, h⟩
  obtain ⟨v, us, u, hparses, hv⟩ := exists_explained hn
  unfold parseTokens at hp
  generalize parseFrom source = r at hparses hp
  cases hparses with
  | value hu hus h' =>
    cases hp
    have hle := (h.prefix_of_eof he hus h').length_le
    have heq := (h'.prefix_of_eof hu hts h).eq_of_length_le hle
    obtain ⟨rfl, -⟩ := List.append_inj' heq rfl
    exact hv.1
  | refused | rejected | failed => cases hp

/-- The parser accepts exactly what the grammar derives, and returns the one tree of it. -/
theorem parseTokens_eq_ok_iff_derivesProgram (ts : List Token) (hts : ∀ t ∈ ts, t.kind ≠ .eof)
    (e : Token) (he : e.kind = .eof) (tree : Node) :
    (parseTokens (TokenList.ofTokens (ts ++ [e])) = .ok tree ↔ DerivesProgram ts tree) ∧
      ∀ other, DerivesProgram ts tree → DerivesProgram ts other → other = tree := by
  have hg := TokenList.gives_ofTokens (ts ++ [e]) []
  rw [List.append_nil] at hg
  refine ⟨⟨derives_of_parseTokens hg hts he, parseTokens_eq_ok hg hts he⟩, fun other hd hd' => ?_⟩
  cases (parseTokens_eq_ok hg hts he hd).symm.trans (parseTokens_eq_ok hg hts he hd')
  rfl

def danglingElse : List Token :=
  [(.ifWord, "if"), (.openParen, "("), (.identifier, "a"), (.closeParen, ")"), (.ifWord, "if"),
    (.openParen, "("), (.identifier, "b"), (.closeParen, ")"), (.semicolon, ";"),
    (.elseWord, "else"), (.semicolon, ";")].map fun (k, v) => ⟨k, v, default⟩

/-- The inner of two conditions takes the `else`, and there is no other tree. -/
theorem parseTokens_danglingElse :
    let tree : Node := .program [.ifStmt (.identifier "a")
      (.ifStmt (.identifier "b") .emptyStmt (some .emptyStmt)) none]
    parseTokens (TokenList.ofTokens (danglingElse ++ [Token.eof 0])) = .ok tree ∧
      ∀ other, DerivesProgram danglingElse other → other = tree := by
  intro tree
  have hif : (⟨.ifWord, "if", default⟩ : Token).kind = .ifWord := rfl
  have helse : (⟨.elseWord, "else", default⟩ : Token).kind = .elseWord := rfl
  have hcond (v : String) : Production.grouping.Derives
      (⟨.openParen, "(", default⟩ :: [⟨.identifier, v, default⟩] ++ [⟨.closeParen, ")", default⟩])
      (.identifier v) := by
    refine .grouping rfl (.sequence_of_primary (.alternative (q := .identifier) (by decide) ?_)) rfl
    exact .identifier (t := ⟨_, v, _⟩) rfl
  have hempty : Production.statement.Derives [⟨.semicolon, ";", default⟩] .emptyStmt :=
    .alternative (q := .emptyStatement) (by decide) (.emptyStatement rfl)
  have hinner : Production.statement.Derives (danglingElse.drop 4)
      (.ifStmt (.identifier "b") .emptyStmt (some .emptyStmt)) :=
    .alternative (q := .conditional) (by decide)
      (.conditionalElse hif (hcond "b") hempty rfl helse hempty)
  have houter : Production.statement.Derives danglingElse
      (.ifStmt (.identifier "a") (.ifStmt (.identifier "b") .emptyStmt (some .emptyStmt)) none) :=
    .alternative (q := .conditional) (by decide) (.conditional hif (hcond "a") hinner)
  have hd : DerivesProgram danglingElse tree := by
    simpa using @DerivesProgram.intro [(_, _)] (by simp) (by simpa using houter)
  have h := parseTokens_eq_ok_iff_derivesProgram danglingElse (by decide) (Token.eof 0) rfl tree
  exact ⟨h.1.mpr hd, fun other => h.2 other hd⟩

end Frontend
