import Frontend.Proofs.Grammar.Lines
import Frontend.Proofs.Grammar.Spans
import Frontend.Proofs.Token.Shift

/-! # One program behind another

Behind the tokens of a program the parser goes on as in front of another one,
unless an `else` follows. A text behind the lines of a program is therefore parsed
as it is alone, with the statements in front and the errors so many bytes further on.
-/

namespace Frontend

open Frontend.Parser ParserState TokenStream

/-- The program with some statements in front of it. -/
def Node.precededBy (nodes : List Node) : Node → Node
  | .program body => .program (nodes ++ body)
  | other => other

namespace Parser

theorem repeatWithin_append {σ α : Type} (wanted : TokenKind → Bool) (p : Parser σ α) (n : ℕ)
    (as base : List α) :
    repeatWithin wanted (fun as => return (← p) :: as) n (as ++ base) =
      (· ++ base) <$> repeatWithin wanted (fun as => return (← p) :: as) n as := by
  induction n generalizing as with
  | zero => rfl
  | succ n ih =>
    simp only [repeatWithin, map_bind]
    congr
    funext k
    split
    · simp only [map_bind, bind_assoc, pure_bind]
      congr
      funext a
      exact ih (a :: as)
    · simp

end Parser

section

variable {σ : Type} [TokenSource σ] {source left : σ} {us : List Token} {A : List Node}
  {tree : Node} {k : TokenKind} {e : Error}

namespace Parser

theorem rounds_append (stop : TokenKind) (nodes base : List Node) :
    (rounds stop (nodes ++ base) : Parser σ (List Node)) = (· ++ base) <$> rounds stop nodes := by
  funext s
  exact congrFun (repeatWithin_append _ _ (s.remaining + 1) nodes base) s

theorem program_eq : (program : Parser σ Node) = do
    let first ← Production.statement.parser
    let reversed ← rounds .eof [first]
    return .program reversed.reverse := by
  have hrounds : ∀ first : Node, (rounds .eof [first] : Parser σ (List Node)) =
      (· ++ [first]) <$> rounds .eof [] := fun first => rounds_append .eof [] [first]
  simp only [program, statements, hrounds, map_eq_pure_bind, bind_assoc, pure_bind,
    List.reverse_append, List.reverse_singleton, List.singleton_append]
  rfl

theorem leads_rounds_reverse (nodes : List Node) (hk : k ≠ .eof) :
    Leads (do return .program (← rounds .eof nodes.reverse).reverse : Parser σ Node) [] k
      (Node.precededBy nodes <$> program) := by
  have hnext : Leads (rounds .eof nodes.reverse : Parser σ (List Node)) [] k
      (Production.statement.parser >>= fun node => rounds .eof (node :: nodes.reverse)) := by
    apply Leads.next
    · exact fun nodes => (Form.call .statement (by decide)).bind fun node => .pure (node :: nodes)
    · simpa using hk
    · simp only [bind_assoc, pure_bind]
      exact .refl _
  have happend : ∀ node : Node, (rounds .eof (node :: nodes.reverse) : Parser σ (List Node)) =
      (· ++ nodes.reverse) <$> rounds .eof [node] := fun node => rounds_append .eof [node] _
  have hprogram : (Production.statement.parser >>= fun node => rounds .eof (node :: nodes.reverse))
      >>= (fun reversed => pure (.program reversed.reverse)) =
        (Node.precededBy nodes <$> program : Parser σ Node) := by
    simp [program_eq, happend, Node.precededBy]
  rw [← hprogram]
  exact hnext.bind_right _

end Parser

theorem DerivesProgram.startsWith (h : DerivesProgram us tree) :
    StartsWith (Production.starts · .statement) us := by
  cases h with
  | @intro items hne hi =>
    obtain ⟨first, items, rfl⟩ := List.exists_cons_of_ne_nil hne
    exact (hi first List.mem_cons_self).startsWith.append

/-- Behind the tokens of a program, statements are parsed as if they stood alone. -/
theorem DerivesProgram.leads_precededBy (h : DerivesProgram us (.program A)) (hk : k ≠ .eof)
    (hk' : k ≠ .elseWord) :
    Leads (program : Parser σ Node) us k (Node.precededBy A <$> program) := by
  generalize hA : Node.program A = tree at h
  cases h with
  | @intro items hne hi =>
    cases hA
    obtain ⟨first, items, rfl⟩ := List.exists_cons_of_ne_nil hne
    obtain ⟨hf, hi⟩ := List.forall_mem_cons.mp hi
    have hnext : entry (items.flatMap Prod.fst) k ≠ .elseWord := by
      cases items with
      | nil => exact hk'
      | cons item items => exact ((hi item List.mem_cons_self).startsWith.append).entry_ne rfl
    have hloop : Leads (rounds .eof [first.2]) (items.flatMap Prod.fst) k
        (rounds .eof ((first :: items).map Prod.snd).reverse : Parser σ (List Node)) := by
      have hfinds : ∀ i ∈ items, Production.statement.Finds σ i.1 i.2 := fun i hi' =>
        (hi i hi').finds
      simpa using Leads.rounds hi hfinds rfl hk' [first.2]
    nth_rewrite 1 [program_eq]
    rw [List.flatMap_cons]
    refine .bind (hf.finds _ fun _ => hnext) ?_
    rw [← List.append_nil (items.flatMap Prod.fst)]
    exact (hloop.bind_right _).trans (leads_rounds_reverse _ hk)

theorem DerivesProgram.parseTokens_eq_error {rest : σ} (h : DerivesProgram us tree)
    (hg : Gives source us left) (he : TokenStream.next left = (.error e, rest)) :
    parseTokens source = .error e := by
  have hlist : parseTokens (TokenList.ofTokens (us ++ [Token.eof 0])) = .ok tree :=
    parseTokens_eq_ok (TokenList.gives_ofTokens_self _) h.endFree rfl h
  obtain _ | ⟨t₀, us'⟩ := us
  · cases hg
    rw [parseTokens, parseFrom_of_error he]
  obtain ⟨left₀, hn, -⟩ := gives_cons.mp hg
  obtain ⟨v, ts, t, hp, hl⟩ := exists_parses (τ := TokenList) hn
  replace hl := fun r =>
    hl (TokenList.ofTokens (t₀ :: us' ++ [Token.eof 0])) ts t r (.refl ts) (.refl t)
  have hgives : ∀ {ts' : List Token} {rest' : σ}, Gives source ts' rest' →
      ∃ left', Gives (TokenList.ofTokens (t₀ :: us' ++ [Token.eof 0])) ts' left' := by
    intro ts' rest' h'
    obtain ⟨ws, hw⟩ := hg.prefix_of_error he h'
    rw [← hw, List.append_assoc]
    exact ⟨_, TokenList.gives_ofTokens ts' _⟩
  unfold parseTokens at hlist ⊢
  generalize parseFrom source = r at hp
  cases hp with
  | value ht _ h' =>
    have hmem := (hg.prefix_of_error he h').subset (List.mem_append_right ts List.mem_cons_self)
    exact absurd ht (h.endFree t hmem)
  | refused hr hts h' =>
    obtain ⟨left', h'⟩ := hgives h'
    rw [hl _ (.refused hr hts h')] at hlist
    cases hlist
  | rejected hr hts h' =>
    obtain ⟨left', h'⟩ := hgives h'
    rw [hl _ (.rejected hr hts h')] at hlist
    cases hlist
  | failed hts h' hn' =>
    have hts := (hg.prefix_of_error he h').eq_of_length_le (h'.prefix_of_error hn' hg).length_le
    rw [hts] at h'
    cases h'.eq hg
    cases hn'.symm.trans he
    rfl

omit [TokenSource σ] in
theorem outcome_map (f : Node → Node) (p : Parser σ Node) (s : ParserState σ) :
    (outcome ((f <$> p) s)).1 = (outcome (p s)).1.map f := by
  change (outcome (EStateM.map f p s)).1 = _
  rw [EStateM.map]
  rcases p s with ⟨tree, s₁⟩ | ⟨_ | _, s₁⟩ <;> rfl

theorem parseTokens_congr {source' : σ} (h : TokenStream.next source = TokenStream.next source') :
    parseTokens source = parseTokens source' := by
  rw [parseTokens, parseTokens, parseFrom, parseFrom, start, start, h]

theorem DerivesProgram.parseTokens_eq (h : DerivesProgram us (.program A))
    (hg : Gives source us left) (hk : ∀ t rest, TokenStream.next left = (.ok t, rest) →
      t.kind ≠ .eof ∧ t.kind ≠ .elseWord) :
    parseTokens source = (parseTokens left).map (Node.precededBy A) := by
  rcases hn : TokenStream.next left with ⟨e | t, rest⟩
  · rw [h.parseTokens_eq_error hg hn, parseTokens, parseFrom_of_error hn]
    rfl
  · obtain ⟨he, helse⟩ := hk t rest hn
    have hconcat : Gives source (us ++ [t]) rest := gives_append.mpr ⟨left, hg, rest, hn, rfl⟩
    obtain ⟨t₀, left₀, hn₀, hc⟩ := gives_concat_iff.mpr ⟨h.endFree, hconcat⟩
    have hl := h.leads_precededBy he helse _ _ (isStandard_facing t₀ left₀) hc rfl
    rw [parseTokens, parseTokens, parseFrom_of_ok hn₀, parseFrom_of_ok hn, hl, outcome_map]

end

section

variable (n : ℕ)

theorem Token.alike_shift (t : Token) : t.Alike (t.shift n) := ⟨rfl, rfl⟩

theorem Token.allAlike_shift (ts : List Token) : Token.AllAlike ts (ts.map (Token.shift n)) :=
  List.forall₂_map_right_iff.mpr (List.forall₂_same.mpr fun t _ => t.alike_shift n)

/-- A text further on is parsed as it is alone, and errors are found so many bytes further on. -/
theorem parseTokens_shift (lexer : Lexer) :
    parseTokens (lexer.shift n) = (parseTokens lexer).mapError (Error.shift n) := by
  have hnext : TokenStream.next (lexer.shift n) = Lexer.shiftNext n (TokenStream.next lexer) :=
    lexer.next_shift n
  rcases hn : TokenStream.next lexer with ⟨e | t₀, rest⟩
  · rw [hn] at hnext
    rw [parseTokens, parseTokens, parseFrom_of_error hn, parseFrom_of_error hnext]
    rfl
  · obtain ⟨v, ts, t, hp, hl⟩ := exists_parses (τ := Lexer) hn
    replace hl := fun r => hl (lexer.shift n) (ts.map (Token.shift n)) (t.shift n) r
      (Token.allAlike_shift n ts) (Token.alike_shift n t)
    unfold parseTokens
    generalize parseFrom lexer = r at hp
    have hend : ∀ {ts : List Token}, EndFree ts → EndFree (ts.map (Token.shift n)) :=
      fun h => (Token.allAlike_shift n _).ne_eof h
    cases hp with
    | value ht hts h =>
      have h := Lexer.gives_shift n h
      rw [List.map_append] at h
      rw [hl _ (.value ht (hend hts) h)]
      rfl
    | refused hr hts h =>
      have h := Lexer.gives_shift n h
      rw [List.map_append] at h
      rw [hl _ (.refused (hr.alike (Token.alike_shift n t)) (hend hts) h)]
      rfl
    | rejected hr hts h =>
      have hts := hend hts
      have h := Lexer.gives_shift n h
      rw [List.map_append] at h hts
      rw [hl _ (.rejected (hr.alike (Token.alike_shift n t)) hts h)]
      rfl
    | @failed e _ _ left _ hts h hn =>
      have hts := hend hts
      have h := Lexer.gives_shift n h
      have hn' := left.next_shift n
      rw [show left.next = _ from hn] at hn'
      rw [List.map_append] at h hts
      rw [hl _ (.failed hts h hn')]
      rfl

end

section

variable {a b : String} {A : List Node}

theorem parse_append_eq (ha : parse a = .ok (.program A)) (hend : a.toList.getLast? = some '\n')
    (hb : ∀ t rest, (Lexer.ofText b).next = (.ok t, rest) → t.kind ≠ .eof ∧ t.kind ≠ .elseWord) :
    parse (a ++ b) =
      ((parse b).mapError (Error.shift a.utf8ByteSize)).map (Node.precededBy A) := by
  obtain ⟨us, e, rest, -, he, hg, hd⟩ := exists_gives_of_parse ha
  obtain ⟨left, hg, after, hrest, -⟩ := gives_append.mp hg
  have hs : EndsLine a.toList := by
    intro c hc
    exact Option.some.inj (hc.symm.trans hend)
  obtain ⟨left', hg', hn⟩ := Lexer.gives_append hs (composable_followed.derivesProgram hd)
    hd.endFree hg hrest he b.toList
  have hshift : left'.next = ((Lexer.ofText b).shift a.utf8ByteSize).next := by
    simpa [Lexer.ofText, Lexer.shift_facing] using hn
  have hshifted := (Lexer.ofText b).next_shift a.utf8ByteSize
  have hk : ∀ t rest, TokenStream.next left' = (.ok t, rest) →
      t.kind ≠ .eof ∧ t.kind ≠ .elseWord := by
    intro t rest hn'
    have hn' : left'.next = (.ok t, rest) := hn'
    rw [hshift, hshifted] at hn'
    rcases hnb : (Lexer.ofText b).next with ⟨e | u, after⟩ <;> rw [hnb] at hn' <;> cases hn'
    exact hb u after hnb
  have htext : Lexer.ofText (a ++ b) = .facing Rule.table 0 (a.toList ++ b.toList) := by
    rw [Lexer.ofText, String.toList_append]
  rw [parse, htext, hd.parseTokens_eq hg' hk, parseTokens_congr hshift, parseTokens_shift, parse]

/-- Programs written one behind the other make one program. An error in what is written behind
a program is found where it is, unless an `else` begins it. -/
theorem parse_append (a b : String) (A : List Node) (ha : parse a = .ok (.program A))
    (hend : a.toList.getLast? = some '\n') :
    (∀ B, parse b = .ok (.program B) → parse (a ++ b) = .ok (.program (A ++ B))) ∧
      ∀ e, parse b = .error e → tokenize b ≠ .ok [Token.eof b.utf8ByteSize] →
        (∀ t rest, (Lexer.ofText b).next = (.ok t, rest) → t.kind ≠ .elseWord) →
          parse (a ++ b) = .error ⟨e.cause, a.utf8ByteSize + e.position⟩ := by
  constructor
  · intro B hB
    rw [parse_append_eq ha hend, hB]
    · rfl
    · obtain ⟨us, e, rest, -, -, hg, hd⟩ := exists_gives_of_parse hB
      obtain ⟨t, us, rfl, ht⟩ := hd.startsWith.exists_cons
      obtain ⟨left, hn, -⟩ := hg
      rintro t' rest' hn'
      cases hn.symm.trans hn'
      constructor <;> intro hk <;> rw [hk] at ht <;> cases ht
  · intro e he hblank helse
    rw [parse_append_eq ha hend, he]
    · rfl
    · intro t rest hn
      refine ⟨fun hk => hblank ?_, helse t rest hn⟩
      have hrun : (Lexer.ofText b).run = ([t], none) := by
        rw [Lexer.run_eq, hn]
        exact if_pos hk
      rw [tokenize, hrun, Lexer.eq_eof_of_next hn hk]
      simp

theorem parse_append_if :
    let line := "if (a) \"é\"; // /*\n"
    let first : Node := .ifStmt (.identifier "a") (.exprStmt (.stringLit "é")) none
    parse line = .ok (.program [first]) ∧
      parse (line ++ "b;") = .ok (.program [first, .exprStmt (.identifier "b")]) ∧
      parse (line ++ "b)") = .error ⟨.unexpectedToken .closeParen ")" .semicolon, 20⟩ := by
  intro line first
  have ha : parse line = .ok (.program [first]) := by decide +kernel
  have hb : parse "b;" = .ok (.program [.exprStmt (.identifier "b")]) := by decide +kernel
  have he : parse "b)" = .error ⟨.unexpectedToken .closeParen ")" .semicolon, 1⟩ := by
    decide +kernel
  have hend : line.toList.getLast? = some '\n' := by decide +kernel
  have hblank : tokenize "b)" ≠ .ok [Token.eof "b)".utf8ByteSize] := by decide +kernel
  have hm : Rule.firstMatch Rule.table (['b'] ++ [')']) = some (.identifier, 1) := by
    decide +kernel
  have hn : (Lexer.ofText "b)").next =
      (.ok ⟨.identifier, "b", ⟨0, 1⟩⟩, .facing Rule.table 1 [')']) :=
    Lexer.next_lexeme hm (by decide)
  refine ⟨ha, (parse_append line "b;" [first] ha hend).1 _ hb, ?_⟩
  apply (parse_append line "b)" [first] ha hend).2 _ he hblank
  rintro t rest hn'
  cases hn.symm.trans hn'
  decide

end

end Frontend
