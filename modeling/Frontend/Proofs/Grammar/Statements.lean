import Frontend.Proofs.Grammar.Language

/-! # Lists of statements

A list of statements is parsed alike whatever it stands in. A program splits into segments
that are programs of one statement each, and braces around it make a program of one block.
-/

namespace Frontend

open Frontend.Parser

variable {ts us : List Token} {nodes : List Node} {node : Node}

/-- Statements in order, written by lists of tokens one behind the other. -/
def IsDivided (ts : List Token) (nodes : List Node) (P : List Token → Node → Prop) : Prop :=
  ∃ items : List Segment, items.flatMap Prod.fst = ts ∧ items.map Prod.snd = nodes ∧
    ∀ item ∈ items, P item.1 item.2

theorem IsDivided.congr {P Q : List Token → Node → Prop}
    (h : ∀ us node, us ⊆ ts → (P us node ↔ Q us node)) :
    IsDivided ts nodes P ↔ IsDivided ts nodes Q := by
  refine exists_congr fun items => and_congr_right fun hts => and_congr_right fun _ =>
    forall₂_congr fun item hi => h item.1 item.2 ?_
  rw [← hts]
  exact fun t ht => List.mem_flatMap.mpr ⟨item, hi, ht⟩

theorem derivesProgram_iff : DerivesProgram ts (.program nodes) ↔
    nodes ≠ [] ∧ IsDivided ts nodes Production.statement.Derives := by
  constructor
  · rintro @⟨items, hne, hi⟩
    exact ⟨by simpa using hne, items, rfl, rfl, hi⟩
  · rintro ⟨hne, items, rfl, rfl, hi⟩
    exact .intro (by simpa using hne) hi

theorem derivesProgram_singleton_iff :
    DerivesProgram ts (.program [node]) ↔ Production.statement.Derives ts node := by
  rw [derivesProgram_iff]
  constructor
  · rintro ⟨-, items, rfl, hn, hi⟩
    obtain ⟨item, rfl, rfl⟩ := List.map_eq_singleton_iff.mp hn
    simpa using hi
  · exact fun h => ⟨by simp, [(ts, node)], by simp, rfl, by simpa using h⟩

theorem Production.Derives.block_of_statement
    (h : Production.statement.Derives ts (.blockStmt nodes)) :
    Production.block.Derives ts (.blockStmt nodes) := by
  cases h with
  | alternative hq h =>
    simp only [Production.alternatives, List.mem_cons, List.not_mem_nil, or_false] at hq
    rcases hq with rfl | rfl | rfl | rfl | rfl | rfl | rfl | rfl | rfl
    case inr.inr.inl => exact h
    case inr.inr.inr.inl =>
      cases h with
      | alternative hq => cases hq
      | variableStatement h _ => cases h with | alternative hq => cases hq
    case inr.inr.inr.inr.inr.inl =>
      cases h with
      | alternative hq h =>
        simp only [Production.alternatives, List.mem_cons, List.not_mem_nil, or_false] at hq
        rcases hq with rfl | rfl | rfl <;> cases h with | alternative hq => cases hq
    all_goals cases h with | alternative hq => cases hq

theorem statement_derives_block_iff {opening closing : Token} (ho : opening.kind = .openCurly)
    (hc : closing.kind = .closeCurly) :
    Production.statement.Derives (opening :: ts ++ [closing]) (.blockStmt nodes) ↔
      IsDivided ts nodes Production.statement.Derives := by
  constructor
  · intro h
    generalize hw : opening :: ts ++ [closing] = ws at h
    cases h.block_of_statement with
    | alternative hq => cases hq
    | block _ hi _ =>
      obtain ⟨-, hw⟩ := List.cons.inj hw
      exact ⟨_, (List.append_inj' hw rfl).1.symm, rfl, hi⟩
  · rintro ⟨items, rfl, rfl, hi⟩
    exact .alternative (q := .block) (by decide) (.block ho hi hc)

/-- Tokens in front of an end of input are parsed to a program of some statements. -/
def AcceptsBefore (e : Token) (ts : List Token) (nodes : List Node) : Prop :=
  parseTokens (TokenList.ofTokens (ts ++ [e])) = .ok (.program nodes)

variable {e : Token}

theorem acceptsBefore_iff (he : e.kind = .eof) (hts : ∀ t ∈ ts, t.kind ≠ .eof) :
    AcceptsBefore e ts nodes ↔ DerivesProgram ts (.program nodes) := by
  have hg := TokenList.gives_ofTokens_self (ts ++ [e])
  exact ⟨derives_of_parseTokens hg hts he, parseTokens_eq_ok hg hts he⟩

theorem AcceptsBefore.ne_nil (he : e.kind = .eof) (h : AcceptsBefore e ts [node]) : ts ≠ [] := by
  rintro rfl
  have hd := derivesProgram_singleton_iff.mp ((acceptsBefore_iff he (by simp)).mp h)
  obtain ⟨_, _, h, -⟩ := hd.startsWith.exists_cons
  cases h

/-- Tokens are a program exactly if, in braces, they are a program that is a block of the same
statements, and exactly if they are programs of these statements one behind the other. -/
theorem acceptsBefore_iff_block_and_isDivided (ts : List Token) (hts : ∀ t ∈ ts, t.kind ≠ .eof)
    (e opening closing : Token) (he : e.kind = .eof) (ho : opening.kind = .openCurly)
    (hc : closing.kind = .closeCurly) (nodes : List Node) :
    (AcceptsBefore e ts nodes ↔
      nodes ≠ [] ∧ AcceptsBefore e (opening :: ts ++ [closing]) [.blockStmt nodes]) ∧
    (AcceptsBefore e ts nodes ↔ nodes ≠ [] ∧
      IsDivided ts nodes fun us node => us ≠ [] ∧ AcceptsBefore e us [node]) := by
  have hblock : ∀ t ∈ opening :: ts ++ [closing], t.kind ≠ .eof := by
    simpa [ho, hc, or_imp, forall_and] using hts
  have hsegment (us : List Token) (node : Node) (hus : us ⊆ ts) :
      Production.statement.Derives us node ↔ us ≠ [] ∧ AcceptsBefore e us [node] := by
    have hiff : AcceptsBefore e us [node] ↔ Production.statement.Derives us node :=
      (acceptsBefore_iff he fun t ht => hts t (hus ht)).trans derivesProgram_singleton_iff
    rw [← hiff]
    exact ⟨fun h => ⟨h.ne_nil he, h⟩, And.right⟩
  have hprogram : AcceptsBefore e ts nodes ↔
      nodes ≠ [] ∧ IsDivided ts nodes Production.statement.Derives :=
    (acceptsBefore_iff he hts).trans derivesProgram_iff
  constructor
  · rw [hprogram, acceptsBefore_iff he hblock, derivesProgram_singleton_iff,
      statement_derives_block_iff ho hc]
  · rw [hprogram, IsDivided.congr hsegment]

theorem acceptsBefore_block_danglingElse :
    let ts : List Token := danglingElse ++ [⟨.semicolon, ";", default⟩]
    let nodes : List Node := [.ifStmt (.identifier "a")
      (.ifStmt (.identifier "b") .emptyStmt (some .emptyStmt)) none, .emptyStmt]
    let opening : Token := ⟨.openCurly, "\x7b", default⟩
    let closing : Token := ⟨.closeCurly, "\x7d", default⟩
    AcceptsBefore (Token.eof 0) ts nodes ∧
      AcceptsBefore (Token.eof 0) (opening :: ts ++ [closing]) [.blockStmt nodes] ∧
      IsDivided ts nodes fun us node => us ≠ [] ∧ AcceptsBefore (Token.eof 0) us [node] := by
  intro ts nodes opening closing
  have h := acceptsBefore_iff_block_and_isDivided ts (by decide) (Token.eof 0) opening closing
    rfl rfl rfl nodes
  have hts : AcceptsBefore (Token.eof 0) ts nodes := rfl
  exact ⟨hts, (h.1.mp hts).2, (h.2.mp hts).2⟩

end Frontend
