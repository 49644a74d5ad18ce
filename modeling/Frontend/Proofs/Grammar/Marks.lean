import Frontend.Proofs.Grammar.Accepted
import Frontend.Proofs.Tree.Marks

/-! # Derived trees keep their marks

The tokens of a derivation, punctuation apart, are the marks of the tree that it
derives, in the same order. So nothing of a text is lost, made up or moved when it
is parsed.
-/

namespace Frontend

theorem Operator.symbol_of_ofSymbol? {α : Type} [Operator α] {symbol : String} {op : α}
    (h : Operator.ofSymbol? symbol = some op) : Operator.symbol op = symbol := by
  simpa using List.find?_some h

namespace Node

@[simp] theorem marks_ofSequence (body : List Node) :
    (ofSequence body).marks = marksOfList body := by
  unfold ofSequence
  split
  · simp [marksOfList]
  · rfl

@[simp] theorem marksOfLists_parameters (params : List Node) :
    marksOfLists (parameters params) = marksOfList params := by
  unfold parameters
  split
  · rename_i h
    rw [h]
    rfl
  · rfl

end Node

namespace TokenKind

variable {kind : TokenKind}

theorem mem_operators_of_isUnaryOp (h : kind.isUnaryOp = true) : kind ∈ operators := by
  revert h
  cases kind <;> decide

theorem mem_operators_of_isAssignOp (h : kind.isAssignOp = true) : kind ∈ operators := by
  revert h
  cases kind <;> decide

end TokenKind

namespace Production

theorem BinaryLevel.mem_operators {p q : Production} {kind : TokenKind}
    (h : BinaryLevel p kind q) : kind ∈ TokenKind.operators := by
  cases h <;> decide

theorem LogicalLevel.mem_operators {p q : Production} {kind : TokenKind}
    (h : LogicalLevel p kind q) : kind ∈ TokenKind.operators := by
  cases h <;> decide

end Production

/-- Tokens that have these marks if they are spelled as their kinds are. -/
def Marked (ts : List Token) (marks : List Mark) : Prop :=
  (∀ t ∈ ts, t.kind.Spells t.value.toList) → Token.marks ts = marks

namespace Marked

variable {ts us : List Token} {t : Token} {marks marks' : List Mark} {kind : TokenKind}

theorem nil : Marked [] [] := fun _ => rfl

theorem append (h : Marked ts marks) (h' : Marked us marks') :
    Marked (ts ++ us) (marks ++ marks') := by
  intro hs
  obtain ⟨hts, hus⟩ := List.forall_mem_append.mp hs
  rw [Token.marks_append, h hts, h' hus]

theorem punctuation (ht : t.kind = kind) (hk : kind ∈ TokenKind.punctuation)
    (h : Marked ts marks) : Marked (t :: ts) marks := by
  intro hs
  rw [Token.marks_punctuation ht hk, h (List.forall_mem_cons.mp hs).2]

theorem word (ht : t.kind = kind) (hk : kind ∈ TokenKind.keywords) (h : Marked ts marks) :
    Marked (t :: ts) (.word kind :: marks) := by
  intro hs
  rw [Token.marks_word ht hk, h (List.forall_mem_cons.mp hs).2]

theorem operator {α : Type} [Operator α] {op : α} (hk : t.kind ∈ TokenKind.operators)
    (ho : Operator.ofSymbol? t.value = some op) (h : Marked ts marks) :
    Marked (t :: ts) (.symbol (Operator.symbol op) :: marks) := by
  intro hs
  rw [Token.marks_symbol hk, Operator.symbol_of_ofSymbol? ho, h (List.forall_mem_cons.mp hs).2]

theorem equals (hk : t.kind = .simpleAssign) (h : Marked ts marks) :
    Marked (t :: ts) (.symbol "=" :: marks) := by
  intro hs
  obtain ⟨ht, hs⟩ := List.forall_mem_cons.mp hs
  have hv : t.value = "=" := by
    simpa [hk, TokenKind.Spells, TokenKind.spellings, TokenKind.name] using ht
  rw [Token.marks_symbol (by simp [hk, TokenKind.operators]), hv, h hs]

theorem number {n : Int} (hk : t.kind = .number) (hn : Literal.integer? t.value = some n) :
    Marked [t] [.number n] := by
  intro hs
  have ht := hs t List.mem_cons_self
  rw [hk] at ht
  obtain ⟨rfl, -⟩ := (Literal.integer?_of_isNumeral ht).mp hn
  exact Token.marks_operand hk (by decide)

theorem string (hk : t.kind = .string) : Marked [t] [.text (Literal.unquoted t.value).toList] := by
  intro _
  rw [Token.marks_operand hk (by decide), Literal.unquoted, String.toList_ofList]
  rfl

theorem constant {tree : Node} (hk : Node.constant? t.kind = some tree) :
    Marked [t] tree.marks := by
  cases ht : t.kind <;> rw [ht] at hk <;> cases hk <;> exact nil.word ht (by decide)

theorem between {opening closing : Token} {kind' : TokenKind} (ho : opening.kind = kind)
    (hk : kind ∈ TokenKind.punctuation) (hc : closing.kind = kind')
    (hk' : kind' ∈ TokenKind.punctuation) (h : Marked ts marks) :
    Marked (opening :: ts ++ [closing]) marks := by
  simpa using (h.punctuation ho hk).append (nil.punctuation hc hk')

theorem flatMap {items : List Segment} (hi : ∀ item ∈ items, Marked item.1 item.2.marks) :
    Marked (items.flatMap Prod.fst) (Node.marksOfList (items.map Prod.snd)) := by
  induction items with
  | nil => exact nil
  | cons item items ih =>
    obtain ⟨h, hi⟩ := List.forall_mem_cons.mp hi
    simpa [Node.marksOfList] using h.append (ih hi)

theorem commaSeparated {items : List Segment} (hc : CommaSeparated items ts)
    (hi : ∀ item ∈ items, Marked item.1 item.2.marks) :
    Marked ts (Node.marksOfList (items.map Prod.snd)) := by
  induction hc with
  | single item => simpa [Node.marksOfList] using hi item List.mem_cons_self
  | cons item hk _ ih =>
    obtain ⟨h, hi⟩ := List.forall_mem_cons.mp hi
    simpa [Node.marksOfList] using h.append ((ih hi).punctuation hk (by decide))

theorem parenthesized {items : List Segment} (hp : Parenthesized items ts)
    (hi : ∀ item ∈ items, Marked item.1 item.2.marks) :
    Marked ts (Node.marksOfList (items.map Prod.snd)) := by
  cases hp with
  | nil ho hc => exact between ho (by decide) hc (by decide) nil
  | some ho hs hc => exact between ho (by decide) hc (by decide) (commaSeparated hs hi)

theorem tokens {item : Option Segment} (hi : ∀ i ∈ item, Marked i.1 i.2.marks) :
    Marked (Segment.tokens item) (Node.marksBehind [] (item.map Prod.snd)) := by
  cases item with
  | none => exact nil
  | some item => exact hi item rfl

theorem derives {p : Production} {tree : Node} (h : p.Derives ts tree) :
    Marked ts tree.marks := by
  induction h with
  | alternative _ _ ih => exact ih
  | identifier hk => exact fun _ => Token.marks_operand hk (by decide)
  | number hk hn => exact number hk hn
  | string hk => exact string hk
  | constant hk => exact constant hk
  | this hk => exact nil.word hk (by decide)
  | grouping ho _ hc ih => exact ih.between ho (by decide) hc (by decide)
  | creation hw _ _ hp ih iha => exact (ih.word hw (by decide)).append (parenthesized hp iha)
  | named _ hd _ ih ihn => exact ih.append (ihn.punctuation hd (by decide))
  | computed _ ho _ hc ih ihi =>
    simpa [Node.marks] using ih.append (ihi.between ho (by decide) hc (by decide))
  | superCall hw _ hp iha => exact (parenthesized hp iha).word hw (by decide)
  | call _ _ _ hp ih iha => exact ih.append (parenthesized hp iha)
  | unary hk ho _ ih => exact ih.operator (TokenKind.mem_operators_of_isUnaryOp hk) ho
  | binary hl _ hk ho _ ih ihr => exact ih.append (ihr.operator (hk ▸ hl.mem_operators) ho)
  | logical hl _ hk ho _ ih ihr => exact ih.append (ihr.operator (hk ▸ hl.mem_operators) ho)
  | assign _ _ hk ho _ ih ihr =>
    exact ih.append (ihr.operator (TokenKind.mem_operators_of_isAssignOp hk) ho)
  | sequence _ hc ih => simpa using commaSeparated hc ih
  | expressionStatement _ hs ih | variableStatement _ hs ih =>
    simpa [Node.marks] using ih.append (nil.punctuation hs (by decide))
  | emptyStatement hs => exact nil.punctuation hs (by decide)
  | block ho _ hc ih => exact (flatMap ih).between ho (by decide) hc (by decide)
  | variableList hw _ hc ih => exact (commaSeparated hc ih).word hw (by decide)
  | declared _ ih => simpa [Node.marks, Node.marksBehind] using ih
  | initialized _ hs _ ih ihe => exact ih.append (ihe.equals hs)
  | conditional hw _ _ ihc ihs =>
    simpa [Node.marks, Node.marksBehind] using (ihc.word hw (by decide)).append ihs
  | conditionalElse hw _ _ _ hw' _ ihc ihs iha =>
    exact ((ihc.word hw (by decide)).append ihs).append (iha.word hw' (by decide))
  | whileLoop hw _ _ ihc ihb => exact (ihc.word hw (by decide)).append ihb
  | doWhileLoop hw _ hw' _ hs ihb ihc =>
    have hc := (ihc.word hw' (by decide)).append (nil.punctuation hs (by decide))
    simpa [Node.marks] using (ihb.word hw (by decide)).append hc
  | forLoop hw ho _ _ hs _ hs' _ hc _ ihi ihc ihs ihb =>
    have hi := ((tokens ihi).punctuation ho (by decide)).word hw (by decide)
    have hic := hi.append ((tokens ihc).punctuation hs (by decide))
    have hics := hic.append ((tokens ihs).punctuation hs' (by decide))
    simpa [Node.marks] using hics.append (ihb.punctuation hc (by decide))
  | functionDeclaration hw _ _ hp _ ihn ihi ihb =>
    simpa [Node.marks] using ((ihn.word hw (by decide)).append (parenthesized hp ihi)).append ihb
  | returnStatement hw _ hs iha =>
    simpa [Node.marks] using
      ((tokens iha).word hw (by decide)).append (nil.punctuation hs (by decide))
  | classDeclaration hw _ _ ihn ihb =>
    simpa [Node.marks, Node.marksBehind] using (ihn.word hw (by decide)).append ihb
  | subclassDeclaration hw _ hw' _ _ ihn ihs ihb =>
    exact ((ihn.word hw (by decide)).append (ihs.word hw' (by decide))).append ihb

theorem derivesProgram {tree : Node} (h : DerivesProgram ts tree) : Marked ts tree.marks := by
  cases h with
  | intro _ hi => exact flatMap fun item hm => derives (hi item hm)

end Marked

/-- The tokens of a text that is parsed have the marks of its tree, in the same order. -/
theorem tokenize_marks_of_parse {text : String} {tree : Node} (h : parse text = .ok tree) :
    ∃ ts, tokenize text = .ok ts ∧ Token.marks ts = tree.marks := by
  obtain ⟨ts, e, ht, he, hd, hts⟩ := exists_tokens_of_parse h
  refine ⟨ts ++ [e], ht, ?_⟩
  have hm : ¬ e.IsMarked := fun hm => hm.1 he
  rw [Token.marks_append, Marked.derivesProgram hd hts, Token.marks_cons, if_neg hm,
    Token.marks_nil, List.append_nil]

theorem tokenize_marks_doWhile :
    let decls : List Node :=
      [.varDecl (.identifier "b") (some (.numericLit 7)), .varDecl (.identifier "c") none]
    let tree : Node :=
      .program [.doWhileStmt (.unaryExpr .not (.identifier "a")) (.varStmt decls)]
    parse "do let b = 007, c; while (!a);" = .ok tree ∧
      ∃ ts, tokenize "do let b = 007, c; while (!a);" = .ok ts ∧
        Token.marks ts = [.word .doWord, .word .letWord, .name "b", .symbol "=", .number 7,
          .name "c", .word .whileWord, .symbol "!", .name "a"] := by
  intro decls tree
  have h : parse "do let b = 007, c; while (!a);" = .ok tree := by decide +kernel
  exact ⟨h, tokenize_marks_of_parse h⟩

end Frontend
