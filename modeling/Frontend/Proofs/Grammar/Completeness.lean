import Frontend.Proofs.Grammar.Leading

/-! # Parsers find every derivation

In front of tokens that a production derives a tree from, and of a token that
may follow, its parser arrives at this tree. Productions that group to the left
arrive inside their loop with the tree made so far.
-/

namespace Frontend

open Frontend.Parser

variable {σ : Type} [TokenSource σ] {ts us : List Token} {k : TokenKind} {tree : Node}

namespace Parser

def operation {ω : Type} [Operator ω] (build : ω → Node → Node → Node) (operand : Production)
    (left : Node) : Parser σ Node := do
  let op ← operator
  let right ← operand.parser
  return build op left right

def rounds (stop : TokenKind) (nodes : List Node) : Parser σ (List Node) :=
  repeatWhile (fun kind => kind != stop && kind != .eof) nodes fun nodes => do
    return (← Production.statement.parser) :: nodes

theorem Form.operation {ω : Type} [Operator ω] (build : ω → Node → Node → Node)
    (operand : Production) {k : TokenKind} (hk : k ≠ .eof) (left : Node) :
    Form Production.parser Production.parser (fun k' => (k' == k) = true) Production.levels true
      (operation build operand left : Parser σ Node)
      (operation build operand left : Parser σ Node) :=
  (operator (by simp_all)).bind fun op =>
    (Form.call operand operand.rank_lt_levels).bind fun right => .pure (build op left right)

end Parser

namespace Production

/-- How the parser of a production goes on with a tree. Only those that group to the left
do not stop. -/
def resume (p : Production) (ts : List Token) (tree : Node) : Parser σ Node :=
  match p with
  | disjunction => repeatWhile (· == .orOp) tree (operation .logicalExpr conjunction)
  | conjunction => repeatWhile (· == .andOp) tree (operation .logicalExpr equality)
  | equality => repeatWhile (· == .equalityOp) tree (operation .binaryExpr relation)
  | relation => repeatWhile (· == .relationalOp) tree (operation .binaryExpr sum)
  | sum => repeatWhile (· == .additiveOp) tree (operation .binaryExpr product)
  | product => repeatWhile (· == .multiplicativeOp) tree (operation .binaryExpr prefixed)
  | member => repeatWhile (fun k => k == .dot || k == .openBracket) tree (memberOf parser)
  | leftHandSide =>
    if IsBareCreation ts tree then pure tree else repeatWhile (· == .openParen) tree (callOf parser)
  | _ => pure tree

/-- In front of tokens that bind too loosely, a production stops. -/
theorem resume_leads {p : Production} (hk : p.reach < k.looseness) :
    Leads (p.resume ts tree : Parser σ Node) [] k (pure tree) := by
  cases p
  case leftHandSide =>
    rw [resume]
    split
    · exact .refl _
    · exact .stop (by revert hk; cases k <;> decide)
  all_goals first
    | exact .refl _
    | exact .stop (by revert hk; cases k <;> decide)

def Finds (σ : Type) [TokenSource σ] (p : Production) (ts : List Token) (tree : Node) : Prop :=
  ∀ k, p.Follow tree k → Leads (p.parser : Parser σ Node) ts k (p.resume ts tree)

theorem Finds.leads {p : Production} (h : p.Finds σ ts tree) (hf : p.Follow tree k)
    (hk : p.reach < k.looseness) : Leads (p.parser : Parser σ Node) ts k (pure tree) := by
  have ht : Leads (p.parser : Parser σ Node) (ts ++ []) k (pure tree) :=
    (h k hf).trans (resume_leads hk)
  rwa [List.append_nil] at ht

end Production

namespace Parser.Leads

open Production

variable {α : Type} {items : List Segment} {q : Production}

theorem commas (h : CommaSeparated items ts) (hk : k ≠ .comma)
    (hi : ∀ i ∈ items, ∀ k', k' = .comma ∨ k' = k →
      Leads (q.parser : Parser σ Node) i.1 k' (pure i.2)) (nodes : List Node) :
    Leads (q.parser >>= fun node => repeatWhile (· == .comma) (node :: nodes) fun nodes => do
      let _ ← consume .comma
      return (← q.parser) :: nodes : Parser σ (List Node)) ts k
        (pure ((items.map Prod.snd).reverse ++ nodes)) := by
  induction h generalizing nodes with
  | single item =>
    refine last (hi item List.mem_cons_self k (.inr rfl)) (stop ?_)
    simpa using hk
  | @cons item items comma ts hc h ih =>
    refine bind (hi item List.mem_cons_self _ (.inl hc)) (next ?_ ?_ ?_)
    · exact fun nodes => .skip .comma (by decide) ((Form.call q q.rank_lt_levels).bind fun node =>
        .pure (node :: nodes))
    · simpa using hc
    · simp only [bind_assoc, pure_bind]
      refine skip hc ?_
      simpa using ih (fun i hi' => hi i (List.mem_cons_of_mem _ hi')) (item.2 :: nodes)

theorem commaSeparated (h : CommaSeparated items ts) (hk : k ≠ .comma)
    (hi : ∀ i ∈ items, ∀ k', k' = .comma ∨ k' = k →
      Leads (q.parser : Parser σ Node) i.1 k' (pure i.2)) :
    Leads (commaSeparated q.parser : Parser σ (List Node)) ts k
      (pure (items.map Prod.snd)) := by
  have hc := last (f := fun reversed => pure reversed.reverse) (commas h hk hi []) (refl _)
  simpa [Parser.commaSeparated] using hc

theorem parenthesized {f : Option (List Node) → Parser σ α} {r : Parser σ α}
    (h : Parenthesized items ts) (hd : ∀ i ∈ items, q.Derives i.1 i.2)
    (hq : q.starts .closeParen = false)
    (hi : ∀ i ∈ items, ∀ k', k' = .comma ∨ k' = .closeParen →
      Leads (q.parser : Parser σ Node) i.1 k' (pure i.2))
    (hf : Leads (f (Node.parameters (items.map Prod.snd))) us k r) :
    Leads (do
      let _ ← consume .openParen
      let nodes ← optionalUnless .closeParen (Parser.commaSeparated q.parser)
      let _ ← consume .closeParen
      f nodes) (ts ++ us) k r := by
  cases h with
  | nil ho hc =>
    refine skip ho (first (a := none) (peek ?_) (skip hc hf))
    rw [if_pos (by simpa using hc)]
    exact refl _
  | @some _ opening closing ts ho hs hc =>
    have hne : entry ts .closeParen ≠ .closeParen :=
      (hs.startsWith fun i hi' => (hd i hi').startsWith).entry_ne hq
    have hitems : items.map Prod.snd ≠ [] := by cases hs <;> simp
    rw [List.append_assoc, List.cons_append]
    refine skip ho (bind (a := some (items.map Prod.snd)) (peek ?_) (skip hc ?_))
    · rw [if_neg (by simpa [hc] using hne)]
      refine last (commaSeparated hs (by simp [hc]) fun i hi' k' hk => hi i hi' k' ?_) (refl _)
      simpa [hc] using hk
    · simpa [Node.parameters, hitems] using hf

theorem optionalUnless {item : Option Segment} {stop : TokenKind} {p : Parser σ Node}
    (hd : ∀ i ∈ item, q.Derives i.1 i.2) (hq : q.starts stop = false)
    (hi : ∀ i ∈ item, Leads p i.1 stop (pure i.2)) :
    Leads (optionalUnless stop p) (Segment.tokens item) stop (pure (item.map Prod.snd)) := by
  cases item with
  | none =>
    refine peek ?_
    rw [if_pos (show entry (Segment.tokens none) stop = stop from rfl)]
    exact refl _
  | some item =>
    refine peek ?_
    have hne : entry (Segment.tokens (some item)) stop ≠ stop :=
      (hd item rfl).startsWith.entry_ne hq
    rw [if_neg hne]
    exact last (hi item rfl) (refl _)

theorem rounds {stop : TokenKind} (hd : ∀ i ∈ items, Production.statement.Derives i.1 i.2)
    (hi : ∀ i ∈ items, Production.statement.Finds σ i.1 i.2)
    (hstop : Production.statement.starts stop = false) (helse : k ≠ .elseWord)
    (nodes : List Node) :
    Leads (rounds stop nodes : Parser σ (List Node)) (items.flatMap Prod.fst) k
      (rounds stop ((items.map Prod.snd).reverse ++ nodes)) := by
  induction items generalizing nodes with
  | nil => exact refl _
  | cons item items ih =>
    obtain ⟨hd₁, hd⟩ := List.forall_mem_cons.mp hd
    obtain ⟨hi₁, hi⟩ := List.forall_mem_cons.mp hi
    have hnext : entry (items.flatMap Prod.fst) k ≠ .elseWord := by
      cases items with
      | nil => exact helse
      | cons item' items =>
        exact ((hd item' List.mem_cons_self).startsWith.append).entry_ne rfl
    rw [List.flatMap_cons]
    refine next ?_ ?_ ?_
    · exact fun nodes => (Form.call .statement (by decide)).bind fun node => .pure (node :: nodes)
    · have hs : StartsWith _ (item.1 ++ items.flatMap Prod.fst) := hd₁.startsWith.append
      simpa using ⟨hs.entry_ne hstop, hs.entry_ne rfl⟩
    · simp only [bind_assoc, pure_bind]
      refine bind (hi₁ _ fun _ => hnext) ?_
      simpa [Parser.rounds] using ih hd hi (item.2 :: nodes)

theorem statements {stop : TokenKind} (hd : ∀ i ∈ items, Production.statement.Derives i.1 i.2)
    (hi : ∀ i ∈ items, Production.statement.Finds σ i.1 i.2)
    (hstop : Production.statement.starts stop = false) (hk : k = stop ∨ k = .eof)
    (helse : k ≠ .elseWord) :
    Leads (statements Production.parser stop : Parser σ (List Node)) (items.flatMap Prod.fst) k
      (pure (items.map Prod.snd)) := by
  have hloop : Leads (Parser.rounds stop []) (items.flatMap Prod.fst ++ []) k
      (pure ((items.map Prod.snd).reverse ++ []) : Parser σ (List Node)) :=
    (rounds hd hi hstop helse []).trans (.stop (by rcases hk with rfl | rfl <;> simp))
  rw [List.append_nil, List.append_nil] at hloop
  simpa [Parser.statements, Parser.rounds] using
    last (f := fun reversed => pure reversed.reverse) hloop (refl _)

theorem operation {ω : Type} [Operator ω] {build : ω → Node → Node → Node} {symbol : Token}
    {op : ω} {left right : Node} (ho : Operator.ofSymbol? symbol.value = some op)
    (hr : Leads (q.parser : Parser σ Node) ts k (pure right)) :
    Leads (operation build q left : Parser σ Node) (symbol :: ts) k
      (pure (build op left right)) :=
  operator ho (last hr (refl _))

end Parser.Leads

theorem Parenthesized.entry_eq {items : List Segment} (h : Parenthesized items ts)
    (k : TokenKind) : entry ts k = .openParen := by
  cases h <;> assumption

namespace Production

theorem Finds.arguments {items : List Segment} (hp : Parenthesized items ts)
    (hd : ∀ i ∈ items, assignment.Derives i.1 i.2)
    (hi : ∀ i ∈ items, assignment.Finds σ i.1 i.2) :
    Leads (arguments parser : Parser σ (List Node)) ts k (pure (items.map Prod.snd)) := by
  have hargs : (Node.parameters (items.map Prod.snd)).getD [] = items.map Prod.snd := by
    unfold Node.parameters
    split <;> simp_all
  have hleads : ∀ i ∈ items, ∀ k', k' = .comma ∨ k' = .closeParen →
      Leads (assignment.parser : Parser σ Node) i.1 k' (pure i.2) := by
    intro i hi' k' hk
    refine hi i hi' k' ?_
    rcases hk with rfl | rfl <;> simp [TokenKind.looseness]
  have h := Leads.parenthesized (f := fun args => pure (args.getD [])) hp hd rfl hleads
    (.refl (k := k) _)
  simpa [Parser.arguments, hargs] using h

namespace Finds

theorem identifier {t : Token} (ht : t.kind = .identifier) :
    Production.identifier.Finds σ [t] (.identifier t.value) :=
  fun _ _ => .parser (.skip ht (.refl _))

theorem number {t : Token} {n : Int} (ht : t.kind = .number)
    (hn : Literal.integer? t.value = some n) : literal.Finds σ [t] (.numericLit n) := by
  refine fun k _ => .parser (.peek ?_)
  rw [entry_cons, ht]
  refine .skip ht ?_
  rw [numberOf, hn]
  exact .refl _

theorem string {t : Token} (ht : t.kind = .string) :
    literal.Finds σ [t] (.stringLit (Literal.unquoted t.value)) := by
  refine fun k _ => .parser (.peek ?_)
  rw [entry_cons, ht]
  exact .skip ht (.refl _)

theorem constant {t : Token} (ht : Node.constant? t.kind = some tree) :
    literal.Finds σ [t] tree := by
  refine fun k _ => .parser (.peek ?_)
  rw [entry_cons]
  cases hk : t.kind <;> rw [hk] at ht <;> cases ht <;> exact .skip hk (.refl _)

theorem this {t : Token} (ht : t.kind = .thisWord) : primary.Finds σ [t] .thisExpr := by
  refine fun k _ => .parser (.peek ?_)
  rw [entry_cons, ht]
  exact .skip ht (.refl _)

theorem grouping {opening closing : Token} (ho : opening.kind = .openParen)
    (h : Production.sequence.Finds σ ts tree) (hc : closing.kind = .closeParen) :
    Production.grouping.Finds σ (opening :: ts ++ [closing]) tree := by
  refine fun k _ => .parser (.skip ho (.bind (h _ ?_) (.skip hc (.refl _))))
  simp [TokenKind.looseness, hc]

theorem creation {word : Token} {callee : Node} {args : List Segment}
    (hw : word.kind = .newWord) (h : Production.member.Finds σ ts callee)
    (hp : Parenthesized args us) (hd : ∀ arg ∈ args, assignment.Derives arg.1 arg.2)
    (ha : ∀ arg ∈ args, assignment.Finds σ arg.1 arg.2) :
    Production.creation.Finds σ (word :: ts ++ us) (.newExpr callee (args.map Prod.snd)) := by
  refine fun k _ =>
    .parser (.skip hw (.bind (h.leads ?_ ?_) (.last (arguments hp hd ha) (.refl _))))
  · simp [hp.entry_eq, TokenKind.looseness]
  · simp [hp.entry_eq, TokenKind.looseness]

theorem named {dot : Token} {object name : Node} (h : Production.member.Finds σ ts object)
    (hd : dot.kind = .dot) (hn : Production.identifier.Finds σ us name) :
    Production.member.Finds σ (ts ++ dot :: us) (.memberExpr false object name) := by
  intro k _
  refine (h _ ?_).trans (.next (fun _ => Form.memberOf _) ?_ (.last (.peek ?_) (.refl _)))
  · simp [TokenKind.looseness, hd]
  · simp [hd]
  · rw [entry_cons, if_pos hd]
    exact .skip hd (.last (hn k (by simp)) (.refl _))

theorem computed {opening closing : Token} {object index : Node}
    (h : Production.member.Finds σ ts object) (ho : opening.kind = .openBracket)
    (hi : Production.sequence.Finds σ us index) (hc : closing.kind = .closeBracket) :
    Production.member.Finds σ (ts ++ opening :: us ++ [closing])
      (.memberExpr true object index) := by
  intro k _
  rw [List.append_assoc]
  refine (h _ ?_).trans (.next (fun _ => Form.memberOf _) ?_ (.last (.peek ?_) (.refl _)))
  · simp [TokenKind.looseness, ho]
  · simp [ho]
  · rw [List.cons_append, entry_cons, if_neg (by simp [ho])]
    refine .skip ho (.bind (hi _ ?_) (.skip hc (.refl _)))
    simp [TokenKind.looseness, hc]

theorem callOf {callee : Node} {args : List Segment} (hp : Parenthesized args us)
    (hd : ∀ arg ∈ args, assignment.Derives arg.1 arg.2)
    (ha : ∀ arg ∈ args, assignment.Finds σ arg.1 arg.2) :
    Leads (callOf parser callee : Parser σ Node) us k
      (pure (.callExpr callee (args.map Prod.snd))) :=
  .last (arguments hp hd ha) (.refl _)

theorem superCall {word : Token} {args : List Segment} (hw : word.kind = .superWord)
    (hp : Parenthesized args ts) (hd : ∀ arg ∈ args, assignment.Derives arg.1 arg.2)
    (ha : ∀ arg ∈ args, assignment.Finds σ arg.1 arg.2) :
    leftHandSide.Finds σ (word :: ts) (.callExpr .superCall (args.map Prod.snd)) := by
  refine fun k _ => .parser (.peek ?_)
  rw [entry_cons, if_pos hw]
  refine .skip hw (.last (callOf hp hd ha) ?_)
  rw [resume, if_neg (by simp [IsBareCreation, Node.isNewExpr])]
  exact .refl _

theorem call {callee : Node} {args : List Segment} (h : leftHandSide.Finds σ ts callee)
    (hb : ¬ IsBareCreation ts callee) (hp : Parenthesized args us)
    (hd : ∀ arg ∈ args, assignment.Derives arg.1 arg.2)
    (ha : ∀ arg ∈ args, assignment.Finds σ arg.1 arg.2) :
    leftHandSide.Finds σ (ts ++ us) (.callExpr callee (args.map Prod.snd)) := by
  intro k _
  have h := h (entry us k) (by simp [hp.entry_eq, TokenKind.looseness])
  rw [resume, if_neg hb] at h
  rw [resume, if_neg (by simp [IsBareCreation, Node.isNewExpr])]
  refine h.trans (.next (fun _ => Form.callOf _) ?_
    (.last (callOf hp hd ha) (.refl _)))
  simp [hp.entry_eq]

theorem unary {symbol : Token} {op : UnaryOp} {arg : Node} (hs : symbol.kind.isUnaryOp = true)
    (ho : Operator.ofSymbol? symbol.value = some op) (h : prefixed.Finds σ ts arg) :
    prefixed.Finds σ (symbol :: ts) (.unaryExpr op arg) := by
  refine fun k hk => .parser (.peek ?_)
  rw [entry_cons, if_pos hs]
  exact .operator ho (.last (h k hk) (.refl _))

theorem binary {p q : Production} {k' : TokenKind} {symbol : Token} {op : BinaryOp}
    {left right : Node} (hl : BinaryLevel p k' q) (h : p.Finds σ ts left) (hs : symbol.kind = k')
    (ho : Operator.ofSymbol? symbol.value = some op) (hr : q.Finds σ us right) :
    p.Finds σ (ts ++ symbol :: us) (.binaryExpr op left right) := by
  intro k hk
  cases hl
  all_goals
    refine (h _ ?_).trans (.next (Form.operation _ _ (by decide)) ?_
      (.last (.operation ho (hr.leads ?_ ?_)) (.refl _)))
    · simp [TokenKind.looseness, hs]
    · simp [hs]
    · simp only [Follow, reach] at hk ⊢
      omega
    · simp only [Follow, reach] at hk ⊢
      omega

theorem logical {p q : Production} {k' : TokenKind} {symbol : Token} {op : LogicalOp}
    {left right : Node} (hl : LogicalLevel p k' q) (h : p.Finds σ ts left)
    (hs : symbol.kind = k') (ho : Operator.ofSymbol? symbol.value = some op)
    (hr : q.Finds σ us right) : p.Finds σ (ts ++ symbol :: us) (.logicalExpr op left right) := by
  intro k hk
  cases hl
  all_goals
    refine (h _ ?_).trans (.next (Form.operation _ _ (by decide)) ?_
      (.last (.operation ho (hr.leads ?_ ?_)) (.refl _)))
    · simp [TokenKind.looseness, hs]
    · simp [hs]
    · simp only [Follow, reach] at hk ⊢
      omega
    · simp only [Follow, reach] at hk ⊢
      omega

theorem assign {symbol : Token} {op : AssignOp} {left right : Node}
    (h : disjunction.Finds σ ts left) (hl : left.isAssignable = true)
    (hs : symbol.kind.isAssignOp = true) (ho : Operator.ofSymbol? symbol.value = some op)
    (hr : Production.assignment.Finds σ us right) :
    Production.assignment.Finds σ (ts ++ symbol :: us) (.assignExpr op left right) := by
  have hk := TokenKind.looseness_of_isAssignOp hs
  refine fun k hf => .parser (.bind (h.leads ?_ ?_) (.peek ?_))
  · simp [hk]
  · simp [hk]
  · rw [entry_cons, if_pos hs]
    refine .advance ?_
    rw [operatorOf, ho, pure_bind, if_pos hl]
    exact .last (hr k hf) (.refl _)

theorem sequence {items : List Segment} (hc : CommaSeparated items ts)
    (hi : ∀ item ∈ items, Production.assignment.Finds σ item.1 item.2) :
    Production.sequence.Finds σ ts (.ofSequence (items.map Prod.snd)) := by
  intro k hk
  refine .parser (.last (.commaSeparated hc ?_ fun i hi' k' hk' => hi i hi' k' ?_) (.refl _))
  · rintro rfl
    simp [TokenKind.looseness] at hk
  · rcases hk' with rfl | rfl
    · simp [TokenKind.looseness]
    · simp only [Follow, reach] at hk ⊢
      omega

theorem expressionStatement {semicolon : Token} (h : Production.sequence.Finds σ ts tree)
    (hs : semicolon.kind = .semicolon) :
    Production.expressionStatement.Finds σ (ts ++ [semicolon]) (.exprStmt tree) := by
  refine fun k _ => .parser (.bind (h _ ?_) (.skip hs (.refl _)))
  simp [TokenKind.looseness, hs]

theorem emptyStatement {semicolon : Token} (hs : semicolon.kind = .semicolon) :
    Production.emptyStatement.Finds σ [semicolon] .emptyStmt :=
  fun _ _ => .parser (.skip hs (.refl _))

theorem block {opening closing : Token} {items : List Segment} (ho : opening.kind = .openCurly)
    (hd : ∀ item ∈ items, statement.Derives item.1 item.2)
    (hi : ∀ item ∈ items, statement.Finds σ item.1 item.2) (hc : closing.kind = .closeCurly) :
    Production.block.Finds σ (opening :: items.flatMap Prod.fst ++ [closing])
      (.blockStmt (items.map Prod.snd)) :=
  fun _ _ => .parser (.skip ho (.bind (.statements hd hi rfl (.inl hc) (by simp [hc]))
    (.skip hc (.refl _))))

theorem variableStatement {semicolon : Token} (h : Production.variableList.Finds σ ts tree)
    (hs : semicolon.kind = .semicolon) :
    Production.variableStatement.Finds σ (ts ++ [semicolon]) tree :=
  fun _ _ => .parser (.bind (h _ hs) (.skip hs (.refl _)))

theorem variableList {word : Token} {items : List Segment} (hw : word.kind = .letWord)
    (hi : ∀ item ∈ items, variableDeclaration.Finds σ item.1 item.2)
    (hc : CommaSeparated items ts) :
    Production.variableList.Finds σ (word :: ts) (.varStmt (items.map Prod.snd)) := by
  rintro k (rfl : k = .semicolon)
  exact .parser (.skip hw (.last (.commaSeparated hc (by decide) fun i hi' k' => hi i hi' k')
    (.refl _)))

theorem declared {id : Node} (h : Production.identifier.Finds σ ts id) :
    variableDeclaration.Finds σ ts (.varDecl id none) := by
  refine fun k hk => .parser (.last (h k (by simp)) (.peek ?_))
  rcases hk with rfl | rfl <;> exact .refl _

theorem initialized {symbol : Token} {id init : Node} (h : Production.identifier.Finds σ ts id)
    (hs : symbol.kind = .simpleAssign) (hi : Production.assignment.Finds σ us init) :
    variableDeclaration.Finds σ (ts ++ symbol :: us) (.varDecl id (some init)) := by
  refine fun k hk => .parser (.bind (h _ (by simp)) (.peek ?_))
  simp only [entry_cons, hs, initializer, map_eq_pure_bind, bind_assoc, pure_bind]
  refine .skip hs (.last (hi k ?_) (.refl _))
  rcases hk with rfl | rfl <;> simp [TokenKind.looseness]

theorem condition (h : Production.grouping.Finds σ ts tree) :
    Leads (condition parser : Parser σ Node) ts k (pure tree) := by
  intro s s₁ hs hc hk
  have hg := h k (by simp) s s₁ hs hc hk
  rwa [parser_eq _ hs] at hg

theorem conditional {word : Token} {cond cons : Node} (hw : word.kind = .ifWord)
    (hc : Production.grouping.Finds σ ts cond) (hs : statement.Finds σ us cons) :
    Production.conditional.Finds σ (word :: ts ++ us) (.ifStmt cond cons none) := by
  intro k hk
  have hne : k ≠ .elseWord := hk rfl
  refine .parser (.skip hw (.bind (condition hc) (.last (hs k fun _ => hne) ?_)))
  refine .last (a := none) (.peek ?_) (.refl _)
  rw [entry_nil, if_neg hne]
  exact .refl _

theorem conditionalElse {word word' : Token} {vs : List Token} {cond cons alt : Node}
    (hw : word.kind = .ifWord) (hc : Production.grouping.Finds σ ts cond)
    (hs : statement.Finds σ us cons) (hopen : cons.endsOpen = false)
    (hw' : word'.kind = .elseWord) (ha : statement.Finds σ vs alt) :
    Production.conditional.Finds σ (word :: ts ++ us ++ word' :: vs)
      (.ifStmt cond cons (some alt)) := by
  intro k hk
  rw [List.append_assoc]
  refine .parser (.skip hw (.bind (condition hc) (.bind (hs _ (by simp [hopen])) ?_)))
  refine .last (a := some alt) (.peek ?_) (.refl _)
  rw [entry_cons, if_pos hw']
  refine .skip hw' ?_
  rw [map_eq_pure_bind]
  refine .last (ha k fun h => hk ?_) (.refl _)
  simpa [Node.endsOpen] using h

theorem whileLoop {word : Token} {cond body : Node} (hw : word.kind = .whileWord)
    (hc : Production.grouping.Finds σ ts cond) (hb : statement.Finds σ us body) :
    Production.whileLoop.Finds σ (word :: ts ++ us) (.whileStmt cond body) :=
  fun k hk => .parser (.skip hw (.bind (condition hc) (.last (hb k hk) (.refl _))))

theorem doWhileLoop {word word' semicolon : Token} {cond body : Node}
    (hw : word.kind = .doWord) (hb : statement.Finds σ us body) (hw' : word'.kind = .whileWord)
    (hc : Production.grouping.Finds σ ts cond) (hs : semicolon.kind = .semicolon) :
    Production.doWhileLoop.Finds σ (word :: us ++ word' :: ts ++ [semicolon])
      (.doWhileStmt cond body) := by
  intro k _
  rw [List.append_assoc]
  refine .parser (.skip hw (.bind (hb _ ?_) (.skip hw' (.bind (condition hc)
    (.skip hs (.refl _))))))
  simp [hw']

theorem loopStart {p : Production} (hp : p = .variableList ∨ p = .sequence)
    (hd : p.Derives ts tree) (h : p.Finds σ ts tree) :
    Leads (loopStart parser : Parser σ Node) ts .semicolon (pure tree) := by
  refine .peek ?_
  rcases hp with rfl | rfl
  · rw [if_pos (by simpa [starts] using hd.startsWith.entry .semicolon)]
    exact h _ rfl
  · rw [if_neg (hd.startsWith.entry_ne rfl)]
    exact h _ (by simp [TokenKind.looseness])

theorem forLoop {p : Production} {word opening semicolon semicolon' closing : Token}
    {init cond step : Option Segment} {body : Node} (hw : word.kind = .forWord)
    (ho : opening.kind = .openParen) (hp : p = .variableList ∨ p = .sequence)
    (hid : ∀ item ∈ init, p.Derives item.1 item.2) (hi : ∀ item ∈ init, p.Finds σ item.1 item.2)
    (hs : semicolon.kind = .semicolon)
    (hcd : ∀ item ∈ cond, Production.sequence.Derives item.1 item.2)
    (hc : ∀ item ∈ cond, Production.sequence.Finds σ item.1 item.2)
    (hs' : semicolon'.kind = .semicolon)
    (htd : ∀ item ∈ step, Production.sequence.Derives item.1 item.2)
    (ht : ∀ item ∈ step, Production.sequence.Finds σ item.1 item.2)
    (hcp : closing.kind = .closeParen) (hb : statement.Finds σ ts body) :
    Production.forLoop.Finds σ (word :: opening :: Segment.tokens init ++
      semicolon :: Segment.tokens cond ++ semicolon' :: Segment.tokens step ++ closing :: ts)
        (.forStmt (init.map Prod.snd) (cond.map Prod.snd) (step.map Prod.snd) body) := by
  have hclause : ∀ {clause : Option Segment} {stop : TokenKind},
      (∀ item ∈ clause, Production.sequence.Derives item.1 item.2) →
      (∀ item ∈ clause, Production.sequence.Finds σ item.1 item.2) → stop.looseness = 12 →
      Production.sequence.starts stop = false →
      Leads (optionalUnless stop (Production.sequence.parser : Parser σ Node))
        (Segment.tokens clause) stop (pure (clause.map Prod.snd)) :=
    fun hd h hl hq => .optionalUnless hd hq fun i hi => h i hi _ (by simp [hl])
  intro k hk
  simp only [List.append_assoc, List.cons_append]
  refine .parser (.skip hw (.skip ho (.bind ?_ (.skip hs (.bind ?_ (.skip hs' (.bind ?_
    (.skip hcp (.last (hb k hk) (.refl _))))))))))
  · rw [entry_cons, hs]
    exact .optionalUnless hid (by rcases hp with rfl | rfl <;> rfl) fun i hi' =>
      loopStart hp (hid i hi') (hi i hi')
  · rw [entry_cons, hs']
    exact hclause hcd hc rfl rfl
  · rw [entry_cons, hcp]
    exact hclause htd ht rfl rfl

theorem functionDeclaration {word : Token} {params : List Segment} {vs : List Token}
    {name body : Node} (hw : word.kind = .defWord) (hn : Production.identifier.Finds σ ts name)
    (hd : ∀ param ∈ params, Production.identifier.Derives param.1 param.2)
    (hi : ∀ param ∈ params, Production.identifier.Finds σ param.1 param.2)
    (hp : Parenthesized params us) (hb : Production.block.Finds σ vs body) :
    Production.functionDeclaration.Finds σ (word :: ts ++ us ++ vs)
      (.funcDecl name (Node.parameters (params.map Prod.snd)) body) := by
  intro k _
  rw [List.append_assoc]
  refine .parser (.skip hw (.bind (hn _ (by simp)) (.parenthesized hp hd rfl
    (fun i hi' k' _ => hi i hi' k' (by simp)) ?_)))
  exact .last (hb k (by simp)) (.refl _)

theorem returnStatement {word semicolon : Token} {arg : Option Segment}
    (hw : word.kind = .returnWord) (hd : ∀ item ∈ arg, Production.sequence.Derives item.1 item.2)
    (ha : ∀ item ∈ arg, Production.sequence.Finds σ item.1 item.2)
    (hs : semicolon.kind = .semicolon) :
    Production.returnStatement.Finds σ (word :: Segment.tokens arg ++ [semicolon])
      (.returnStmt (arg.map Prod.snd)) := by
  refine fun k _ => .parser (.skip hw (.bind ?_ (.skip hs (.refl _))))
  rw [entry_cons, hs]
  exact .optionalUnless hd rfl fun i hi => ha i hi _ (by simp [TokenKind.looseness])

theorem classDeclaration {word : Token} {id body : Node} (hw : word.kind = .classWord)
    (hi : Production.identifier.Finds σ ts id) (hd : Production.block.Derives us body)
    (hb : Production.block.Finds σ us body) :
    Production.classDeclaration.Finds σ (word :: ts ++ us) (.classDecl id none body) := by
  intro k _
  refine .parser (.skip hw (.bind (hi _ (by simp)) ?_))
  refine .first (a := none) (.peek ?_) (.last (hb k (by simp)) (.refl _))
  rw [entry_nil, if_neg (hd.startsWith.entry_ne rfl)]
  exact .refl _

theorem subclassDeclaration {word word' : Token} {vs : List Token} {id superclass body : Node}
    (hw : word.kind = .classWord) (hi : Production.identifier.Finds σ ts id)
    (hw' : word'.kind = .extendsWord) (hs : Production.identifier.Finds σ us superclass)
    (hb : Production.block.Finds σ vs body) :
    Production.classDeclaration.Finds σ (word :: ts ++ word' :: us ++ vs)
      (.classDecl id (some superclass) body) := by
  intro k _
  rw [List.append_assoc]
  refine .parser (.skip hw (.bind (hi _ (by simp)) ?_))
  refine .bind (a := some superclass) (.peek ?_) (.last (hb k (by simp)) (.refl _))
  rw [entry_cons, if_pos hw', map_eq_pure_bind]
  exact .skip hw' (.last (hs _ (by simp)) (.refl _))

theorem statement_of_alternative {p : Production} (hp : p ∈ alternatives .statement)
    (hd : p.Derives ts tree) (h : p.Finds σ ts tree) : statement.Finds σ ts tree := by
  intro k hk
  have hf : p.Follow tree k ∧ (p.resume ts tree : Parser σ Node) = pure tree := by
    simp only [alternatives, List.mem_cons, List.not_mem_nil, or_false] at hp
    rcases hp with rfl | rfl | rfl | rfl | rfl | rfl | rfl | rfl | rfl <;>
      first | exact ⟨hk, rfl⟩ | exact ⟨Nat.zero_le _, rfl⟩
  have hlookup : Handlers.standard.lookup (entry ts k) =
      if p = .expressionStatement then none else some p := by
    have hstart := hd.startsWith.entry k
    revert hstart
    simp only [alternatives, List.mem_cons, List.not_mem_nil, or_false] at hp
    rcases hp with rfl | rfl | rfl | rfl | rfl | rfl | rfl | rfl | rfl <;>
      cases entry ts k <;> decide
  have hl : Leads p.parser ts k (pure tree : Parser σ Node) := hf.2 ▸ h k hf.1
  refine .parser (.dispatch ?_)
  rw [hlookup]
  split_ifs with he
  · exact he ▸ hl
  · exact hl

theorem iteration_of_alternative {p : Production} (hp : p ∈ alternatives .iteration)
    (hd : p.Derives ts tree) (h : p.Finds σ ts tree) : iteration.Finds σ ts tree := by
  refine fun k hk => .parser (.peek ?_)
  have hstart := hd.startsWith.entry k
  simp only [alternatives, List.mem_cons, List.not_mem_nil, or_false] at hp
  rcases hp with rfl | rfl | rfl <;> rw [beq_iff_eq.mp hstart]
  · exact h k hk
  · exact h k (Nat.zero_le _)
  · exact h k hk

theorem assignment_of_disjunction (h : disjunction.Finds σ ts tree) :
    Production.assignment.Finds σ ts tree := by
  intro k hk
  have hk : 11 ≤ k.looseness := hk
  have hne : ¬ k.isAssignOp = true := by
    revert hk
    cases k <;> decide
  refine .parser (.last (h.leads ?_ ?_) (.peek ?_))
  · simp only [Follow, reach]; omega
  · simp only [reach]; omega
  · rw [entry_nil, if_neg hne]
    exact .refl _

theorem prefixed_of_leftHandSide (hd : leftHandSide.Derives ts tree)
    (h : leftHandSide.Finds σ ts tree) : prefixed.Finds σ ts tree := by
  intro k hk
  have hk : 3 ≤ k.looseness := hk
  have hne : ¬ (entry ts k).isUnaryOp = true := by
    have hstart := hd.startsWith.entry k
    revert hstart
    cases entry ts k <;> decide
  refine .parser (.peek ?_)
  rw [if_neg hne]
  exact h.leads (by simp only [Follow, reach]; omega) (by simp only [reach]; omega)

theorem leftHandSide_of_member (hd : Production.member.Derives ts tree)
    (h : Production.member.Finds σ ts tree) : leftHandSide.Finds σ ts tree := by
  intro k hk
  have hk : 2 ≤ k.looseness := hk
  obtain ⟨t, us, rfl, ht⟩ := hd.startsWith.exists_cons
  refine .parser (.peek ?_)
  rw [if_neg (hd.startsWith.entry_ne rfl)]
  refine .peek (.last (h.leads ?_ ?_) (.peek ?_))
  · simp only [Follow, reach]; omega
  · simp only [reach]; omega
  rw [entry_nil, entry_cons, resume]
  by_cases hb : IsBareCreation (t :: us) tree
  · have hw : t.kind = .newWord := by simpa using hb.1
    rw [if_pos hb, if_neg (by simp [hw, hb.2])]
    exact .refl _
  · have hb' : ¬ t.kind = .newWord ∨ tree.isNewExpr = false := by
      simpa [IsBareCreation, imp_iff_not_or] using hb
    rw [if_neg hb]
    by_cases hp : k = .openParen
    · rw [if_pos (by simpa [hp] using hb')]
      exact .symm (.next (fun _ => Form.callOf _) (by simp [hp]) (.refl _))
    · rw [if_neg (by simp [hp])]
      exact .symm (.stop (by simpa using hp))

theorem primary_of_alternative {p : Production} (hp : p ∈ alternatives .primary)
    (hd : p.Derives ts tree) (h : p.Finds σ ts tree) : primary.Finds σ ts tree := by
  refine fun k hk => .parser (.peek ?_)
  have hstart := hd.startsWith.entry k
  have hl : Leads p.parser ts k (pure tree : Parser σ Node) := by
    simp only [alternatives, List.mem_cons, List.not_mem_nil, or_false] at hp
    rcases hp with rfl | rfl | rfl | rfl <;> exact h k (Nat.zero_le _)
  simp only [alternatives, List.mem_cons, List.not_mem_nil, or_false] at hp
  rcases hp with rfl | rfl | rfl | rfl
  · rw [beq_iff_eq.mp hstart]
    exact hl
  · rw [beq_iff_eq.mp hstart]
    exact hl
  · rw [beq_iff_eq.mp hstart]
    exact hl
  · cases hk' : entry ts k <;> rw [hk'] at hstart <;> first | exact hl | cases hstart

theorem of_alternative {p q : Production} (hq : q ∈ p.alternatives) (hd : q.Derives ts tree)
    (h : q.Finds σ ts tree) : p.Finds σ ts tree := by
  cases p with
  | statement => exact statement_of_alternative hq hd h
  | iteration => exact iteration_of_alternative hq hd h
  | primary => exact primary_of_alternative hq hd h
  | assignment =>
    obtain rfl := List.mem_singleton.mp hq
    exact assignment_of_disjunction h
  | prefixed =>
    obtain rfl := List.mem_singleton.mp hq
    exact prefixed_of_leftHandSide hd h
  | leftHandSide =>
    obtain rfl := List.mem_singleton.mp hq
    exact leftHandSide_of_member hd h
  | disjunction | conjunction | equality | relation | sum | product | member =>
    obtain rfl := List.mem_singleton.mp hq
    intro k hk
    refine .parser (.last (h.leads ?_ ?_) (.refl _)) <;> simp only [Follow, reach] at hk ⊢ <;> omega
  | _ => cases hq

end Finds

/-- The parser of a production finds every tree that the production derives. -/
theorem Derives.finds {p : Production} (h : p.Derives ts tree) : p.Finds σ ts tree := by
  induction h with
  | alternative hq hd ih => exact .of_alternative hq hd ih
  | identifier ht => exact .identifier ht
  | number ht hn => exact .number ht hn
  | string ht => exact .string ht
  | constant ht => exact .constant ht
  | this ht => exact .this ht
  | grouping ho _ hc ih => exact .grouping ho ih hc
  | creation hw _ ha hp ih iha => exact .creation hw ih hp ha iha
  | named _ hd _ ih ihn => exact .named ih hd ihn
  | computed _ ho _ hc ih ihi => exact .computed ih ho ihi hc
  | superCall hw ha hp iha => exact .superCall hw hp ha iha
  | call _ hb ha hp ih iha => exact .call ih hb hp ha iha
  | unary hs ho _ ih => exact .unary hs ho ih
  | binary hl _ hs ho _ ih ihr => exact .binary hl ih hs ho ihr
  | logical hl _ hs ho _ ih ihr => exact .logical hl ih hs ho ihr
  | assign _ hl hs ho _ ih ihr => exact .assign ih hl hs ho ihr
  | sequence _ hc ihi => exact .sequence hc ihi
  | expressionStatement _ hs ih => exact .expressionStatement ih hs
  | emptyStatement hs => exact .emptyStatement hs
  | block ho hd hc ihi => exact .block ho hd ihi hc
  | variableStatement _ hs ih => exact .variableStatement ih hs
  | variableList hw _ hc ihi => exact .variableList hw ihi hc
  | declared _ ih => exact .declared ih
  | initialized _ hs _ ih ihi => exact .initialized ih hs ihi
  | conditional hw _ _ ihc ihs => exact .conditional hw ihc ihs
  | conditionalElse hw _ _ ho hw' _ ihc ihs iha => exact .conditionalElse hw ihc ihs ho hw' iha
  | whileLoop hw _ _ ihc ihb => exact .whileLoop hw ihc ihb
  | doWhileLoop hw _ hw' _ hs ihb ihc => exact .doWhileLoop hw ihb hw' ihc hs
  | forLoop hw ho hp hi hs hc hs' ht hcp _ ihi ihc iht ihb =>
    exact .forLoop hw ho hp hi ihi hs hc ihc hs' ht iht hcp ihb
  | functionDeclaration hw _ hd hp _ ihn ihi ihb =>
    exact .functionDeclaration hw ihn hd ihi hp ihb
  | returnStatement hw ha hs iha => exact .returnStatement hw ha iha hs
  | classDeclaration hw _ hb ihi ihb => exact .classDeclaration hw ihi hb ihb
  | subclassDeclaration hw _ hw' _ _ ihi ihs ihb => exact .subclassDeclaration hw ihi hw' ihs ihb

end Production

end Frontend
