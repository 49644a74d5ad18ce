import Frontend.Proofs.Grammar.Boundary
import Frontend.Proofs.Grammar.Recognition

/-! # Parsers stay within the grammar

The parser of each production recognizes what the production derives. Whatever
it returns has a derivation, and a token that it refuses stands behind tokens
that some derivation begins with.
-/

namespace Frontend

theorem CommaSeparated.concat {items : List Segment} {ts : List Token} (h : CommaSeparated items ts)
    {comma : Token} (hk : comma.kind = .comma) (item : Segment) :
    CommaSeparated (items ++ [item]) (ts ++ comma :: item.1) := by
  induction h with
  | single first => exact .cons first hk (.single item)
  | cons first hk' _ ih =>
    rw [List.append_assoc]
    exact .cons first hk' ih

theorem Segment.exists_of_elim {D : List Token → Node → Prop} {ts : List Token} {tree : Option Node}
    (h : tree.elim (ts = []) (D ts)) : ∃ segment : Option Segment,
      (∀ i ∈ segment, D i.1 i.2) ∧ Segment.tokens segment = ts ∧ segment.map Prod.snd = tree := by
  cases tree with
  | none => exact ⟨none, by simp, h.symm, rfl⟩
  | some tree => exact ⟨some (ts, tree), by simpa using h, rfl, rfl⟩

namespace Production

def Opens (p : Production) (tree : Node) : Prop := p.mayEndOpen = true ∧ tree.endsOpen = true

theorem not_opens {p : Production} (h : p.mayEndOpen = false) (tree : Node) : ¬ p.Opens tree := by
  simp [Opens, h]

end Production

namespace Parser

open Production

variable {σ : Type} [TokenSource σ] {self : Production → Parser σ Node} {α : Type}

/-- Parsers that stay within the grammar, on whatever budget they run. -/
def Grammatical (self : Production → Parser σ Node) : Prop :=
  ∀ p, Recognizes (fun _ => True) (self p) p.Derives p.Opens

namespace Recognizes

variable {known : TokenKind → Prop} {D : List Token → Node → Prop} {L : List Token → α → Prop}
  {opens : Node → Prop}

theorem commaSeparated {item : Parser σ Node} (h : Recognizes (fun _ => True) item D opens) :
    Recognizes known (commaSeparated item) (fun ts nodes => ∃ items : List Segment,
      (∀ i ∈ items, D i.1 i.2) ∧ CommaSeparated items ts ∧ nodes = items.map Prod.snd)
        (fun _ => False) := by
  refine (h.of_known fun _ _ => trivial).bind fun ts first _ hf _ => ?_
  have hloop : Recognizes (fun _ => True)
      (repeatWhile (· == .comma) [first] fun items => do
        let _ ← consume .comma
        return (← item) :: items)
      (fun us reversed => ∃ items : List Segment, (∀ i ∈ items, D i.1 i.2) ∧
        CommaSeparated items (ts ++ us) ∧ reversed = (items.map Prod.snd).reverse)
      (fun _ => False) := by
    refine .loop ⟨[(ts, first)], by simpa using hf, ?_, rfl⟩ ?_ (by simp)
    · rw [List.append_nil]
      exact .single (ts, first)
    rintro us reversed ⟨items, hi, hc, rfl⟩
    refine .skip .comma (by decide) fun comma hk => h.bind fun vs node _ hn _ => ?_
    refine .pure ⟨items ++ [(vs, node)], ?_, ?_, by simp⟩ (by simp)
    · simpa [or_imp, forall_and, -Prod.forall] using ⟨hi, hn⟩
    · simpa using hc.concat hk (vs, node)
  refine (hloop.bind fun us reversed _ ⟨items, hi, hc, hr⟩ _ => ?_).of_known fun _ _ => trivial
  exact .pure ⟨items, hi, by simpa using hc, by simp [hr]⟩ (by simp)

theorem optionalUnless {stop : TokenKind} {item : Parser σ α} {opens : α → Prop}
    (h : Recognizes (fun _ => True) item L opens) :
    Recognizes known (optionalUnless stop item)
      (fun ts o => o.elim (ts = []) (L ts)) (fun _ => False) := by
  refine (Recognizes.peek ⟨.eof, trivial⟩ fun k _ => ?_).of_known (fun _ _ => trivial)
  split
  · exact .pure rfl (by simp)
  · refine (h.of_known fun _ _ => trivial).bind fun ts a _ ha _ => .pure ?_ (by simp)
    simpa using ha

end Recognizes

namespace Grammatical

variable {known : TokenKind → Prop}

theorem call (hself : Grammatical self) (p : Production) :
    Recognizes known (self p) p.Derives p.Opens := (hself p).of_known fun _ _ => trivial

theorem alternative (hself : Grammatical self) {p q : Production} (hq : q ∈ p.alternatives) :
    Recognizes known (self q) p.Derives p.Opens := by
  refine (hself.call q).mono (fun _ _ => .alternative hq) fun ts tree h ho => ?_
  by_cases hm : q.mayEndOpen = true
  · exact ⟨hm, ho.2⟩
  · cases (h.endsOpen_eq_false (by simpa using hm)).symm.trans ho.2

theorem token {k : TokenKind} {node : Node} {L : List Token → Node → Prop} {opens : Node → Prop}
    (hk : k ≠ .eof) (h : ∀ t, t.kind = k → L [t] node) (ho : ¬ opens node) :
    Recognizes known (token k node : Parser σ Node) L opens :=
  .skip k hk fun t ht => .done (h t ht) ho

theorem identifier : Recognizes known (identifier : Parser σ Node)
    (Derives .identifier) (Opens .identifier) :=
  .skip .identifier (by decide) fun _ ht => .done (.identifier ht) (not_opens rfl _)

theorem numberLiteral : Recognizes known (numberLiteral : Parser σ Node)
    (Derives .literal) (Opens .literal) := by
  unfold Parser.numberLiteral
  rw [numberOf_eq, consume_bind_eq]
  refine (Recognizes.peek ⟨.eof, trivial⟩ fun k _ => ?_).of_known (fun _ _ => trivial)
  split
  · rename_i hk
    have hzero : checkNumber ⟨.number, "0", default⟩ = .ok (.numericLit 0) := by rfl
    refine (Recognizes.take (by rintro _ rfl; simp [hk])
      (fun t cause ht => checkNumber_rejects (ht.trans hk)) ⟨_, _, hk.symm, hzero⟩).mono
        (fun ts node ⟨t, hts, ht, h⟩ => ?_) fun _ _ _ h => absurd h (not_opens rfl _)
    unfold checkNumber at h
    split at h
    · rename_i n hn
      cases h
      exact hts ▸ .number (ht.trans hk) hn
    · cases h
  · exact .refuse _ (fun t _ => mismatch_refuses _ t) (productive _)

theorem literal : Recognizes (fun _ => True) (literal : Parser σ Node)
    (Derives .literal) (Opens .literal) := by
  refine .peek ⟨.eof, trivial⟩ fun k _ => ?_
  split
  · exact numberLiteral
  · exact .skip .string (by decide) fun _ ht => .done (.string ht) (not_opens rfl _)
  · exact token (by decide) (fun t ht => .constant (by rw [ht]; rfl)) (not_opens rfl _)
  · exact token (by decide) (fun t ht => .constant (by rw [ht]; rfl)) (not_opens rfl _)
  · exact token (by decide) (fun t ht => .constant (by rw [ht]; rfl)) (not_opens rfl _)
  · exact .refuse (fun t => .unknownLiteral t.kind t.value) (fun _ _ => ⟨rfl, rfl⟩)
      (productive _)

theorem grouping (hself : Grammatical self) :
    Recognizes known (grouping self) (Derives .grouping) (Opens .grouping) :=
  .skip .openParen (by decide) fun _ ho => (hself.call .sequence).bind fun _ _ _ he _ =>
    .skip .closeParen (by decide) fun _ hc => .done (.grouping ho he hc) (not_opens rfl _)

theorem arguments (hself : Grammatical self) :
    Recognizes known (arguments self) (fun ts args => ∃ items : List Segment,
      (∀ i ∈ items, Derives .assignment i.1 i.2) ∧ Parenthesized items ts ∧
        args = items.map Prod.snd) (fun _ => False) := by
  refine .skip .openParen (by decide) fun o ho =>
    (Recognizes.optionalUnless (.commaSeparated (hself .assignment))).bind fun ts args _ hl _ =>
      .skip .closeParen (by decide) fun c hc => .done ?_ (by simp)
  cases args with
  | none => exact ⟨[], by simp, by cases hl; exact .nil ho hc, rfl⟩
  | some args =>
    obtain ⟨items, hi, hs, rfl⟩ := hl
    exact ⟨items, hi, .some ho hs hc, rfl⟩

theorem creation (hself : Grammatical self) :
    Recognizes known (creation self) (Derives .creation) (Opens .creation) := by
  refine .skip .newWord (by decide) fun w hw => (hself.call .member).bind fun ts callee _ hc _ =>
    (arguments hself).bind fun us args _ ⟨items, hi, hp, ha⟩ _ => .done ?_ (not_opens rfl _)
  simpa [ha] using Derives.creation hw hc hi hp

theorem primary (hself : Grammatical self) :
    Recognizes (fun _ => True) (primary self) (Derives .primary) (Opens .primary) := by
  refine .peek ⟨.eof, trivial⟩ fun k _ => ?_
  split
  · exact hself.alternative (by decide)
  · exact hself.alternative (by decide)
  · exact token (by decide) (fun t ht => .this ht) (not_opens rfl _)
  · exact hself.alternative (by decide)
  · exact hself.alternative (by decide)

theorem memberOf (hself : Grammatical self) {ts : List Token} {object : Node}
    (h : Derives .member ts object) : Recognizes known (memberOf self object)
      (fun us => Derives .member (ts ++ us)) (fun _ => False) := by
  refine (Recognizes.peek ⟨.eof, trivial⟩ fun k _ => ?_).of_known (fun _ _ => trivial)
  split
  · exact .skip .dot (by decide) fun _ hd => (hself.call .identifier).bind fun us name _ hn _ =>
      .done (by simpa using Derives.named h hd hn) id
  · exact .skip .openBracket (by decide) fun _ ho =>
      (hself.call .sequence).bind fun us index _ hi _ =>
        .skip .closeBracket (by decide) fun _ hc =>
          .done (by simpa using Derives.computed h ho hi hc) id

theorem member (hself : Grammatical self) :
    Recognizes known (member self) (Derives .member) (Opens .member) := by
  refine (hself.call .primary).bind fun ts object _ ho _ => .loop ?_ (fun us tree ht => ?_)
    fun _ _ _ h => absurd h (not_opens rfl _)
  · rw [List.append_nil]
    exact .alternative (by decide) ho
  · simpa only [List.append_assoc] using memberOf hself ht

def Callable (ts : List Token) (callee : Node) : Prop :=
  ∀ (us : List Token) (args : List Segment), (∀ i ∈ args, Derives .assignment i.1 i.2) →
    Parenthesized args us → Derives .leftHandSide (ts ++ us) (.callExpr callee (args.map Prod.snd))

theorem callOf (hself : Grammatical self) {ts : List Token} {callee : Node}
    (h : Callable ts callee) : Recognizes known (callOf self callee)
      (fun us call => Derives .leftHandSide (ts ++ us) call ∧ Callable (ts ++ us) call)
        (fun _ => False) := by
  refine (arguments hself).bind fun us args _ ⟨items, hi, hp, ha⟩ _ => .done ?_ id
  rw [List.append_nil, ha]
  have hc := h us items hi hp
  exact ⟨hc, fun vs args hi hp => .call hc (fun hb => by cases hb.2) hi hp⟩

theorem calls (hself : Grammatical self) {ts : List Token} {callee : Node}
    (h : Callable ts callee) : Recognizes known (calls self callee)
      (fun us => Derives .leftHandSide (ts ++ us)) (Opens .leftHandSide) := by
  have hloop : ∀ us call, Derives .leftHandSide (ts ++ us) call ∧ Callable (ts ++ us) call →
      Recognizes (fun _ => True) (repeatWhile (· == .openParen) call (Parser.callOf self))
        (fun vs call =>
          Derives .leftHandSide (ts ++ us ++ vs) call ∧ Callable (ts ++ us ++ vs) call)
        (Opens .leftHandSide) := by
    refine fun us call hc => .loop (by rwa [List.append_nil]) (fun vs call hc => ?_)
      fun _ _ _ h => absurd h (not_opens rfl _)
    simpa only [List.append_assoc] using callOf hself hc.2
  refine (callOf hself h).bind fun us call _ hc _ => ((hloop us call hc).mono ?_ ?_).of_known ?_
  · exact fun vs call hc => by simpa only [List.append_assoc] using hc.1
  · exact fun _ _ _ h => h
  · exact fun _ _ => trivial

theorem callsOfMember (hself : Grammatical self) : Recognizes (fun _ => True) (callsOfMember self)
    (Derives .leftHandSide) (Opens .leftHandSide) := by
  refine .peek ⟨.eof, trivial⟩ fun k _ => (hself.call .member).bind_of_known ?_ ?_
  · refine fun ts callee k' hc hk _ => .peek ⟨k', rfl⟩ fun _ _ => ?_
    split
    · rename_i hcall
      refine calls hself fun us args hi hp => .call (.alternative (by decide) hc) ?_ hi hp
      rintro ⟨hw, hn⟩
      obtain ⟨t, ht, htk⟩ := Option.map_eq_some_iff.mp hw
      simp [← hk t ht, htk, hn] at hcall
    · exact .done (by simpa using hc.alternative (by decide)) (not_opens rfl _)
  · exact fun ts callee hc => ⟨[], callee, by simpa using hc.alternative (by decide)⟩

theorem leftHandSide (hself : Grammatical self) : Recognizes (fun _ => True) (leftHandSide self)
    (Derives .leftHandSide) (Opens .leftHandSide) := by
  refine .peek ⟨.eof, trivial⟩ fun k _ => ?_
  split
  · refine .skip .superWord (by decide) fun w hw => ?_
    have hc : Callable [w] .superCall := fun us args hi hp => .superCall hw hi hp
    exact calls hself hc
  · exact (callsOfMember hself).of_known fun _ _ => trivial

theorem operator {ω : Type} [Operator ω] (hk : ∀ k, known k → k ≠ .eof)
    (hx : ∃ t : Token, known t.kind ∧ ∃ op : ω, Operator.ofSymbol? t.value = some op) :
    Recognizes known (operator : Parser σ ω)
      (fun ts op => ∃ t, ts = [t] ∧ known t.kind ∧ Operator.ofSymbol? t.value = some op)
        (fun _ => False) := by
  have hcheck : ∀ (t : Token) (op : ω),
      checkOperator t = .ok op ↔ Operator.ofSymbol? t.value = some op := by
    intro t op
    unfold checkOperator
    cases (Operator.ofSymbol? t.value : Option ω) <;> simp
  unfold Parser.operator
  rw [operatorOf_eq]
  simp only [← hcheck] at hx ⊢
  obtain ⟨t, ht, op, h⟩ := hx
  exact .take hk (fun _ _ _ => checkOperator_rejects) ⟨t, op, ht, h⟩

theorem prefixed (hself : Grammatical self) :
    Recognizes (fun _ => True) (prefixed self) (Derives .prefixed) (Opens .prefixed) := by
  refine .peek ⟨.eof, trivial⟩ fun k _ => ?_
  split
  · rename_i hk
    refine (operator (by rintro _ rfl rfl; cases hk) ?_).bind fun ts op _ ⟨t, hts, ht, ho⟩ _ =>
      (hself.call .prefixed).bind fun us arg _ ha _ => .done ?_ (not_opens rfl _)
    · exact ⟨⟨k, "!", default⟩, rfl, .not, rfl⟩
    · subst hts
      simpa using Derives.unary (ht ▸ hk) ho ha
  · exact hself.alternative (by decide)

theorem leftAssociative (hself : Grammatical self) {p q : Production} {k : TokenKind} {ω : Type}
    [Operator ω] {build : ω → Node → Node → Node} (hk : k ≠ .eof) (hp : p.mayEndOpen = false)
    (hq : q ∈ p.alternatives) (hx : ∃ symbol, ∃ op : ω, Operator.ofSymbol? symbol = some op)
    (hb : ∀ {ts us : List Token} {symbol : Token} {op : ω} {left right : Node},
      p.Derives ts left → symbol.kind = k → Operator.ofSymbol? symbol.value = some op →
        q.Derives us right → p.Derives (ts ++ symbol :: us) (build op left right)) :
    Recognizes known (leftAssociative build (self q) k) p.Derives p.Opens := by
  refine (hself.call q).bind fun ts first _ hf _ => .loop ?_ (fun us left hl => ?_)
    fun _ _ _ h => absurd h (not_opens hp _)
  · rw [List.append_nil]
    exact .alternative hq hf
  obtain ⟨symbol, op, hs⟩ := hx
  refine (operator (by rintro _ hw rfl; simp_all) ⟨⟨k, symbol, default⟩, by simp, op, hs⟩).bind
    fun vs op _ ⟨t, hvs, ht, ho⟩ _ => (hself.call q).bind fun ws right _ hr _ => .done ?_ id
  subst hvs
  simpa using hb hl (by simpa using ht) ho hr

theorem assignTo (hself : Grammatical self) {ts : List Token} {left : Node}
    (h : Derives .disjunction ts left) : Recognizes (TokenKind.isAssignOp · = true)
      (assignTo self left) (fun us => Derives .assignment (ts ++ us)) (Opens .assignment) := by
  have hk : ∀ k, TokenKind.isAssignOp k = true → k ≠ .eof := by rintro _ hk rfl; cases hk
  rw [assignTo_eq]
  by_cases hl : left.isAssignable = true
  · have hcheck : ∀ t, checkAssignment left t = checkOperator t := by
      intro t
      unfold checkAssignment
      cases (checkOperator t : Except Cause AssignOp) <;> simp [hl]
    have hop : Recognizes (TokenKind.isAssignOp · = true) (Parser.operator : Parser σ AssignOp)
      _ _ := operator hk ⟨⟨.simpleAssign, "=", default⟩, rfl, .simple, rfl⟩
    unfold Parser.operator at hop
    simp only [hcheck, ← operatorOf_eq]
    refine hop.bind fun us op _ ⟨t, hus, ht, ho⟩ _ =>
      (hself.call .assignment).bind fun vs right _ hr _ => .done ?_ (not_opens rfl _)
    subst hus
    simpa using Derives.assign h hl ht ho hr
  · refine .reject hk (fun t ht => ?_) ⟨[], left, by simpa using h.alternative (by decide)⟩
    have hc : ∃ cause, checkAssignment left t = .error cause := by
      unfold checkAssignment
      cases (checkOperator t : Except Cause AssignOp) <;> simp [hl]
    obtain ⟨cause, hc⟩ := hc
    exact ⟨cause, hc, checkAssignment_rejects ht hc⟩

theorem assignment (hself : Grammatical self) : Recognizes known (assignment self)
    (Derives .assignment) (Opens .assignment) := by
  refine (hself.call .disjunction).bind fun ts left k hl _ => .peek ⟨k, rfl⟩ fun k' hk => ?_
  split
  · rename_i ha
    exact (assignTo hself hl).of_known (by rintro _ rfl; exact ha)
  · exact .done (by simpa using hl.alternative (by decide)) (not_opens rfl _)

theorem sequence (hself : Grammatical self) : Recognizes known (sequence self)
    (Derives .sequence) (Opens .sequence) := by
  refine (Recognizes.commaSeparated (hself .assignment)).bind
    fun ts body _ ⟨items, hi, hc, hb⟩ _ => .done ?_ (not_opens rfl _)
  simpa [hb] using Derives.sequence hi hc

theorem statement (hself : Grammatical self) : Recognizes known (statement self)
    (Derives .statement) (Opens .statement) := by
  refine .dispatch fun k => ?_
  split
  · rename_i p hp
    refine hself.alternative ?_
    cases k <;> cases hp <;> decide
  · exact hself.alternative (by decide)

theorem statements (hself : Grammatical self) {stop : TokenKind} :
    Recognizes known (statements self stop) (fun ts nodes => ∃ items : List Segment,
      (∀ i ∈ items, Derives .statement i.1 i.2) ∧ ts = items.flatMap Prod.fst ∧
        nodes = items.map Prod.snd) (fun _ => False) := by
  have hloop : Recognizes known
      (repeatWhile (fun kind => kind != stop && kind != .eof) [] fun nodes => do
        return (← self .statement) :: nodes)
      (fun ts reversed => ∃ items : List Segment, (∀ i ∈ items, Derives .statement i.1 i.2) ∧
        ts = items.flatMap Prod.fst ∧ reversed = (items.map Prod.snd).reverse)
      (fun _ => False) := by
    refine .loop ⟨[], by simp, rfl, rfl⟩ ?_ (by simp)
    rintro ts reversed ⟨items, hi, rfl, rfl⟩
    refine (hself.call .statement).bind fun us node _ hn _ => .done ?_ id
    refine ⟨items ++ [(us, node)], ?_, by simp, by simp⟩
    simpa [or_imp, forall_and, -Prod.forall] using ⟨hi, hn⟩
  exact hloop.bind fun ts reversed _ ⟨items, hi, ht, hr⟩ _ =>
    .done ⟨items, hi, by simpa using ht, by simp [hr]⟩ id

theorem expressionStatement (hself : Grammatical self) : Recognizes known
    (expressionStatement self) (Derives .expressionStatement) (Opens .expressionStatement) :=
  (hself.call .sequence).bind fun _ _ _ he _ => .skip .semicolon (by decide) fun _ hs =>
    .done (.expressionStatement he hs) (not_opens rfl _)

theorem block (hself : Grammatical self) :
    Recognizes known (block self) (Derives .block) (Opens .block) := by
  refine .skip .openCurly (by decide) fun o ho =>
    (statements hself).bind fun ts body _ ⟨items, hi, hts, hb⟩ _ =>
      .skip .closeCurly (by decide) fun c hc => .done ?_ (not_opens rfl _)
  subst hts hb
  exact .block ho hi hc

theorem variableStatement (hself : Grammatical self) : Recognizes known
    (variableStatement self) (Derives .variableStatement) (Opens .variableStatement) :=
  (hself.call .variableList).bind fun _ _ _ hl _ => .skip .semicolon (by decide) fun _ hs =>
    .done (.variableStatement hl hs) (not_opens rfl _)

theorem variableList (hself : Grammatical self) : Recognizes known (variableList self)
    (Derives .variableList) (Opens .variableList) := by
  refine .skip .letWord (by decide) fun w hw =>
    (Recognizes.commaSeparated (hself .variableDeclaration)).bind
      fun ts decls _ ⟨items, hi, hc, hd⟩ _ => .done ?_ (not_opens rfl _)
  simpa [hd] using Derives.variableList hw hi hc

theorem variableDeclaration (hself : Grammatical self) : Recognizes known
    (variableDeclaration self) (Derives .variableDeclaration) (Opens .variableDeclaration) := by
  refine (hself.call .identifier).bind fun ts id k hid _ => .peek ⟨k, rfl⟩ fun k' _ => ?_
  split
  · rw [pure_bind]
    exact .done (by simpa using Derives.declared hid) (not_opens rfl _)
  · unfold initializer
    simp only [map_eq_pure_bind, bind_assoc, pure_bind]
    refine .skip .simpleAssign (by decide) fun a ha =>
      (hself.call .assignment).bind fun us init _ hi _ => .done ?_ (not_opens rfl _)
    simpa using Derives.initialized hid ha hi

theorem condition (hself : Grammatical self) : Recognizes known (condition self)
    (Derives .grouping) (fun _ => False) :=
  (grouping hself).mono (fun _ _ => id) fun _ _ _ => False.elim

theorem conditional (hself : Grammatical self) : Recognizes known (conditional self)
    (Derives .conditional) (Opens .conditional) := by
  refine .skip .ifWord (by decide) fun w hw => (condition hself).bind fun ts cond _ hc _ =>
    (hself.call .statement).bind fun us cons k hs ho => ?_
  unfold Parser.alternative
  rw [bind_assoc]
  refine .peek ⟨k, rfl⟩ fun k' hk => ?_
  split
  · rename_i he
    simp only [map_eq_pure_bind, bind_assoc, pure_bind]
    refine .skip .elseWord (by decide) fun w' hw' => (hself.call .statement).bind
      fun vs alt _ ha hao => .pure ?_ ?_
    · have hcons : cons.endsOpen = false := by
        by_contra hn
        exact ho ⟨rfl, by simpa using hn⟩ (hk ▸ he)
      simpa using Derives.conditionalElse hw hc hs hcons hw' ha
    · rintro _ rfl hn
      exact hao ⟨rfl, hn.2⟩
  · rename_i he
    rw [pure_bind]
    refine .pure (by simpa using Derives.conditional hw hc hs) ?_
    rintro _ rfl _
    exact he

theorem whileLoop (hself : Grammatical self) : Recognizes known (whileLoop self)
    (Derives .whileLoop) (Opens .whileLoop) := by
  refine .skip .whileWord (by decide) fun w hw => (condition hself).bind fun ts cond _ hc _ =>
    (hself.call .statement).bind fun us body k hs ho => .pure ?_ ?_
  · simpa using Derives.whileLoop hw hc hs
  · rintro _ rfl hb
    exact ho ⟨rfl, hb.2⟩

theorem doWhileLoop (hself : Grammatical self) : Recognizes known (doWhileLoop self)
    (Derives .doWhileLoop) (Opens .doWhileLoop) := by
  refine .skip .doWord (by decide) fun w hw => (hself.call .statement).bind fun us body _ hb _ =>
    .skip .whileWord (by decide) fun w' hw' => (condition hself).bind fun ts cond _ hc _ =>
      .skip .semicolon (by decide) fun s hs => .done ?_ (not_opens rfl _)
  simpa using Derives.doWhileLoop hw hb hw' hc hs

theorem iteration (hself : Grammatical self) : Recognizes known (iteration self)
    (Derives .iteration) (Opens .iteration) := by
  refine (Recognizes.peek ⟨.eof, trivial⟩ fun k _ => ?_).of_known (fun _ _ => trivial)
  split
  · exact hself.alternative (by decide)
  · exact hself.alternative (by decide)
  · exact hself.alternative (by decide)
  · exact .refuse (fun t => .unexpectedToken t.kind t.value .whileWord) (fun _ _ => ⟨rfl, rfl⟩)
      (productive _)

theorem loopStart (hself : Grammatical self) : Recognizes (fun _ => True) (loopStart self)
    (fun ts tree => ∃ p : Production, (p = .variableList ∨ p = .sequence) ∧ p.Derives ts tree)
      (fun _ => False) := by
  refine .peek ⟨.eof, trivial⟩ fun k _ => ?_
  split
  · exact (hself.call .variableList).mono (fun _ _ h => ⟨_, .inl rfl, h⟩) (by simp)
  · exact (hself.call .sequence).mono (fun _ _ h => ⟨_, .inr rfl, h⟩) (by simp)

theorem forLoop (hself : Grammatical self) : Recognizes known (forLoop self)
    (Derives .forLoop) (Opens .forLoop) := by
  refine .skip .forWord (by decide) fun w hw => .skip .openParen (by decide) fun o ho =>
    (Recognizes.optionalUnless (loopStart hself)).bind fun ts init _ hi _ =>
      .skip .semicolon (by decide) fun s hs =>
        (Recognizes.optionalUnless (hself .sequence)).bind fun us cond _ hc _ =>
          .skip .semicolon (by decide) fun s' hs' =>
            (Recognizes.optionalUnless (hself .sequence)).bind fun vs step _ ht _ =>
              .skip .closeParen (by decide) fun c hcp =>
                (hself.call .statement).bind fun ws body k hb hbo => .pure ?_ ?_
  · obtain ⟨cond, hcond, rfl, rfl⟩ := Segment.exists_of_elim hc
    obtain ⟨step, hstep, rfl, rfl⟩ := Segment.exists_of_elim ht
    have hinit : ∃ p : Production, (p = .variableList ∨ p = .sequence) ∧
        init.elim (ts = []) (Derives p ts) := by
      cases init with
      | none => exact ⟨_, .inl rfl, hi⟩
      | some init => exact hi
    obtain ⟨p, hp, hi⟩ := hinit
    obtain ⟨init, hinit, rfl, rfl⟩ := Segment.exists_of_elim hi
    simpa using Derives.forLoop hw ho hp hinit hs hcond hs' hstep hcp hb
  · rintro _ rfl hn
    exact hbo ⟨rfl, hn.2⟩

theorem functionDeclaration (hself : Grammatical self) : Recognizes known
    (functionDeclaration self) (Derives .functionDeclaration) (Opens .functionDeclaration) := by
  refine .skip .defWord (by decide) fun w hw => (hself.call .identifier).bind fun ts name _ hn _ =>
    .skip .openParen (by decide) fun o ho =>
      (Recognizes.optionalUnless (.commaSeparated (hself .identifier))).bind
        fun us params _ hp _ => .skip .closeParen (by decide) fun c hc =>
          (hself.call .block).bind fun vs body _ hb _ => .done ?_ (not_opens rfl _)
  cases params with
  | none =>
    cases hp
    simpa [Node.parameters] using Derives.functionDeclaration hw hn (by simp) (.nil ho hc) hb
  | some params =>
    obtain ⟨items, hi, hs, rfl⟩ := hp
    have hne : items.map Prod.snd ≠ [] := by
      rintro he
      cases hs <;> cases he
    simpa [Node.parameters, hne] using Derives.functionDeclaration hw hn hi (.some ho hs hc) hb

theorem returnStatement (hself : Grammatical self) : Recognizes known (returnStatement self)
    (Derives .returnStatement) (Opens .returnStatement) := by
  refine .skip .returnWord (by decide) fun w hw =>
    (Recognizes.optionalUnless (hself .sequence)).bind fun ts arg _ ha _ =>
      .skip .semicolon (by decide) fun s hs => .done ?_ (not_opens rfl _)
  obtain ⟨arg, harg, rfl, rfl⟩ := Segment.exists_of_elim ha
  exact .returnStatement hw harg hs

theorem classDeclaration (hself : Grammatical self) : Recognizes known (classDeclaration self)
    (Derives .classDeclaration) (Opens .classDeclaration) := by
  refine .skip .classWord (by decide) fun w hw => (hself.call .identifier).bind
    fun ts id k hi _ => ?_
  unfold Parser.superclass
  rw [bind_assoc]
  refine .peek ⟨k, rfl⟩ fun k' _ => ?_
  split
  · simp only [map_eq_pure_bind, bind_assoc, pure_bind]
    refine .skip .extendsWord (by decide) fun w' hw' => (hself.call .identifier).bind
      fun us superclass _ hs _ => (hself.call .block).bind fun vs body _ hb _ =>
        .done ?_ (not_opens rfl _)
    simpa using Derives.subclassDeclaration hw hi hw' hs hb
  · rw [pure_bind]
    refine (hself.call .block).bind fun vs body _ hb _ => .done ?_ (not_opens rfl _)
    simpa using Derives.classDeclaration hw hi hb

/-- The bodies of the productions stay within the grammar if what they are made of does. -/
theorem body (hself : Grammatical self) : Grammatical (Production.body self) := by
  intro p
  cases p with
  | statement => exact statement hself
  | expressionStatement => exact expressionStatement hself
  | emptyStatement => exact token (by decide) (fun _ => .emptyStatement) (not_opens rfl _)
  | block => exact block hself
  | variableStatement => exact variableStatement hself
  | variableList => exact variableList hself
  | variableDeclaration => exact variableDeclaration hself
  | conditional => exact conditional hself
  | iteration => exact iteration hself
  | whileLoop => exact whileLoop hself
  | doWhileLoop => exact doWhileLoop hself
  | forLoop => exact forLoop hself
  | functionDeclaration => exact functionDeclaration hself
  | returnStatement => exact returnStatement hself
  | classDeclaration => exact classDeclaration hself
  | sequence => exact sequence hself
  | assignment => exact assignment hself
  | disjunction =>
    exact leftAssociative hself (by decide) rfl (by decide) ⟨"||", .or, rfl⟩ (.logical .disjunction)
  | conjunction =>
    exact leftAssociative hself (by decide) rfl (by decide) ⟨"&&", .and, rfl⟩
      (.logical .conjunction)
  | equality =>
    exact leftAssociative hself (by decide) rfl (by decide) ⟨"==", .eq, rfl⟩ (.binary .equality)
  | relation =>
    exact leftAssociative hself (by decide) rfl (by decide) ⟨"<", .lt, rfl⟩ (.binary .relation)
  | sum => exact leftAssociative hself (by decide) rfl (by decide) ⟨"+", .add, rfl⟩ (.binary .sum)
  | product =>
    exact leftAssociative hself (by decide) rfl (by decide) ⟨"*", .mul, rfl⟩ (.binary .product)
  | prefixed => exact prefixed hself
  | leftHandSide => exact leftHandSide hself
  | member => exact member hself
  | primary => exact primary hself
  | grouping => exact grouping hself
  | creation => exact creation hself
  | identifier => exact identifier
  | literal => exact literal

theorem within (n : ℕ) : Grammatical (Production.within n : Production → Parser σ Node) := by
  induction n with
  | zero => exact fun p => ⟨productive p, fun s _ _ => .inl ⟨s, rfl⟩⟩
  | succ n ih => exact ih.body

theorem parser : Grammatical (Production.parser : Production → Parser σ Node) :=
  fun p => ⟨productive p, fun s => (within _ p).run s⟩

/-- A program is one statement or more, and a token that is refused stands behind tokens
that some program begins with. -/
theorem program : Recognizes (fun _ => True) (program : Parser σ Node) DerivesProgram
    (fun _ => False) := by
  refine (parser.call .statement).bind fun ts first _ hf _ =>
    (statements parser).bind fun us rest _ ⟨items, hi, hus, hr⟩ _ => .done ?_ id
  subst hus hr
  simpa using DerivesProgram.intro (List.cons_ne_nil (ts, first) items)
    (List.forall_mem_cons.mpr ⟨hf, hi⟩)

end Grammatical

end Parser

end Frontend
