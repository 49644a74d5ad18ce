import Frontend.Proofs.Grammar.Soundness
import Frontend.Proofs.Grammar.Source

/-! # What errors say of the tokens

An error names a token and says something of it. Where a token is unexpected it is
neither the end of input nor what was expected, where an operator is unknown its token
is of a kind that its family has, and where a node cannot be assigned to, the tokens
right before the operator derive it. Nothing has to be known of the values that parsers
return, except where the left side of an assignment is judged.
-/

namespace Frontend

open ParserState TokenStream

namespace OperatorFamily

def kinds : OperatorFamily → List TokenKind
  | binary => [.equalityOp, .relationalOp, .additiveOp, .multiplicativeOp]
  | assign => [.simpleAssign, .complexAssign]
  | logical => [.andOp, .orOp]
  | unary => [.additiveOp, .notOp]

def has (symbol : String) : OperatorFamily → Bool
  | binary => (Operator.ofSymbol? symbol : Option BinaryOp).isSome
  | assign => (Operator.ofSymbol? symbol : Option AssignOp).isSome
  | logical => (Operator.ofSymbol? symbol : Option LogicalOp).isSome
  | unary => (Operator.ofSymbol? symbol : Option UnaryOp).isSome

/-- A token is read as an operator of a family and writes none of it. -/
def Lacks (t : Token) (family : OperatorFamily) : Prop :=
  t.kind ∈ family.kinds ∧ family.has t.value = false

theorem Lacks.ne_eof {t : Token} {family : OperatorFamily} (h : family.Lacks t) :
    t.kind ≠ .eof := by
  intro he
  have hk := h.1
  rw [he] at hk
  cases family <;> simp [kinds] at hk

end OperatorFamily

namespace TokenKind

theorem mem_kinds_assign {k : TokenKind} (h : k.isAssignOp = true) :
    k ∈ OperatorFamily.assign.kinds := by
  cases k <;> first | decide | cases h

theorem mem_kinds_unary {k : TokenKind} (h : k.isUnaryOp = true) :
    k ∈ OperatorFamily.unary.kinds := by
  cases k <;> first | decide | cases h

end TokenKind

/-- What a cause says of a token that some tokens have been consumed before. -/
def Cause.Blames (before : List Token) (t : Token) : Cause → Prop
  | unexpectedToken kind value expected => t.kind ≠ .eof ∧ kind = t.kind ∧ value = t.value ∧
      t.kind ≠ expected
  | unexpectedEnd expected => t.kind = .eof ∧ expected ≠ .eof
  | unknownLiteral kind value => kind = t.kind ∧ value = t.value ∧ t.kind.startsPrimary = false
  | unknownOperator family symbol => symbol = t.value ∧ family.Lacks t
  | notAssignable node => t.kind.isAssignOp = true ∧
      ∃ earlier ts, before = earlier ++ ts ∧ Production.disjunction.Derives ts node
  | invalidNumber value => t.kind = .number ∧ value = t.value ∧ Literal.integer? t.value = none
  | unmatchedText _ => False

def Production.isFree : Production → Bool
  | iteration | literal => false
  | _ => true

theorem Cause.Blames.append {ts us : List Token} {t : Token} {cause : Cause}
    (h : cause.Blames us t) : cause.Blames (ts ++ us) t := by
  cases cause with
  | notAssignable node =>
    obtain ⟨ht, earlier, vs, rfl, hd⟩ := h
    exact ⟨ht, ts ++ earlier, vs, by simp, hd⟩
  | _ => exact h

namespace Parser

variable {σ : Type} [TokenSource σ] {α β : Type} {self : Production → Parser σ Node}
  {past ts : List Token} {known : TokenKind → Prop}

theorem mismatch_blames {expected : TokenKind} {t : Token} (he : expected ≠ .eof)
    (ht : t.kind ≠ expected) : (mismatch expected t).Blames ts t := by
  unfold mismatch
  split
  · exact ⟨‹_›, he⟩
  · exact ⟨‹_›, rfl, rfl, ht⟩

theorem checkOperator_blames {ω : Type} [Operator ω] {t : Token} {cause : Cause}
    (ht : (Operator.ofSymbol? t.value : Option ω) = none → (Operator.family ω).Lacks t)
    (h : (checkOperator t : Except Cause ω) = .error cause) : cause.Blames ts t := by
  unfold checkOperator at h
  split at h <;> cases h
  exact ⟨rfl, ht ‹_›⟩

theorem checkNumber_blames {t : Token} {cause : Cause} (hk : t.kind = .number)
    (h : checkNumber t = .error cause) : cause.Blames ts t := by
  unfold checkNumber at h
  split at h <;> cases h
  exact ⟨hk, rfl, ‹_›⟩

theorem checkAssignment_blames {left : Node} {t : Token} {cause : Cause}
    (hd : Production.disjunction.Derives ts left) (hk : t.kind.isAssignOp = true)
    (h : checkAssignment left t = .error cause) : cause.Blames (past ++ ts) t := by
  have hlacks : (Operator.ofSymbol? t.value : Option AssignOp) = none →
      OperatorFamily.assign.Lacks t := fun hn =>
    ⟨TokenKind.mem_kinds_assign hk, congrArg Option.isSome hn⟩
  unfold checkAssignment at h
  split at h
  · split at h <;> cases h
    exact ⟨hk, past, ts, rfl, hd⟩
  · rename_i ho
    cases h
    exact checkOperator_blames hlacks ho

def Verdict.Blames (before : List Token) (t : Token) : Verdict α → Prop
  | value _ | failed => True
  | refused cause | rejected cause => cause.Blames before t

/-- Behind some tokens, and in front of a token of a known kind, a parser raises no error but
about a token that deserves it. -/
def Reports (past : List Token) (known : TokenKind → Prop) (p : Parser σ α) : Prop :=
  ∀ s, s.IsStandard → known s.lookahead.kind → (∃ s₁, p s = .error .exhausted s₁) ∨
    ∃ v ts t, Ends s v ts t (p s) ∧ v.Blames (past ++ ts) t

def MayFace (p : Production) (k : TokenKind) : Prop :=
  match p with
  | .iteration => k ≠ .eof
  | .literal => k ≠ .openParen ∧ k ≠ .identifier ∧ k ≠ .thisWord ∧ k ≠ .newWord
  | _ => True

theorem mayFace_of_isFree {p : Production} {k : TokenKind} (h : p.isFree = true) :
    MayFace p k := by
  cases p <;> trivial

theorem mayFace_of_lookup {p : Production} {k : TokenKind}
    (h : Handlers.standard.lookup k = some p) : MayFace p k := by
  cases k <;> cases h <;> first | trivial | nofun

/-- Parsers of productions that raise errors about tokens that deserve it. -/
def Accountable (self : Production → Parser σ Node) : Prop :=
  ∀ p, Reports [] (MayFace p) (self p)

namespace Reports

variable {p : Parser σ α}

theorem of_nil (h : Reports [] known p) : Reports past known p := by
  intro s hs hk
  refine (h s hs hk).imp_right ?_
  rintro ⟨v, ts, t, he, hv⟩
  refine ⟨v, ts, t, he, ?_⟩
  cases v with
  | refused | rejected => exact hv.append
  | value | failed => trivial

theorem of_known {known' : TokenKind → Prop} (h : Reports past known p)
    (hk : ∀ k, known' k → known k) : Reports past known' p := fun s hs hk' => h s hs (hk _ hk')

theorem pure (a : α) : Reports past known (Pure.pure a : Parser σ α) :=
  fun s _ _ => .inr ⟨.value a, [], s.lookahead, .value rfl, trivial⟩

/-- What follows a value is behind the tokens that the value was read from. -/
theorem bind_of_consumes {f : α → Parser σ β} (h : Reports past known p)
    (hf : ∀ s a s₁, s.IsStandard → known s.lookahead.kind → p s = .ok a s₁ →
      ∃ ts, s.Consumes ts s₁ ∧ Reports (past ++ ts) (fun _ => True) (f a)) :
    Reports past known (p >>= f) := by
  intro s hs hk
  rcases h s hs hk with ⟨s₁, he⟩ | ⟨v, ts, t, he, hv⟩
  · exact .inl ⟨s₁, bind_error f he⟩
  cases v with
  | value a =>
    obtain ⟨s₁, hp, -⟩ := he.exists_ok
    obtain ⟨ts, hc, hf⟩ := hf s a s₁ hs hk hp
    rw [bind_ok f hp]
    refine (hf s₁ (hc.isStandard hs) trivial).imp_right ?_
    rintro ⟨v, us, u, he, hv⟩
    exact ⟨v, ts ++ us, u, ends_append.mpr ⟨s₁, hc, he⟩, by rwa [← List.append_assoc]⟩
  | refused cause => exact .inr ⟨_, ts, t, he.bind_refused f, hv⟩
  | rejected cause => exact .inr ⟨_, ts, t, he.bind_rejected f, hv⟩
  | failed => exact .inr ⟨_, ts, t, he.bind_failed f, trivial⟩

theorem bind {f : α → Parser σ β} (h : Reports past known p)
    (hf : ∀ a, Reports [] (fun _ => True) (f a)) : Reports past known (p >>= f) := by
  refine h.bind_of_consumes fun s a s₁ hs hk hp => ?_
  rcases h s hs hk with ⟨s₂, he⟩ | ⟨v, ts, t, he, -⟩
  · cases he.symm.trans hp
  · rw [hp] at he
    cases he with
    | value hc => exact ⟨ts, hc, (hf a).of_nil⟩

theorem peek {f : TokenKind → Parser σ β} (h : ∀ k, known k → Reports past (· = k) (f k)) :
    Reports past known (kind >>= f) := fun s hs hk => h _ hk s hs rfl

theorem refuse (cause : Token → Cause) (hr : ∀ t, known t.kind → (cause t).Refuses t)
    (hb : ∀ t, known t.kind → (cause t).Blames past t) :
    Reports past known (Parser.refuse cause : Parser σ α) := by
  intro s _ hk
  refine .inr ⟨.refused _, [], s.lookahead, .refused rfl (hr _ hk), ?_⟩
  rw [List.append_nil]
  exact hb _ hk

theorem take {check : Token → Except Cause α} (hk : ∀ k, known k → k ≠ .eof)
    (hr : ∀ t cause, known t.kind → check t = .error cause →
      cause.Rejects t ∧ cause.Blames past t) :
    Reports past known (advance >>= fun t => settle t (check t) : Parser σ α) := by
  intro s _ hs
  rcases take_cases (hk _ hs) fun cause hv => (hr _ cause hs hv).1 with
    ⟨a, next, -, he⟩ | ⟨cause, hv, he⟩ | he
  · exact .inr ⟨.value a, _, next, he, trivial⟩
  · refine .inr ⟨.rejected cause, [], _, he, ?_⟩
    rw [List.append_nil]
    exact (hr _ cause hs hv).2
  · exact .inr ⟨.failed, [], _, he, trivial⟩

theorem read (expected : TokenKind) {check : Token → Except Cause α} (he : expected ≠ .eof)
    (hr : ∀ t cause, t.kind = expected → check t = .error cause →
      cause.Rejects t ∧ cause.Blames past t) :
    Reports past known (consume expected >>= fun t => settle t (check t) : Parser σ α) := by
  rw [consume_bind_eq]
  apply Reports.peek
  intro k _
  split
  · rename_i hk
    exact .take (by rintro _ rfl; exact hk ▸ he) fun t cause ht => hr t cause (ht.trans hk)
  · rename_i hk
    refine .refuse _ (fun t _ => mismatch_refuses _ t) ?_
    rintro t rfl
    exact mismatch_blames he hk

theorem skip (expected : TokenKind) {f : Token → Parser σ β} (he : expected ≠ .eof)
    (h : ∀ t, Reports [] (fun _ => True) (f t)) : Reports past known (consume expected >>= f) := by
  have hc : Reports past known (consume expected >>= fun t => settle t (.ok t) : Parser σ Token) :=
    .read expected he (by simp)
  simpa [settle] using hc.bind h

theorem dispatch {f : Option Production → Parser σ β}
    (h : ∀ k, Reports past (· = k) (f (Handlers.standard.lookup k))) :
    Reports past known (handler? >>= f) := by
  intro s hs _
  have hl : s.handlers = Handlers.standard := hs
  rw [handler?_bind_apply, hl]
  exact h _ s hs rfl

theorem loop {wanted : TokenKind → Bool} {body : α → Parser σ α} (a : α)
    (hb : ∀ a, Reports [] (wanted · = true) (body a)) :
    Reports past known (repeatWhile wanted a body) := by
  have hround : ∀ n a, Reports [] (fun _ => True) (repeatWithin wanted body n a) := by
    intro n
    induction n with
    | zero =>
      intro a s _ _
      exact .inl ⟨s, rfl⟩
    | succ n ih =>
      intro a
      apply Reports.peek
      intro k _
      split
      · rename_i hw
        exact ((hb a).of_known (by rintro _ rfl; exact hw)).bind ih
      · exact .pure a
  exact fun s hs _ => (hround _ a).of_nil s hs trivial

theorem map (f : α → β) (h : Reports past known p) : Reports past known (f <$> p) := by
  rw [map_eq_pure_bind]
  exact h.bind fun a => .pure (f a)

theorem optionalUnless {stop : TokenKind} (h : Reports past (fun _ => True) p) :
    Reports past known (optionalUnless stop p) := by
  apply Reports.peek
  intro k _
  split
  · exact .pure none
  · exact (h.of_known fun _ _ => trivial).bind fun a => .pure (some a)

theorem commaSeparated (h : ∀ past, Reports past (fun _ => True) p) :
    Reports past known (commaSeparated p) := by
  refine ((h past).of_known fun _ _ => trivial).bind fun first => ?_
  refine (loop [first] fun items => ?_).bind fun reversed => .pure reversed.reverse
  exact .skip .comma nofun fun _ => (h []).bind fun item => .pure (item :: items)

theorem operator {ω : Type} [Operator ω] (hk : ∀ k, known k → k ≠ .eof)
    (hl : ∀ t : Token, known t.kind → (Operator.ofSymbol? t.value : Option ω) = none →
      (Operator.family ω).Lacks t) :
    Reports past known (operator : Parser σ ω) := by
  unfold Parser.operator
  rw [operatorOf_eq]
  exact .take hk fun t cause ht h => ⟨checkOperator_rejects h, checkOperator_blames (hl t ht) h⟩

end Reports

namespace Accountable

theorem call (hself : Accountable self) (p : Production) (hp : p.isFree = true) :
    Reports past known (self p) :=
  ((hself p).of_known fun _ _ => mayFace_of_isFree hp).of_nil

theorem token {k : TokenKind} (hk : k ≠ .eof) (node : Node) :
    Reports past known (token k node : Parser σ Node) := .skip k hk fun _ => .pure node

theorem identifier : Reports past known (identifier : Parser σ Node) :=
  .skip .identifier nofun fun t => .pure (Node.identifier t.value)

theorem literal : Reports past (MayFace .literal) (literal : Parser σ Node) := by
  apply Reports.peek
  intro k hk
  split
  · unfold numberLiteral
    rw [numberOf_eq]
    exact .read .number nofun fun t cause hk h =>
      ⟨checkNumber_rejects hk h, checkNumber_blames hk h⟩
  · exact .skip .string nofun fun _ => .pure _
  · exact token (by decide) _
  · exact token (by decide) _
  · exact token (by decide) _
  · have hprimary : k.startsPrimary = false := by
      obtain ⟨hparen, hname, hthis, hnew⟩ := hk
      have hliteral : k.isLiteral = false := by cases k <;> first | rfl | contradiction
      simp [TokenKind.startsPrimary, *]
    refine Reports.refuse (fun t => .unknownLiteral t.kind t.value) (fun _ _ => ⟨rfl, rfl⟩) ?_
    rintro t rfl
    exact ⟨rfl, rfl, hprimary⟩

section

variable (hself : Accountable self)

include hself

theorem grouping : Reports past known (grouping self) :=
  .skip .openParen nofun fun _ => (hself.call .sequence rfl).bind fun _ =>
    .skip .closeParen nofun fun _ => .pure _

theorem arguments : Reports past known (arguments self) :=
  .skip .openParen nofun fun _ =>
    (Reports.optionalUnless (.commaSeparated fun _ => hself.call .assignment rfl)).bind
      fun _ => .skip .closeParen nofun fun _ => .pure _

theorem creation : Reports past known (creation self) :=
  .skip .newWord nofun fun _ => (hself.call .member rfl).bind fun _ =>
    (arguments hself).bind fun _ => .pure _

theorem primary : Reports past known (primary self) := by
  apply Reports.peek
  intro k _
  split
  · exact hself.call .grouping rfl
  · exact hself.call .identifier rfl
  · exact token (by decide) _
  · exact hself.call .creation rfl
  · rename_i hparen hname hthis hnew
    refine ((hself .literal).of_known ?_).of_nil
    rintro _ rfl
    exact ⟨hparen, hname, hthis, hnew⟩

theorem member : Reports past known (member self) := by
  refine (hself.call .primary rfl).bind fun object => .loop object fun object =>
    .peek fun k _ => ?_
  split
  · exact .skip .dot nofun fun _ => (hself.call .identifier rfl).bind fun _ => .pure _
  · exact .skip .openBracket nofun fun _ => (hself.call .sequence rfl).bind fun _ =>
      .skip .closeBracket nofun fun _ => .pure _

theorem calls (callee : Node) : Reports past known (calls self callee) := by
  have hcall : ∀ {past known} callee, Reports past known (callOf self callee) := fun _ =>
    (arguments hself).bind fun _ => .pure _
  exact (hcall callee).bind fun call => .loop call hcall

theorem leftHandSide : Reports past known (leftHandSide self) := by
  apply Reports.peek
  intro k _
  split
  · exact .skip .superWord nofun fun _ => calls hself .superCall
  · refine .peek fun _ _ => (hself.call .member rfl).bind fun callee =>
      .peek fun _ _ => ?_
    split
    · exact calls hself callee
    · exact .pure callee

theorem prefixed : Reports past known (prefixed self) := by
  apply Reports.peek
  intro k _
  split
  · rename_i hk
    have hlacks : ∀ t : Token, t.kind = k → (Operator.ofSymbol? t.value : Option UnaryOp) = none →
        OperatorFamily.unary.Lacks t := by
      rintro t rfl hn
      exact ⟨TokenKind.mem_kinds_unary hk, congrArg Option.isSome hn⟩
    refine (Reports.operator ?_ hlacks).bind fun _ =>
      (hself.call .prefixed rfl).bind fun _ => .pure _
    rintro _ rfl rfl
    cases hk
  · exact hself.call .leftHandSide rfl

theorem leftAssociative {ω : Type} [Operator ω] (build : ω → Node → Node → Node) {p : Production}
    {k : TokenKind} (hp : p.isFree = true) (hk : k ≠ .eof)
    (hl : ∀ t : Token, t.kind = k → (Operator.ofSymbol? t.value : Option ω) = none →
      (Operator.family ω).Lacks t) :
    Reports past known (leftAssociative build (self p) k) := by
  refine (hself.call p hp).bind fun first => .loop first fun _ =>
    (Reports.operator ?_ fun t hw => hl t (beq_iff_eq.mp hw)).bind fun _ =>
      (hself.call p hp).bind fun _ => .pure _
  rintro _ hw rfl
  exact hk (beq_iff_eq.mp hw).symm

theorem assignTo {left : Node} (h : Production.disjunction.Derives ts left) :
    Reports (past ++ ts) (TokenKind.isAssignOp · = true) (assignTo self left) := by
  rw [assignTo_eq]
  refine (Reports.take (by rintro _ hk rfl; cases hk) fun t cause hk hc => ?_).bind fun op =>
    (hself.call .assignment rfl).bind fun right => .pure _
  exact ⟨checkAssignment_rejects hk hc, checkAssignment_blames h hk hc⟩

theorem assignment (hg : Grammatical self) : Reports past known (assignment self) := by
  refine (hself.call .disjunction rfl).bind_of_consumes fun s left s₁ hs _ hp => ?_
  rcases (hg .disjunction).run s hs trivial with ⟨s₂, he⟩ | ⟨v, ts, t, he, hv⟩
  · cases he.symm.trans hp
  rw [hp] at he
  cases he with
  | value hc =>
    refine ⟨ts, hc, .peek fun k _ => ?_⟩
    split
    · rename_i hk
      exact (assignTo hself hv.1).of_known (by rintro _ rfl; exact hk)
    · exact .pure left

theorem sequence : Reports past known (sequence self) :=
  (Reports.commaSeparated fun _ => hself.call .assignment rfl).bind fun _ => .pure _

theorem statement : Reports past known (statement self) := by
  apply Reports.dispatch
  intro k
  split
  · rename_i p hp
    refine ((hself p).of_known ?_).of_nil
    rintro _ rfl
    exact mayFace_of_lookup hp
  · exact hself.call .expressionStatement rfl

theorem statements {stop : TokenKind} : Reports past known (statements self stop) :=
  (Reports.loop [] fun nodes => (hself.call .statement rfl).bind fun node =>
    .pure (node :: nodes)).bind fun reversed => .pure reversed.reverse

theorem expressionStatement : Reports past known (expressionStatement self) :=
  (hself.call .sequence rfl).bind fun _ => .skip .semicolon nofun fun _ => .pure _

theorem block : Reports past known (block self) :=
  .skip .openCurly nofun fun _ => (statements hself).bind fun _ =>
    .skip .closeCurly nofun fun _ => .pure _

theorem variableStatement : Reports past known (variableStatement self) :=
  (hself.call .variableList rfl).bind fun _ => .skip .semicolon nofun fun _ => .pure _

theorem variableList : Reports past known (variableList self) :=
  .skip .letWord nofun fun _ =>
    (Reports.commaSeparated fun _ => hself.call .variableDeclaration rfl).bind
      fun _ => .pure _

theorem variableDeclaration : Reports past known (variableDeclaration self) := by
  refine (hself.call .identifier rfl).bind fun id => .peek fun k _ => ?_
  split
  · exact (Reports.pure none).bind fun _ => .pure _
  · exact (Reports.map some (.skip .simpleAssign nofun fun _ =>
      hself.call .assignment rfl)).bind fun _ => .pure _

theorem conditional : Reports past known (conditional self) := by
  refine .skip .ifWord nofun fun _ => (grouping hself).bind fun _ =>
    (hself.call .statement rfl).bind fun _ => .bind (.peek fun k _ => ?_) fun _ => .pure _
  split
  · exact .skip .elseWord nofun fun _ => .map some (hself.call .statement rfl)
  · exact .pure none

theorem whileLoop : Reports past known (whileLoop self) :=
  .skip .whileWord nofun fun _ => (grouping hself).bind fun _ =>
    (hself.call .statement rfl).bind fun _ => .pure _

theorem doWhileLoop : Reports past known (doWhileLoop self) :=
  .skip .doWord nofun fun _ => (hself.call .statement rfl).bind fun _ =>
    .skip .whileWord nofun fun _ => (grouping hself).bind fun _ =>
      .skip .semicolon nofun fun _ => .pure _

theorem iteration : Reports past (MayFace .iteration) (iteration self) := by
  apply Reports.peek
  intro k hk
  split
  · exact hself.call .whileLoop rfl
  · exact hself.call .doWhileLoop rfl
  · exact hself.call .forLoop rfl
  · rename_i hwhile _ _
    refine Reports.refuse (fun t => .unexpectedToken t.kind t.value .whileWord)
      (fun _ _ => ⟨rfl, rfl⟩) ?_
    rintro t rfl
    exact ⟨hk, rfl, rfl, hwhile⟩

theorem forLoop : Reports past known (forLoop self) := by
  have hstart : ∀ {past}, Reports past (fun _ => True) (loopStart self) := by
    intro past
    apply Reports.peek
    intro k _
    split
    · exact hself.call .variableList rfl
    · exact hself.call .sequence rfl
  have hpart : ∀ {past stop}, Reports past (fun _ => True)
      (Parser.optionalUnless stop (self .sequence)) :=
    .optionalUnless (hself.call .sequence rfl)
  exact .skip .forWord nofun fun _ => .skip .openParen nofun fun _ =>
    (Reports.optionalUnless hstart).bind fun _ => .skip .semicolon nofun fun _ =>
      hpart.bind fun _ => .skip .semicolon nofun fun _ =>
        hpart.bind fun _ => .skip .closeParen nofun fun _ =>
          (hself.call .statement rfl).bind fun _ => .pure _

theorem functionDeclaration : Reports past known (functionDeclaration self) :=
  .skip .defWord nofun fun _ => (hself.call .identifier rfl).bind fun _ =>
    .skip .openParen nofun fun _ =>
      (Reports.optionalUnless (.commaSeparated fun _ => hself.call .identifier rfl)).bind
        fun _ => .skip .closeParen nofun fun _ =>
          (hself.call .block rfl).bind fun _ => .pure _

theorem returnStatement : Reports past known (returnStatement self) :=
  .skip .returnWord nofun fun _ =>
    (Reports.optionalUnless (hself.call .sequence rfl)).bind fun _ =>
      .skip .semicolon nofun fun _ => .pure _

theorem classDeclaration : Reports past known (classDeclaration self) := by
  refine .skip .classWord nofun fun _ => (hself.call .identifier rfl).bind fun _ =>
    .bind (.peek fun k _ => ?_) fun _ => (hself.call .block rfl).bind fun _ => .pure _
  split
  · exact .skip .extendsWord nofun fun _ => .map some (hself.call .identifier rfl)
  · exact .pure none

/-- The bodies of the productions are accountable if what they are made of is. -/
theorem body (hg : Grammatical self) : Accountable (Production.body self) := by
  intro p
  cases p with
  | statement => exact statement hself
  | expressionStatement => exact expressionStatement hself
  | emptyStatement => exact token (by decide) _
  | block => exact block hself
  | variableStatement => exact variableStatement hself
  | variableList => exact variableList hself
  | variableDeclaration => exact variableDeclaration hself
  | conditional => exact conditional hself
  | iteration => exact iteration hself
  | whileLoop => exact whileLoop hself
  | doWhileLoop => exact doWhileLoop hself
  | forLoop => exact forLoop hself
  | functionDeclaration => exact functionDeclaration hself
  | returnStatement => exact returnStatement hself
  | classDeclaration => exact classDeclaration hself
  | sequence => exact sequence hself
  | assignment => exact assignment hself hg
  | disjunction | conjunction =>
    exact leftAssociative hself _ rfl nofun fun t ht hn =>
      ⟨ht ▸ by decide, congrArg Option.isSome hn⟩
  | equality | relation | sum | product =>
    exact leftAssociative hself _ rfl nofun fun t ht hn =>
      ⟨ht ▸ by decide, congrArg Option.isSome hn⟩
  | prefixed => exact prefixed hself
  | leftHandSide => exact leftHandSide hself
  | member => exact member hself
  | primary => exact primary hself
  | grouping => exact grouping hself
  | creation => exact creation hself
  | identifier => exact identifier
  | literal => exact literal

end

theorem within (n : ℕ) : Accountable (Production.within n : Production → Parser σ Node) := by
  induction n with
  | zero => exact fun _ s _ _ => .inl ⟨s, rfl⟩
  | succ n ih => exact ih.body (Grammatical.within n)

theorem parser : Accountable (Production.parser : Production → Parser σ Node) :=
  fun p s => within _ p s

theorem program : Reports [] (fun _ => True) (program : Parser σ Node) :=
  (parser.call .statement rfl).bind fun _ => (statements parser).bind fun _ => .pure _

end Accountable

theorem exists_blames {source rest : σ} {t : Token}
    (hn : TokenStream.next source = (.ok t, rest)) :
    ∃ v ts u, Parses source v ts u (parseFrom source) ∧ v.Blames ts u :=
  exists_parses_and hn (Accountable.program _ (isStandard_facing t rest) trivial)

/-- A parse fails as the source does, or at a token that deserves it. -/
theorem fails_or_blames_of_parseFrom {source rest : σ} {e : Error}
    (h : parseFrom source = (.error e, rest)) :
    (∃ ts left, Gives source ts left ∧ TokenStream.next left = (.error e, rest)) ∨
      ∃ ts t left, Gives source (ts ++ [t]) left ∧ e.position = t.span.start ∧
        e.cause.Blames ts t := by
  rcases hn : TokenStream.next source with ⟨e' | t, left⟩
  · rw [parseFrom_of_error hn] at h
    cases h
    exact .inl ⟨[], source, rfl, hn⟩
  · obtain ⟨v, ts, u, hp, hv⟩ := exists_blames hn
    rw [h] at hp
    cases hp with
    | refused _ _ hg => exact .inr ⟨ts, u, _, hg, rfl, hv⟩
    | rejected _ _ hg =>
      rw [List.append_cons] at hg
      obtain ⟨left, hg, -⟩ := gives_append.mp hg
      exact .inr ⟨ts, u, left, hg, rfl, hv⟩
    | failed _ hg hn' => exact .inl ⟨_, _, hg, hn'⟩

end Parser

end Frontend
