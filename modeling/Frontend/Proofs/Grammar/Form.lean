import Frontend.Proofs.Grammar.Consumption

/-! # The form of parsers

Parsers on two sources have the same form if they are built alike from a few
steps. A form also says what is known of the kind at hand, which productions
may be entered before a token is consumed, and whether success consumes one.
Every production has a form, from which its general properties follow.
-/

namespace Frontend

namespace Cause

/-- Causes that refuse a token at hand, with what they say of it. -/
def Refuses (token : Token) : Cause → Prop
  | unexpectedToken actual value _ => actual = token.kind ∧ value = token.value
  | unexpectedEnd _ => token.kind = .eof
  | unknownLiteral kind value => kind = token.kind ∧ value = token.value
  | _ => False

/-- Causes that reject a token after it has been consumed, with what they say of it. -/
def Rejects (token : Token) : Cause → Prop
  | unknownOperator _ symbol => symbol = token.value
  | invalidNumber value => token.kind = .number ∧ value = token.value
  | notAssignable _ => token.kind.isAssignOp = true
  | _ => False

end Cause

namespace Production

/-- How many productions may be entered one after the other before a token is consumed. -/
def rank : Production → ℕ
  | identifier | literal | grouping | creation | emptyStatement | block | variableList
  | conditional | whileLoop | doWhileLoop | forLoop | functionDeclaration | returnStatement
  | classDeclaration => 0
  | primary | variableStatement | variableDeclaration | iteration => 1
  | member => 2
  | leftHandSide => 3
  | prefixed => 4
  | product => 5
  | sum => 6
  | relation => 7
  | equality => 8
  | conjunction => 9
  | disjunction => 10
  | assignment => 11
  | sequence => 12
  | expressionStatement => 13
  | statement => 14

theorem rank_lt_levels (p : Production) : p.rank < levels := by cases p <;> decide

end Production

namespace Parser

variable {σ τ : Type} {α β : Type}

def settle (t : Token) : Except Cause α → Parser σ α
  | .ok a => pure a
  | .error cause => fail cause t.span.start

def checkOperator {ω : Type} [Operator ω] (t : Token) : Except Cause ω :=
  match Operator.ofSymbol? t.value with
  | some op => .ok op
  | none => .error (.unknownOperator (Operator.family ω) t.value)

theorem operatorOf_eq {ω : Type} [Operator ω] :
    (operatorOf : Token → Parser σ ω) = fun t => settle t (checkOperator t) := by
  funext t
  unfold operatorOf checkOperator
  cases (Operator.ofSymbol? t.value : Option ω) <;> rfl

def checkNumber (t : Token) : Except Cause Node :=
  match Literal.integer? t.value with
  | some value => .ok (.numericLit value)
  | none => .error (.invalidNumber t.value)

theorem numberOf_eq : (numberOf : Token → Parser σ Node) = fun t => settle t (checkNumber t) := by
  funext t
  unfold numberOf checkNumber
  cases Literal.integer? t.value <;> rfl

/-- The operator of an assignment to a node, once the node has been checked too. -/
def checkAssignment (left : Node) (t : Token) : Except Cause AssignOp :=
  match checkOperator t with
  | .ok op => if left.isAssignable then .ok op else .error (.notAssignable left)
  | .error cause => .error cause

theorem assignTo_eq [TokenSource σ] (self : Production → Parser σ Node) (left : Node) :
    assignTo self left = (advance >>= fun t => settle t (checkAssignment left t)) >>= fun op =>
      self .assignment >>= fun right => pure (.assignExpr op left right) := by
  simp only [assignTo, operatorOf_eq, bind_assoc]
  congr 1; funext symbol
  unfold checkAssignment
  cases (checkOperator symbol : Except Cause AssignOp) with
  | ok op =>
    by_cases h : left.isAssignable
    · simp [settle, h]
    · simp only [settle, h, pure_bind]
      rfl
  | error cause => rfl

theorem checkOperator_alike {ω : Type} [Operator ω] {t u : Token} (h : t.Alike u) :
    (checkOperator t : Except Cause ω) = checkOperator u := by
  rw [checkOperator, checkOperator, h.value]

theorem checkOperator_rejects {ω : Type} [Operator ω] {t : Token} {cause : Cause}
    (h : (checkOperator t : Except Cause ω) = .error cause) : cause.Rejects t := by
  unfold checkOperator at h
  split at h <;> cases h
  rfl

theorem checkNumber_alike {t u : Token} (h : t.Alike u) : checkNumber t = checkNumber u := by
  rw [checkNumber, checkNumber, h.value]

theorem checkNumber_rejects {t : Token} {cause : Cause} (hk : t.kind = .number)
    (h : checkNumber t = .error cause) : cause.Rejects t := by
  unfold checkNumber at h
  split at h <;> cases h
  exact ⟨hk, rfl⟩

theorem checkAssignment_alike (left : Node) {t u : Token} (h : t.Alike u) :
    checkAssignment left t = checkAssignment left u := by
  rw [checkAssignment, checkAssignment, checkOperator_alike h]

theorem checkAssignment_rejects {left : Node} {t : Token} {cause : Cause}
    (hk : t.kind.isAssignOp = true) (h : checkAssignment left t = .error cause) :
    cause.Rejects t := by
  unfold checkAssignment at h
  split at h
  · split at h <;> cases h
    exact hk
  · rename_i hc
    cases h
    exact checkOperator_rejects hc

variable [TokenSource σ] [TokenSource τ]

/-- Two parsers of one form are put together alike: they take and refuse the same tokens, and where
one calls the parser of a production from `self`, the other calls that from `other`. The form says
what is known of the kind at hand, that productions of lower rank only are called before a token is
consumed, and whether one has been consumed in the end. -/
inductive Form (self : Production → Parser σ Node) (other : Production → Parser τ Node) :
    (TokenKind → Prop) → ℕ → Bool → {α : Type} → Parser σ α → Parser τ α → Prop where

  | pure {known : TokenKind → Prop} {rank : ℕ} {α : Type} (a : α) :
      Form self other known rank false (pure a) (pure a)

  | bind {known : TokenKind → Prop} {rank : ℕ} {c d : Bool} {α β : Type} {p : Parser σ α}
      {q : Parser τ α} {f : α → Parser σ β} {g : α → Parser τ β} :
      Form self other known rank c p q →
      (∀ a, Form self other (fun _ => True) (bif c then Production.levels else rank) d (f a)
        (g a)) →
      Form self other known rank (c || d) (p >>= f) (q >>= g)

  | peek {known : TokenKind → Prop} {rank : ℕ} {c : Bool} {β : Type}
      {f : TokenKind → Parser σ β} {g : TokenKind → Parser τ β} :
      (∀ k, known k → Form self other (· = k) rank c (f k) (g k)) →
      Form self other known rank c (kind >>= f) (kind >>= g)

  | take {known : TokenKind → Prop} {rank : ℕ} {β : Type} (check : Token → Except Cause β) :
      (∀ k, known k → k ≠ .eof) → (∀ t u, t.Alike u → check t = check u) →
      (∀ t cause, known t.kind → check t = .error cause → cause.Rejects t) →
      Form self other known rank true (advance >>= fun t => settle t (check t))
        (advance >>= fun t => settle t (check t))

  | refuse {known : TokenKind → Prop} {rank : ℕ} {c : Bool} {α : Type} (cause : Token → Cause) :
      (∀ t, known t.kind → (cause t).Refuses t) → (∀ t u, t.Alike u → cause t = cause u) →
      Form self other known rank c (refuse cause : Parser σ α) (refuse cause)

  | call {known : TokenKind → Prop} {rank : ℕ} (production : Production) :
      production.rank < rank →
      Form self other known rank true (self production) (other production)

  | dispatch {known : TokenKind → Prop} {rank : ℕ} {c : Bool} {β : Type}
      {f : Option Production → Parser σ β} {g : Option Production → Parser τ β} :
      (∀ k, Form self other (· = k) rank c (f (Handlers.standard.lookup k))
        (g (Handlers.standard.lookup k))) →
      Form self other known rank c (handler? >>= f) (handler? >>= g)

  | loop {known : TokenKind → Prop} {rank : ℕ} {wanted : TokenKind → Bool} {α : Type}
      {body : α → Parser σ α} {body' : α → Parser τ α} (a : α) : wanted .eof = false →
      (∀ a, Form self other (fun k => wanted k = true) rank true (body a) (body' a)) →
      Form self other known rank false (repeatWhile wanted a body) (repeatWhile wanted a body')

  | weaken {known : TokenKind → Prop} {rank : ℕ} {α : Type} {p : Parser σ α} {q : Parser τ α} :
      Form self other known rank true p q → Form self other known rank false p q

variable {self : Production → Parser σ Node} {other : Production → Parser τ Node}
  {known : TokenKind → Prop} {rank : ℕ}

theorem mismatch_refuses (expected : TokenKind) (t : Token) : (mismatch expected t).Refuses t := by
  unfold mismatch
  split
  · assumption
  · exact ⟨rfl, rfl⟩

theorem mismatch_alike (expected : TokenKind) {t u : Token} (h : t.Alike u) :
    mismatch expected t = mismatch expected u := by
  unfold mismatch
  rw [h.kind, h.value]

theorem consume_bind_eq (expected : TokenKind) (f : Token → Parser σ α) :
    consume expected >>= f = kind >>= fun k =>
      if k = expected then advance >>= f else refuse (mismatch expected) := by
  funext s
  rw [kind_bind_apply]
  by_cases h : s.lookahead.kind = expected
  · rw [if_pos h]
    cases ha : advance s with
    | ok a s₁ => rw [bind_ok f ha, bind_ok f ((consume_of_eq h).trans ha)]
    | error halt s₁ => rw [bind_error f ha, bind_error f ((consume_of_eq h).trans ha)]
  · rw [if_neg h, bind_error f (consume_of_ne h), refuse_apply]

namespace Form

theorem read (expected : TokenKind) (check : Token → Except Cause β) (he : expected ≠ .eof)
    (ha : ∀ t u, t.Alike u → check t = check u)
    (hr : ∀ t cause, t.kind = expected → check t = .error cause → cause.Rejects t) :
    Form self other known rank true (consume expected >>= fun t => settle t (check t))
      (consume expected >>= fun t => settle t (check t)) := by
  rw [consume_bind_eq, consume_bind_eq]
  refine .peek fun k _ => ?_
  split
  · rename_i hk
    exact .take check (by rintro _ rfl; exact hk ▸ he) ha fun t cause ht => hr t cause (ht.trans hk)
  · exact .refuse _ (fun t _ => mismatch_refuses _ t) fun _ _ hu => mismatch_alike _ hu

theorem readValue (expected : TokenKind) (f : String → β) (he : expected ≠ .eof) :
    Form self other known rank true (consume expected >>= fun t => Pure.pure (f t.value))
      (consume expected >>= fun t => Pure.pure (f t.value)) :=
  .read expected (fun t => .ok (f t.value)) he (fun _ _ h => by rw [h.value]) (by simp)

theorem skip (expected : TokenKind) {d : Bool} {p : Parser σ β} {q : Parser τ β}
    (he : expected ≠ .eof) (h : Form self other (fun _ => True) Production.levels d p q) :
    Form self other known rank true (consume expected >>= fun _ => p)
      (consume expected >>= fun _ => q) := by
  have hs : Form self other known rank true (consume expected >>= fun _ => Pure.pure ())
      (consume expected >>= fun _ => Pure.pure ()) :=
    .readValue expected (fun _ => ()) he
  simpa using hs.bind fun _ => h

theorem map {c : Bool} {p : Parser σ α} {q : Parser τ α} (f : α → β)
    (h : Form self other known rank c p q) : Form self other known rank c (f <$> p) (f <$> q) := by
  rw [map_eq_pure_bind, map_eq_pure_bind, ← Bool.or_false c]
  exact h.bind fun a => .pure (f a)

theorem optionalUnless {stop : TokenKind} {p : Parser σ α} {q : Parser τ α}
    (h : ∀ known, Form self other known rank true p q) :
    Form self other known rank false (optionalUnless stop p) (optionalUnless stop q) := by
  refine .peek fun k _ => ?_
  split
  · exact .pure none
  · exact ((h _).bind fun a => .pure (some a)).weaken

theorem commaSeparated {p : Parser σ α} {q : Parser τ α}
    (h : ∀ known, Form self other known rank true p q)
    (h' : ∀ known, Form self other known Production.levels true p q) :
    Form self other known rank true (commaSeparated p) (commaSeparated q) :=
  (h _).bind fun first => (Form.loop [first] rfl fun items =>
    .skip .comma (by decide) ((h' _).bind fun item => .pure (item :: items))).bind
      fun reversed => .pure reversed.reverse

theorem operator {ω : Type} [Operator ω] (h : ∀ k, known k → k ≠ .eof) :
    Form self other known rank true (operator : Parser σ ω) operator := by
  unfold Parser.operator
  rw [operatorOf_eq, operatorOf_eq]
  exact .take checkOperator h (fun _ _ => checkOperator_alike) fun _ _ _ => checkOperator_rejects

theorem leftAssociative {ω : Type} [Operator ω] (build : ω → Node → Node → Node)
    {operand : Production} {k : TokenKind} (ho : operand.rank < rank) (hk : k ≠ .eof) :
    Form self other known rank true (leftAssociative build (self operand) k)
      (leftAssociative build (other operand) k) :=
  (Form.call operand ho).bind fun first => .loop first (by simpa using hk.symm) fun left =>
    (operator (by simp_all)).bind fun op =>
      (Form.call operand operand.rank_lt_levels).bind fun right => .pure (build op left right)

theorem left {c : Bool} {p : Parser σ α} {q : Parser τ α} (h : Form self other known rank c p q) :
    Form self self known rank c p p := by
  induction h with
  | pure a => exact .pure a
  | bind _ _ ih ih' => exact ih.bind ih'
  | peek _ ih => exact .peek ih
  | take check hk ha hr => exact .take check hk ha hr
  | refuse cause hr ha => exact .refuse cause hr ha
  | call r hr => exact .call r hr
  | dispatch _ ih => exact .dispatch ih
  | loop a hw _ ih => exact .loop a hw ih
  | weaken _ ih => exact ih.weaken

theorem right {c : Bool} {p : Parser σ α} {q : Parser τ α} (h : Form self other known rank c p q) :
    Form other other known rank c q q := by
  induction h with
  | pure a => exact .pure a
  | bind _ _ ih ih' => exact ih.bind ih'
  | peek _ ih => exact .peek ih
  | take check hk ha hr => exact .take check hk ha hr
  | refuse cause hr ha => exact .refuse cause hr ha
  | call r hr => exact .call r hr
  | dispatch _ ih => exact .dispatch ih
  | loop a hw _ ih => exact .loop a hw ih
  | weaken _ ih => exact ih.weaken

end Form

end Parser

end Frontend
