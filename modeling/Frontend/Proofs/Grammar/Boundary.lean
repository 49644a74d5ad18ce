import Frontend.Proofs.Grammar.Derivation
import Mathlib.Data.Nat.Notation

/-! # Where phrases start and stop

The first token of a phrase tells which production to enter, and the token
behind it tells where to stop. Operators that bind tighter than a phrase would
be taken into it. An `else` would be taken into a statement that ends open.
-/

namespace Frontend
namespace TokenKind

def startsPrimary (k : TokenKind) : Bool :=
  k.isLiteral || k == openParen || k == identifier || k == thisWord || k == newWord

def startsExpression (k : TokenKind) : Bool :=
  k.startsPrimary || k == superWord || k.isUnaryOp

end TokenKind

theorem Node.isLiteral_of_constant? {k : TokenKind} {tree : Node}
    (h : Node.constant? k = some tree) : k.isLiteral = true := by
  cases k <;> first | rfl | cases h

namespace Production

def starts (k : TokenKind) : Production → Bool
  | statement => k.startsExpression || [.semicolon, .openCurly, .letWord, .ifWord, .whileWord,
      .doWord, .forWord, .defWord, .returnWord, .classWord].contains k
  | expressionStatement | sequence | assignment | disjunction | conjunction | equality | relation
  | sum | product | prefixed => k.startsExpression
  | emptyStatement => k == .semicolon
  | block => k == .openCurly
  | variableStatement | variableList => k == .letWord
  | variableDeclaration | identifier => k == .identifier
  | conditional => k == .ifWord
  | iteration => k == .whileWord || k == .doWord || k == .forWord
  | whileLoop => k == .whileWord
  | doWhileLoop => k == .doWord
  | forLoop => k == .forWord
  | functionDeclaration => k == .defWord
  | returnStatement => k == .returnWord
  | classDeclaration => k == .classWord
  | leftHandSide => k.startsPrimary || k == .superWord
  | member | primary => k.startsPrimary
  | grouping => k == .openParen
  | creation => k == .newWord
  | literal => k.isLiteral

theorem starts_of_alternative {p q : Production} (h : q ∈ p.alternatives) {k : TokenKind}
    (hk : q.starts k = true) : p.starts k = true := by
  cases p <;> simp only [alternatives, List.mem_cons, List.not_mem_nil, or_false] at h <;>
    (try rcases h with rfl | rfl | rfl | rfl | rfl | rfl | rfl | rfl | rfl) <;>
    revert hk <;> cases k <;> decide

end Production

/-- Lists of tokens that start with a kind of which something is known. -/
def StartsWith (known : TokenKind → Bool) : List Token → Prop
  | [] => False
  | t :: _ => known t.kind = true

namespace StartsWith

variable {known known' : TokenKind → Bool} {ts us : List Token} {t : Token}

@[simp] theorem cons_iff : StartsWith known (t :: ts) ↔ known t.kind = true := Iff.rfl

theorem append (h : StartsWith known ts) : StartsWith known (ts ++ us) := by
  cases ts with
  | nil => cases h
  | cons t ts => exact h

theorem mono (h : StartsWith known ts) (hk : ∀ k, known k = true → known' k = true) :
    StartsWith known' ts := by
  cases ts with
  | nil => cases h
  | cons t ts => exact hk _ h

theorem exists_cons (h : StartsWith known ts) : ∃ t us, ts = t :: us ∧ known t.kind = true := by
  cases ts with
  | nil => cases h
  | cons t us => exact ⟨t, us, rfl, h⟩

end StartsWith

theorem CommaSeparated.startsWith {known : TokenKind → Bool} {items : List Segment}
    {ts : List Token} (h : CommaSeparated items ts)
    (hi : ∀ item ∈ items, StartsWith known item.1) : StartsWith known ts := by
  cases h with
  | single item => exact hi item List.mem_cons_self
  | cons item _ _ => exact (hi item List.mem_cons_self).append

namespace Production

/-- What a production derives starts with a token that the production may start with. -/
theorem Derives.startsWith {p : Production} {ts : List Token} {tree : Node}
    (h : p.Derives ts tree) : StartsWith (starts · p) ts := by
  induction h with
  | alternative hq _ ih => exact ih.mono fun k => starts_of_alternative hq
  | constant hk => exact Node.isLiteral_of_constant? hk
  | unary hk => simp [starts, TokenKind.startsExpression, hk]
  | number hk | string hk | this hk => simp [starts, hk]; rfl
  | named _ _ _ ih | call _ _ _ _ ih | assign _ _ _ _ _ ih => exact ih.append
  | computed _ _ _ _ ih => exact ih.append.append
  | binary hl _ _ _ _ ih => cases hl <;> exact ih.append
  | logical hl _ _ _ _ ih => cases hl <;> exact ih.append
  | sequence _ hc ih => exact hc.startsWith ih
  | expressionStatement _ _ ih | variableStatement _ _ ih | declared _ ih
  | initialized _ _ _ ih => first | exact ih | exact ih.append
  | superCall hk => simp [starts, hk]
  | identifier hk | grouping hk | creation hk | emptyStatement hk | block hk
  | variableList hk | conditional hk | conditionalElse hk | whileLoop hk | doWhileLoop hk
  | forLoop hk | functionDeclaration hk | returnStatement hk | classDeclaration hk
  | subclassDeclaration hk => simp [starts, hk]

/-- Whether a production may derive a statement that ends with an `if`. -/
def mayEndOpen : Production → Bool
  | statement | conditional | iteration | whileLoop | forLoop => true
  | _ => false

theorem Derives.endsOpen_eq_false {p : Production} {ts : List Token} {tree : Node}
    (h : p.Derives ts tree) (hp : p.mayEndOpen = false) : tree.endsOpen = false := by
  induction h with
  | @alternative p q _ _ hq _ ih =>
    refine ih ?_
    cases p <;> revert hq <;> cases q <;> simp_all [alternatives, mayEndOpen]
  | @constant t _ hk => cases hk' : t.kind <;> rw [hk'] at hk <;> cases hk <;> rfl
  | grouping _ _ _ ih | variableStatement _ _ ih => exact ih rfl
  | @sequence _ items _ _ ih =>
    rcases items with _ | ⟨item, _ | ⟨item', items⟩⟩
    · rfl
    · exact ih item List.mem_cons_self rfl
    · rfl
  | conditional | conditionalElse | whileLoop | forLoop => cases hp
  | _ => rfl

end Production

/-- A property of lists of tokens that is passed on to what they are put together to, with no
end of input among them. A sign of multiplication needs an expression behind it. -/
structure Composable (P : List Token → Prop) : Prop where
  nil : P []
  append {ts us : List Token} : P ts → P us → P (ts ++ us)
  cons {t : Token} {ts : List Token} : t.kind ≠ .eof → t.kind ≠ .multiplicativeOp → P ts →
    P (t :: ts)
  factor {t : Token} {ts : List Token} : t.kind = .multiplicativeOp →
    StartsWith TokenKind.startsExpression ts → P ts → P (t :: ts)

namespace Composable

variable {P : List Token → Prop} {ts us : List Token} {t closing : Token} {k k' : TokenKind}

theorem word (h : Composable P) (ht : t.kind = k)
    (hk : (k != .eof && k != .multiplicativeOp) = true) (hp : P ts) : P (t :: ts) := by
  have hk : t.kind ≠ .eof ∧ t.kind ≠ .multiplicativeOp := by simpa [ht] using hk
  exact h.cons hk.1 hk.2 hp

theorem between (h : Composable P) (ht : t.kind = k) (hc : closing.kind = k')
    (hk : (k != .eof && k != .multiplicativeOp) = true)
    (hk' : (k' != .eof && k' != .multiplicativeOp) = true) (hp : P ts) :
    P (t :: ts ++ [closing]) :=
  h.append (h.word ht hk hp) (h.word hc hk' h.nil)

theorem commaSeparated (h : Composable P) {items : List Segment} (hc : CommaSeparated items ts)
    (hi : ∀ item ∈ items, P item.1) : P ts := by
  induction hc with
  | single item => exact hi item List.mem_cons_self
  | cons item hk _ ih =>
    obtain ⟨hp, hi⟩ := List.forall_mem_cons.mp hi
    exact h.append hp (h.word hk rfl (ih hi))

theorem parenthesized (h : Composable P) {items : List Segment} (hp : Parenthesized items ts)
    (hi : ∀ item ∈ items, P item.1) : P ts := by
  cases hp with
  | nil ho hc => exact h.between ho hc rfl rfl h.nil
  | some ho hs hc => exact h.between ho hc rfl rfl (h.commaSeparated hs hi)

theorem flatMap (h : Composable P) {items : List Segment} (hi : ∀ item ∈ items, P item.1) :
    P (items.flatMap Prod.fst) := by
  induction items with
  | nil => exact h.nil
  | cons item items ih =>
    obtain ⟨hp, hi⟩ := List.forall_mem_cons.mp hi
    exact h.append hp (ih hi)

theorem tokens (h : Composable P) {item : Option Segment} (hi : ∀ i ∈ item, P i.1) :
    P (Segment.tokens item) := by
  cases item with
  | none => exact h.nil
  | some item => exact hi item rfl

theorem derives (h : Composable P) {p : Production} {tree : Node} (hd : p.Derives ts tree) :
    P ts := by
  induction hd with
  | alternative _ _ ih | declared _ ih => exact ih
  | identifier hk | number hk | string hk | this hk | emptyStatement hk => exact h.word hk rfl h.nil
  | constant hk =>
    refine h.cons (fun he => ?_) (fun he => ?_) h.nil <;> simp [he, Node.constant?] at hk
  | grouping ho _ hc ih => exact h.between ho hc rfl rfl ih
  | creation hw _ _ hp ih iha => exact h.append (h.word hw rfl ih) (h.parenthesized hp iha)
  | named _ hd _ ih ihn => exact h.append ih (h.word hd rfl ihn)
  | computed _ ho _ hc ih ihi =>
    exact h.append (h.append ih (h.word ho rfl ihi)) (h.word hc rfl h.nil)
  | superCall hw _ hp iha => exact h.word hw rfl (h.parenthesized hp iha)
  | call _ _ _ hp ih iha => exact h.append ih (h.parenthesized hp iha)
  | unary hk _ _ ih =>
    refine h.cons (fun he => ?_) (fun he => ?_) ih <;> simp [he, TokenKind.isUnaryOp] at hk
  | binary hl _ hs _ hr ih ihr =>
    cases hl with
    | product => exact h.append ih (h.factor hs hr.startsWith ihr)
    | equality | relation | sum => exact h.append ih (h.word hs rfl ihr)
  | logical hl _ hs _ _ ih ihr => cases hl <;> exact h.append ih (h.word hs rfl ihr)
  | assign _ _ hk _ _ ih ihr =>
    refine h.append ih (h.cons (fun he => ?_) (fun he => ?_) ihr) <;>
      simp [he, TokenKind.isAssignOp] at hk
  | sequence _ hc ih => exact h.commaSeparated hc ih
  | expressionStatement _ hs ih | variableStatement _ hs ih =>
    exact h.append ih (h.word hs rfl h.nil)
  | block ho _ hc ihi => exact h.between ho hc rfl rfl (h.flatMap ihi)
  | variableList hw _ hc ihi => exact h.word hw rfl (h.commaSeparated hc ihi)
  | initialized _ hs _ ih ihi => exact h.append ih (h.word hs rfl ihi)
  | conditional hw _ _ ihc ihs | whileLoop hw _ _ ihc ihs | classDeclaration hw _ _ ihc ihs =>
    exact h.append (h.word hw rfl ihc) ihs
  | conditionalElse hw _ _ _ hw' _ ihc ihs iha =>
    exact h.append (h.append (h.word hw rfl ihc) ihs) (h.word hw' rfl iha)
  | doWhileLoop hw _ hw' _ hs ihb ihc =>
    exact h.append (h.append (h.word hw rfl ihb) (h.word hw' rfl ihc)) (h.word hs rfl h.nil)
  | forLoop hw ho _ _ hs _ hs' _ hc _ ihi ihc iht ihb =>
    have hi := h.word hw rfl (h.word ho rfl (h.tokens ihi))
    have hic := h.append hi (h.word hs rfl (h.tokens ihc))
    exact h.append (h.append hic (h.word hs' rfl (h.tokens iht))) (h.word hc rfl ihb)
  | functionDeclaration hw _ _ hp _ ihn ihi ihb =>
    exact h.append (h.append (h.word hw rfl ihn) (h.parenthesized hp ihi)) ihb
  | returnStatement hw _ hs iha => exact h.between hw hs rfl rfl (h.tokens iha)
  | subclassDeclaration hw _ hw' _ _ ihi ihs ihb =>
    exact h.append (h.append (h.word hw rfl ihi) (h.word hw' rfl ihs)) ihb

theorem derivesProgram (h : Composable P) {tree : Node} (hd : DerivesProgram ts tree) : P ts := by
  cases hd with
  | intro _ hi => exact h.flatMap fun item hm => h.derives (hi item hm)

end Composable

def EndFree (ts : List Token) : Prop := ∀ t ∈ ts, t.kind ≠ .eof

theorem composable_endFree : Composable EndFree where
  nil := by simp [EndFree]
  append h h' := List.forall_mem_append.mpr ⟨h, h'⟩
  cons hk _ h := List.forall_mem_cons.mpr ⟨hk, h⟩
  factor hk _ h := List.forall_mem_cons.mpr ⟨by simp [hk], h⟩

theorem DerivesProgram.endFree {ts : List Token} {tree : Node} (h : DerivesProgram ts tree) :
    EndFree ts := composable_endFree.derivesProgram h

/-- How loosely an operator binds, from accesses to members up to commas. Other kinds
end every expression. -/
def TokenKind.looseness : TokenKind → ℕ
  | dot | openBracket => 1
  | openParen => 2
  | multiplicativeOp => 4
  | additiveOp => 5
  | relationalOp => 6
  | equalityOp => 7
  | andOp => 8
  | orOp => 9
  | simpleAssign | complexAssign => 10
  | comma => 11
  | _ => 12

theorem TokenKind.looseness_of_isAssignOp {k : TokenKind} (h : k.isAssignOp = true) :
    k.looseness = 10 := by
  revert h
  cases k <;> simp [isAssignOp, looseness]

namespace Production

/-- How loosely an operator has to bind that stands behind a phrase. Productions that group
to the left may stand before their own operators. -/
@[simp] def reach : Production → ℕ
  | member => 1
  | leftHandSide => 2
  | prefixed => 3
  | product => 4
  | sum => 5
  | relation => 6
  | equality => 7
  | conjunction => 8
  | disjunction => 9
  | assignment => 11
  | sequence => 12
  | _ => 0

/-- Whether a phrase may be followed by a token of a kind without becoming another phrase. -/
@[simp] def Follow (p : Production) (tree : Node) (k : TokenKind) : Prop :=
  match p with
  | statement | conditional | iteration | whileLoop | forLoop =>
    tree.endsOpen = true → k ≠ .elseWord
  | variableList => k = .semicolon
  | variableDeclaration => k = .comma ∨ k = .semicolon
  | p => p.reach ≤ k.looseness

end Production

end Frontend
