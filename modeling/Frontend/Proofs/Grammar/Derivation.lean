import Frontend.Grammar.Production
import Frontend.Token.Basic
import Frontend.Tree.Literal
import Frontend.Tree.Node
import Mathlib.Data.List.Chain

/-! # The grammar

The productions derive trees from lists of tokens. Operators group to the left,
assignments to the right. A derivation checks what the shape of the grammar does
not: the values of operators and numbers, what may be assigned to, what may be
called, and which `if` an `else` belongs to.
-/

namespace Frontend

/-- Tokens with the tree that they stand for. -/
abbrev Segment := List Token × Node

namespace Segment

def tokens (segment : Option Segment) : List Token := segment.elim [] Prod.fst

@[simp] theorem tokens_none : tokens none = [] := rfl

@[simp] theorem tokens_some (segment : Segment) : tokens (some segment) = segment.1 := rfl

theorem subset_tokens {segment : Option Segment} {item : Segment} (h : item ∈ segment) :
    item.1 ⊆ tokens segment := by
  rw [Option.mem_def.mp h]
  exact List.Subset.refl _

end Segment

/-- One segment or more, with commas between them. -/
inductive CommaSeparated : List Segment → List Token → Prop where

  | single (item : Segment) : CommaSeparated [item] item.1

  | cons (item : Segment) {items : List Segment} {comma : Token} {ts : List Token} :
      comma.kind = .comma → CommaSeparated items ts →
      CommaSeparated (item :: items) (item.1 ++ comma :: ts)

/-- Any number of segments, with commas between them, in parentheses. -/
inductive Parenthesized : List Segment → List Token → Prop where

  | nil {opening closing : Token} : opening.kind = .openParen → closing.kind = .closeParen →
      Parenthesized [] [opening, closing]

  | some {items : List Segment} {opening closing : Token} {ts : List Token} :
      opening.kind = .openParen → CommaSeparated items ts → closing.kind = .closeParen →
      Parenthesized items (opening :: ts ++ [closing])

theorem CommaSeparated.subset {items : List Segment} {ts : List Token} (h : CommaSeparated items ts)
    {item : Segment} (hi : item ∈ items) : item.1 ⊆ ts := by
  induction h with
  | single first =>
    rw [List.mem_singleton.mp hi]
    exact List.Subset.refl _
  | cons first _ _ ih =>
    rcases List.mem_cons.mp hi with rfl | hi
    · exact List.subset_append_left _ _
    · exact fun t ht => List.mem_append_right _ (List.mem_cons_of_mem _ (ih hi ht))

theorem Parenthesized.subset {items : List Segment} {ts : List Token} (h : Parenthesized items ts)
    {item : Segment} (hi : item ∈ items) : item.1 ⊆ ts := by
  cases h with
  | nil => cases hi
  | some _ hs _ =>
    exact fun t ht => List.mem_append_left _ (List.mem_cons_of_mem _ (hs.subset hi ht))

namespace Node

/-- Whether a statement ends with an `if` that could still take an `else`. -/
def endsOpen : Node → Bool
  | ifStmt _ _ none => true
  | ifStmt _ _ (some alt) => alt.endsOpen
  | whileStmt _ body => body.endsOpen
  | forStmt _ _ _ body => body.endsOpen
  | _ => false

def constant? : TokenKind → Option Node
  | .trueWord => some (boolLit true)
  | .falseWord => some (boolLit false)
  | .nullWord => some nullLit
  | _ => none

/-- The parameters of a function. Without any, the list is absent. -/
def parameters (params : List Node) : Option (List Node) :=
  if params = [] then none else some params

end Node

namespace Production

/-- What a production may stand for as it is. -/
def alternatives : Production → List Production
  | statement => [expressionStatement, emptyStatement, block, variableStatement, conditional,
      iteration, functionDeclaration, returnStatement, classDeclaration]
  | iteration => [whileLoop, doWhileLoop, forLoop]
  | assignment => [disjunction]
  | disjunction => [conjunction]
  | conjunction => [equality]
  | equality => [relation]
  | relation => [sum]
  | sum => [product]
  | product => [prefixed]
  | prefixed => [leftHandSide]
  | leftHandSide => [member]
  | member => [primary]
  | primary => [grouping, identifier, creation, literal]
  | _ => []

inductive LogicalLevel : Production → TokenKind → Production → Prop where
  | disjunction : LogicalLevel disjunction .orOp conjunction
  | conjunction : LogicalLevel conjunction .andOp equality

inductive BinaryLevel : Production → TokenKind → Production → Prop where
  | equality : BinaryLevel equality .equalityOp relation
  | relation : BinaryLevel relation .relationalOp sum
  | sum : BinaryLevel sum .additiveOp product
  | product : BinaryLevel product .multiplicativeOp prefixed

/-- Whether a member is an object just created, with no access to a member of it. -/
def IsBareCreation (ts : List Token) (tree : Node) : Prop :=
  ts.head?.map Token.kind = some .newWord ∧ tree.isNewExpr = true

instance (ts : List Token) (tree : Node) : Decidable (IsBareCreation ts tree) :=
  inferInstanceAs (Decidable (_ ∧ _))

/-- The trees that a production derives from lists of tokens. -/
inductive Derives : Production → List Token → Node → Prop where

  | alternative {p q : Production} {ts : List Token} {tree : Node} : q ∈ p.alternatives →
      Derives q ts tree → Derives p ts tree

  | identifier {t : Token} : t.kind = .identifier → Derives identifier [t] (.identifier t.value)

  | number {t : Token} {n : Int} : t.kind = .number → Literal.integer? t.value = some n →
      Derives literal [t] (.numericLit n)

  | string {t : Token} : t.kind = .string →
      Derives literal [t] (.stringLit (Literal.unquoted t.value))

  | constant {t : Token} {tree : Node} : Node.constant? t.kind = some tree →
      Derives literal [t] tree

  | this {t : Token} : t.kind = .thisWord → Derives primary [t] .thisExpr

  | grouping {opening closing : Token} {ts : List Token} {tree : Node} :
      opening.kind = .openParen → Derives sequence ts tree → closing.kind = .closeParen →
      Derives grouping (opening :: ts ++ [closing]) tree

  | creation {word : Token} {ts us : List Token} {callee : Node} {args : List Segment} :
      word.kind = .newWord → Derives member ts callee →
      (∀ arg ∈ args, Derives assignment arg.1 arg.2) → Parenthesized args us →
      Derives creation (word :: ts ++ us) (.newExpr callee (args.map Prod.snd))

  | named {dot : Token} {ts us : List Token} {object name : Node} :
      Derives member ts object → dot.kind = .dot → Derives identifier us name →
      Derives member (ts ++ dot :: us) (.memberExpr false object name)

  | computed {opening closing : Token} {ts us : List Token} {object index : Node} :
      Derives member ts object → opening.kind = .openBracket → Derives sequence us index →
      closing.kind = .closeBracket →
      Derives member (ts ++ opening :: us ++ [closing]) (.memberExpr true object index)

  | superCall {word : Token} {ts : List Token} {args : List Segment} : word.kind = .superWord →
      (∀ arg ∈ args, Derives assignment arg.1 arg.2) → Parenthesized args ts →
      Derives leftHandSide (word :: ts) (.callExpr .superCall (args.map Prod.snd))

  | call {ts us : List Token} {callee : Node} {args : List Segment} :
      Derives leftHandSide ts callee → ¬ IsBareCreation ts callee →
      (∀ arg ∈ args, Derives assignment arg.1 arg.2) → Parenthesized args us →
      Derives leftHandSide (ts ++ us) (.callExpr callee (args.map Prod.snd))

  | unary {symbol : Token} {op : UnaryOp} {ts : List Token} {arg : Node} :
      symbol.kind.isUnaryOp = true → Operator.ofSymbol? symbol.value = some op →
      Derives prefixed ts arg → Derives prefixed (symbol :: ts) (.unaryExpr op arg)

  | binary {p q : Production} {k : TokenKind} {symbol : Token} {op : BinaryOp}
      {ts us : List Token} {left right : Node} : BinaryLevel p k q → Derives p ts left →
      symbol.kind = k → Operator.ofSymbol? symbol.value = some op → Derives q us right →
      Derives p (ts ++ symbol :: us) (.binaryExpr op left right)

  | logical {p q : Production} {k : TokenKind} {symbol : Token} {op : LogicalOp}
      {ts us : List Token} {left right : Node} : LogicalLevel p k q → Derives p ts left →
      symbol.kind = k → Operator.ofSymbol? symbol.value = some op → Derives q us right →
      Derives p (ts ++ symbol :: us) (.logicalExpr op left right)

  | assign {symbol : Token} {op : AssignOp} {ts us : List Token} {left right : Node} :
      Derives disjunction ts left → left.isAssignable = true → symbol.kind.isAssignOp = true →
      Operator.ofSymbol? symbol.value = some op → Derives assignment us right →
      Derives assignment (ts ++ symbol :: us) (.assignExpr op left right)

  | sequence {ts : List Token} {items : List Segment} :
      (∀ item ∈ items, Derives assignment item.1 item.2) → CommaSeparated items ts →
      Derives sequence ts (.ofSequence (items.map Prod.snd))

  | expressionStatement {semicolon : Token} {ts : List Token} {tree : Node} :
      Derives sequence ts tree → semicolon.kind = .semicolon →
      Derives expressionStatement (ts ++ [semicolon]) (.exprStmt tree)

  | emptyStatement {semicolon : Token} : semicolon.kind = .semicolon →
      Derives emptyStatement [semicolon] .emptyStmt

  | block {opening closing : Token} {items : List Segment} : opening.kind = .openCurly →
      (∀ item ∈ items, Derives statement item.1 item.2) → closing.kind = .closeCurly →
      Derives block (opening :: items.flatMap Prod.fst ++ [closing])
        (.blockStmt (items.map Prod.snd))

  | variableStatement {semicolon : Token} {ts : List Token} {tree : Node} :
      Derives variableList ts tree → semicolon.kind = .semicolon →
      Derives variableStatement (ts ++ [semicolon]) tree

  | variableList {word : Token} {ts : List Token} {items : List Segment} :
      word.kind = .letWord → (∀ item ∈ items, Derives variableDeclaration item.1 item.2) →
      CommaSeparated items ts → Derives variableList (word :: ts) (.varStmt (items.map Prod.snd))

  | declared {ts : List Token} {id : Node} : Derives identifier ts id →
      Derives variableDeclaration ts (.varDecl id none)

  | initialized {symbol : Token} {ts us : List Token} {id init : Node} :
      Derives identifier ts id → symbol.kind = .simpleAssign → Derives assignment us init →
      Derives variableDeclaration (ts ++ symbol :: us) (.varDecl id (some init))

  | conditional {word : Token} {ts us : List Token} {cond cons : Node} : word.kind = .ifWord →
      Derives grouping ts cond → Derives statement us cons →
      Derives conditional (word :: ts ++ us) (.ifStmt cond cons none)

  | conditionalElse {word word' : Token} {ts us vs : List Token} {cond cons alt : Node} :
      word.kind = .ifWord → Derives grouping ts cond → Derives statement us cons →
      cons.endsOpen = false → word'.kind = .elseWord → Derives statement vs alt →
      Derives conditional (word :: ts ++ us ++ word' :: vs) (.ifStmt cond cons (some alt))

  | whileLoop {word : Token} {ts us : List Token} {cond body : Node} : word.kind = .whileWord →
      Derives grouping ts cond → Derives statement us body →
      Derives whileLoop (word :: ts ++ us) (.whileStmt cond body)

  | doWhileLoop {word word' semicolon : Token} {ts us : List Token} {cond body : Node} :
      word.kind = .doWord → Derives statement us body → word'.kind = .whileWord →
      Derives grouping ts cond → semicolon.kind = .semicolon →
      Derives doWhileLoop (word :: us ++ word' :: ts ++ [semicolon]) (.doWhileStmt cond body)

  | forLoop {p : Production} {word opening semicolon semicolon' closing : Token}
      {init cond step : Option Segment} {ts : List Token} {body : Node} :
      word.kind = .forWord → opening.kind = .openParen → p = variableList ∨ p = sequence →
      (∀ item ∈ init, Derives p item.1 item.2) → semicolon.kind = .semicolon →
      (∀ item ∈ cond, Derives sequence item.1 item.2) → semicolon'.kind = .semicolon →
      (∀ item ∈ step, Derives sequence item.1 item.2) → closing.kind = .closeParen →
      Derives statement ts body →
      Derives forLoop (word :: opening :: Segment.tokens init ++ semicolon :: Segment.tokens cond ++
        semicolon' :: Segment.tokens step ++ closing :: ts)
          (.forStmt (init.map Prod.snd) (cond.map Prod.snd) (step.map Prod.snd) body)

  | functionDeclaration {word : Token} {params : List Segment} {ts us vs : List Token}
      {name body : Node} : word.kind = .defWord → Derives identifier ts name →
      (∀ param ∈ params, Derives identifier param.1 param.2) → Parenthesized params us →
      Derives block vs body → Derives functionDeclaration (word :: ts ++ us ++ vs)
        (.funcDecl name (Node.parameters (params.map Prod.snd)) body)

  | returnStatement {word semicolon : Token} {arg : Option Segment} : word.kind = .returnWord →
      (∀ item ∈ arg, Derives sequence item.1 item.2) → semicolon.kind = .semicolon →
      Derives returnStatement (word :: Segment.tokens arg ++ [semicolon])
        (.returnStmt (arg.map Prod.snd))

  | classDeclaration {word : Token} {ts us : List Token} {id body : Node} :
      word.kind = .classWord → Derives identifier ts id → Derives block us body →
      Derives classDeclaration (word :: ts ++ us) (.classDecl id none body)

  | subclassDeclaration {word word' : Token} {ts us vs : List Token} {id superclass body : Node} :
      word.kind = .classWord → Derives identifier ts id → word'.kind = .extendsWord →
      Derives identifier us superclass → Derives block vs body →
      Derives classDeclaration (word :: ts ++ word' :: us ++ vs)
        (.classDecl id (some superclass) body)

def expressionLevels : List Production :=
  [assignment, disjunction, conjunction, equality, relation, sum, product, prefixed, leftHandSide,
    member, primary]

theorem isChain_expressionLevels :
    expressionLevels.IsChain fun p q => q ∈ p.alternatives := by
  decide

section

variable {ts : List Token} {tree : Node}

theorem Derives.of_primary (h : primary.Derives ts tree) :
    ∀ p ∈ expressionLevels, p.Derives ts tree :=
  List.IsChain.backwards_induction (fun p => p.Derives ts tree) expressionLevels
    isChain_expressionLevels (fun _ _ hq h => .alternative hq h) fun _ => h

theorem Derives.assignment_of_level : ∀ q ∈ expressionLevels, q.Derives ts tree →
    assignment.Derives ts tree :=
  List.IsChain.induction (fun q => q.Derives ts tree → assignment.Derives ts tree)
    expressionLevels isChain_expressionLevels (fun _ _ hq ih h => ih (.alternative hq h))
      fun _ h => h

theorem Derives.sequence_of_assignment (h : assignment.Derives ts tree) :
    Production.sequence.Derives ts tree := by
  have hi : ∀ item ∈ [(ts, tree)], Production.assignment.Derives item.1 item.2 := by simpa using h
  exact .sequence hi (.single (ts, tree))

theorem Derives.sequence_of_primary (h : primary.Derives ts tree) :
    Production.sequence.Derives ts tree :=
  (h.of_primary .assignment (by decide)).sequence_of_assignment

end

def Productive (p : Production) : Prop := ∃ ts tree, p.Derives ts tree

theorem Productive.alternative {p q : Production} (h : q.Productive) (hq : q ∈ p.alternatives) :
    p.Productive := by
  obtain ⟨ts, tree, h⟩ := h
  exact ⟨ts, tree, .alternative hq h⟩

theorem productive_of_level {p : Production} (hp : p ∈ expressionLevels) : p.Productive := by
  have h : literal.Derives [⟨.nullWord, "", default⟩] .nullLit := .constant rfl
  exact ⟨_, _, Derives.of_primary (.alternative (by decide) h) p hp⟩

/-- A token of a kind, whatever it is spelled like. -/
def anyToken (k : TokenKind) : Token := ⟨k, "", default⟩

theorem productive_identifier : identifier.Productive :=
  ⟨[anyToken .identifier], _, .identifier rfl⟩

theorem productive_sequence : sequence.Productive := by
  obtain ⟨ts, tree, h⟩ := productive_of_level (p := .assignment) (by decide)
  exact ⟨ts, tree, h.sequence_of_assignment⟩

theorem productive_grouping : grouping.Productive := by
  obtain ⟨ts, tree, h⟩ := productive_sequence
  exact ⟨anyToken .openParen :: ts ++ [anyToken .closeParen], tree, .grouping rfl h rfl⟩

theorem productive_creation : creation.Productive := by
  obtain ⟨ts, tree, h⟩ := productive_of_level (p := .member) (by decide)
  exact ⟨anyToken .newWord :: ts ++ [anyToken .openParen, anyToken .closeParen], _,
    .creation rfl h (by simp) (.nil rfl rfl)⟩

theorem productive_emptyStatement : emptyStatement.Productive :=
  ⟨[anyToken .semicolon], _, .emptyStatement rfl⟩

theorem productive_statement : statement.Productive :=
  productive_emptyStatement.alternative (by decide)

theorem productive_block : block.Productive :=
  ⟨anyToken .openCurly :: ([] : List Segment).flatMap Prod.fst ++ [anyToken .closeCurly], _,
    .block rfl (by simp) rfl⟩

theorem productive_variableDeclaration : variableDeclaration.Productive := by
  obtain ⟨ts, tree, h⟩ := productive_identifier
  exact ⟨ts, _, .declared h⟩

theorem productive_variableList : variableList.Productive := by
  obtain ⟨ts, tree, h⟩ := productive_variableDeclaration
  exact ⟨anyToken .letWord :: ts, _, .variableList rfl (by simpa using h) (.single (ts, tree))⟩

theorem productive_conditional : conditional.Productive := by
  obtain ⟨ts, cond, hc⟩ := productive_grouping
  obtain ⟨us, tree, h⟩ := productive_statement
  exact ⟨anyToken .ifWord :: ts ++ us, _, .conditional rfl hc h⟩

theorem productive_whileLoop : whileLoop.Productive := by
  obtain ⟨ts, cond, hc⟩ := productive_grouping
  obtain ⟨us, tree, h⟩ := productive_statement
  exact ⟨anyToken .whileWord :: ts ++ us, _, .whileLoop rfl hc h⟩

theorem productive_doWhileLoop : doWhileLoop.Productive := by
  obtain ⟨ts, cond, hc⟩ := productive_grouping
  obtain ⟨us, tree, h⟩ := productive_statement
  exact ⟨anyToken .doWord :: us ++ anyToken .whileWord :: ts ++ [anyToken .semicolon], _,
    .doWhileLoop rfl h rfl hc rfl⟩

theorem productive_forLoop : forLoop.Productive := by
  obtain ⟨us, tree, h⟩ := productive_statement
  exact ⟨anyToken .forWord :: anyToken .openParen :: Segment.tokens none ++
    anyToken .semicolon :: Segment.tokens none ++ anyToken .semicolon :: Segment.tokens none ++
      anyToken .closeParen :: us, _,
    .forLoop rfl rfl (.inr rfl) (by simp) rfl (by simp) rfl (by simp) rfl h⟩

theorem productive_functionDeclaration : functionDeclaration.Productive := by
  obtain ⟨ts, name, hn⟩ := productive_identifier
  obtain ⟨us, body, hb⟩ := productive_block
  exact ⟨anyToken .defWord :: ts ++ [anyToken .openParen, anyToken .closeParen] ++ us, _,
    .functionDeclaration rfl hn (by simp) (.nil rfl rfl) hb⟩

theorem productive_returnStatement : returnStatement.Productive :=
  ⟨anyToken .returnWord :: Segment.tokens none ++ [anyToken .semicolon], _,
    .returnStatement rfl (by simp) rfl⟩

theorem productive_classDeclaration : classDeclaration.Productive := by
  obtain ⟨ts, name, hn⟩ := productive_identifier
  obtain ⟨us, body, hb⟩ := productive_block
  exact ⟨anyToken .classWord :: ts ++ us, _, .classDeclaration rfl hn hb⟩

/-- Every production derives something: no phrase is begun that cannot be completed. -/
theorem productive (p : Production) : p.Productive := by
  cases p with
  | statement => exact productive_statement
  | expressionStatement =>
    obtain ⟨ts, tree, h⟩ := productive_sequence
    exact ⟨ts ++ [anyToken .semicolon], _, .expressionStatement h rfl⟩
  | emptyStatement => exact productive_emptyStatement
  | block => exact productive_block
  | variableStatement =>
    obtain ⟨ts, tree, h⟩ := productive_variableList
    exact ⟨ts ++ [anyToken .semicolon], _, .variableStatement h rfl⟩
  | variableList => exact productive_variableList
  | variableDeclaration => exact productive_variableDeclaration
  | identifier => exact productive_identifier
  | conditional => exact productive_conditional
  | iteration => exact productive_whileLoop.alternative (by decide)
  | whileLoop => exact productive_whileLoop
  | doWhileLoop => exact productive_doWhileLoop
  | forLoop => exact productive_forLoop
  | functionDeclaration => exact productive_functionDeclaration
  | returnStatement => exact productive_returnStatement
  | classDeclaration => exact productive_classDeclaration
  | sequence => exact productive_sequence
  | grouping => exact productive_grouping
  | creation => exact productive_creation
  | literal => exact ⟨[anyToken .nullWord], _, .constant rfl⟩
  | _ => exact productive_of_level (by decide)

end Production

/-- The programs that lists of tokens write: one statement or more. -/
inductive DerivesProgram : List Token → Node → Prop where

  | intro {items : List Segment} : items ≠ [] →
      (∀ item ∈ items, Production.statement.Derives item.1 item.2) →
      DerivesProgram (items.flatMap Prod.fst) (.program (items.map Prod.snd))

end Frontend
