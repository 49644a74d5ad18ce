import Frontend.Proofs.Grammar.Form

/-! # The forms of the productions

Each production follows its steps. What it enters before it consumes a token
has a lower rank, and it consumes a token before anything else is entered.
-/

namespace Frontend.Parser.Form

variable {σ τ : Type} [TokenSource σ] [TokenSource τ] {self : Production → Parser σ Node}
  {other : Production → Parser τ Node} {known : TokenKind → Prop} {rank : ℕ}

theorem token {k : TokenKind} (hk : k ≠ .eof) (node : Node) :
    Form self other known rank true (token k node) (token k node) := .skip k hk (.pure node)

theorem identifier : Form self other known rank true identifier identifier :=
  .readValue .identifier Node.identifier (by decide)

theorem unknownLiteral : Form self other known rank true unknownLiteral unknownLiteral :=
  .refuse (fun t => .unknownLiteral t.kind t.value) (fun _ _ => ⟨rfl, rfl⟩)
    fun _ _ h => by rw [h.kind, h.value]

theorem literal : Form self other known rank true literal literal := by
  refine .peek fun k _ => ?_
  split
  · unfold numberLiteral
    rw [numberOf_eq, numberOf_eq]
    exact .read .number checkNumber (by decide) (fun _ _ => checkNumber_alike) fun _ _ =>
      checkNumber_rejects
  · exact .readValue .string (fun value => Node.stringLit (Literal.unquoted value)) (by decide)
  · exact token (by decide) _
  · exact token (by decide) _
  · exact token (by decide) _
  · exact unknownLiteral

theorem grouping : Form self other known rank true (grouping self) (grouping other) :=
  .skip .openParen (by decide) <| (Form.call .sequence (by decide)).bind fun expr =>
    .skip .closeParen (by decide) (.pure expr)

theorem arguments : Form self other known rank true (arguments self) (arguments other) :=
  .skip .openParen (by decide) <|
    (optionalUnless fun _ => commaSeparated (fun _ => .call .assignment (by decide))
      fun _ => .call .assignment (by decide)).bind fun args =>
        .skip .closeParen (by decide) (.pure (args.getD []))

theorem creation : Form self other known rank true (creation self) (creation other) :=
  .skip .newWord (by decide) <| (Form.call .member (by decide)).bind fun callee =>
    arguments.bind fun _ => .pure _

theorem primary : Form self other known Production.primary.rank true (primary self)
    (primary other) := by
  refine .peek fun k _ => ?_
  split
  · exact .call .grouping (by decide)
  · exact .call .identifier (by decide)
  · exact token (by decide) _
  · exact .call .creation (by decide)
  · exact .call .literal (by decide)

theorem memberOf (object : Node) :
    Form self other known rank true (memberOf self object) (memberOf other object) := by
  refine .peek fun k _ => ?_
  split
  · exact .skip .dot (by decide) <| (Form.call .identifier (by decide)).bind fun _ => .pure _
  · exact .skip .openBracket (by decide) <| (Form.call .sequence (by decide)).bind fun _ =>
      .skip .closeBracket (by decide) (.pure _)

theorem member : Form self other known Production.member.rank true (member self)
    (member other) :=
  (Form.call .primary (by decide)).bind fun object => .loop object rfl fun object => memberOf object

theorem callOf (callee : Node) :
    Form self other known rank true (callOf self callee) (callOf other callee) :=
  arguments.bind fun _ => .pure _

theorem calls (callee : Node) :
    Form self other known rank true (calls self callee) (calls other callee) :=
  (callOf callee).bind fun call => .loop call rfl fun call => callOf call

theorem callsOfMember : Form self other known Production.leftHandSide.rank true
    (callsOfMember self) (callsOfMember other) := by
  refine .peek fun _ _ => (Form.call .member (by decide)).bind (d := false) fun callee =>
    .peek fun _ _ => ?_
  split
  · exact (calls callee).weaken
  · exact .pure callee

theorem leftHandSide : Form self other known Production.leftHandSide.rank true
    (leftHandSide self) (leftHandSide other) := by
  refine .peek fun k _ => ?_
  split
  · exact .skip .superWord (by decide) (calls .superCall).weaken
  · exact callsOfMember

theorem prefixed : Form self other known Production.prefixed.rank true (prefixed self)
    (prefixed other) := by
  refine .peek fun k _ => ?_
  split
  · rename_i hk
    exact (operator (by rintro _ rfl rfl; simp [TokenKind.isUnaryOp] at hk)).bind fun _ =>
      (Form.call .prefixed (by decide)).bind fun _ => .pure _
  · exact .call .leftHandSide (by decide)

theorem assignment : Form self other known Production.assignment.rank true (assignment self)
    (assignment other) := by
  refine (Form.call .disjunction (by decide)).bind (d := false) fun left => .peek fun k _ => ?_
  split
  · rename_i hk
    rw [assignTo_eq, assignTo_eq]
    refine ((Form.take (checkAssignment left) ?_ (fun _ _ => checkAssignment_alike left)
      fun t cause (ht : t.kind = k) => checkAssignment_rejects (ht ▸ hk)).bind fun op =>
        (Form.call .assignment (by decide)).bind fun right => .pure _).weaken
    rintro _ rfl rfl
    simp [TokenKind.isAssignOp] at hk
  · exact .pure left

theorem sequence : Form self other known Production.sequence.rank true (sequence self)
    (sequence other) :=
  (commaSeparated (fun _ => .call .assignment (by decide)) fun _ =>
    .call .assignment (by decide)).bind fun _ => .pure _

theorem statement : Form self other known Production.statement.rank true (statement self)
    (statement other) := by
  refine .dispatch fun k => ?_
  split
  · rename_i p hp
    refine .call p ?_
    cases k <;> cases hp <;> decide
  · exact .call .expressionStatement (by decide)

theorem statements {stop : TokenKind} :
    Form self other known Production.levels false (statements self stop) (statements other stop) :=
  (Form.loop [] (by simp) fun nodes => (Form.call .statement (by decide)).bind fun node =>
    .pure (node :: nodes)).bind fun reversed => .pure reversed.reverse

theorem expressionStatement : Form self other known Production.expressionStatement.rank true
    (expressionStatement self) (expressionStatement other) :=
  (Form.call .sequence (by decide)).bind fun _ => .skip .semicolon (by decide) (.pure _)

theorem block : Form self other known rank true (block self) (block other) :=
  .skip .openCurly (by decide) <| statements.bind fun _ => .skip .closeCurly (by decide) (.pure _)

theorem variableStatement : Form self other known Production.variableStatement.rank true
    (variableStatement self) (variableStatement other) :=
  (Form.call .variableList (by decide)).bind fun _ => .skip .semicolon (by decide) (.pure _)

theorem variableList : Form self other known rank true (variableList self) (variableList other) :=
  .skip .letWord (by decide) <|
    (commaSeparated (fun _ => .call .variableDeclaration (by decide)) fun _ =>
      .call .variableDeclaration (by decide)).bind fun _ => .pure _

theorem initializer : Form self other known rank true (initializer self) (initializer other) :=
  .skip .simpleAssign (by decide) (.call .assignment (by decide))

theorem variableDeclaration : Form self other known Production.variableDeclaration.rank true
    (variableDeclaration self) (variableDeclaration other) := by
  refine (Form.call .identifier (by decide)).bind (d := false) fun id => .peek fun k _ => ?_
  split
  · exact (Form.pure none).bind fun _ => .pure _
  · exact ((initializer.map some).bind fun _ => .pure _).weaken

theorem condition : Form self other known rank true (condition self) (condition other) :=
  .skip .openParen (by decide) <| (Form.call .sequence (by decide)).bind fun cond =>
    .skip .closeParen (by decide) (.pure cond)

theorem alternative : Form self other known Production.levels false (alternative self)
    (alternative other) := by
  refine .peek fun k _ => ?_
  split
  · exact (skip .elseWord (by decide) ((Form.call .statement (by decide)).map some)).weaken
  · exact .pure none

theorem conditional : Form self other known rank true (conditional self) (conditional other) :=
  .skip .ifWord (by decide) <| condition.bind fun _ =>
    (Form.call .statement (by decide)).bind fun _ => alternative.bind fun _ => .pure _

theorem whileLoop : Form self other known rank true (whileLoop self) (whileLoop other) :=
  .skip .whileWord (by decide) <| condition.bind fun _ =>
    (Form.call .statement (by decide)).bind fun _ => .pure _

theorem doWhileLoop : Form self other known rank true (doWhileLoop self) (doWhileLoop other) :=
  .skip .doWord (by decide) <| (Form.call .statement (by decide)).bind fun _ =>
    .skip .whileWord (by decide) <| condition.bind fun _ =>
      .skip .semicolon (by decide) (.pure _)

theorem loopStart : Form self other known Production.levels true (loopStart self)
    (loopStart other) := by
  refine .peek fun k _ => ?_
  split
  · exact .call .variableList (by decide)
  · exact .call .sequence (by decide)

theorem forLoop : Form self other known rank true (forLoop self) (forLoop other) :=
  .skip .forWord (by decide) <| .skip .openParen (by decide) <|
    (optionalUnless fun _ => loopStart).bind fun _ => .skip .semicolon (by decide) <|
      (optionalUnless fun _ => .call .sequence (by decide)).bind fun _ =>
        .skip .semicolon (by decide) <|
          (optionalUnless fun _ => .call .sequence (by decide)).bind fun _ =>
            .skip .closeParen (by decide) <|
              (Form.call .statement (by decide)).bind fun _ => .pure _

theorem iteration : Form self other known Production.iteration.rank true (iteration self)
    (iteration other) := by
  refine .peek fun k _ => ?_
  split
  · exact .call .whileLoop (by decide)
  · exact .call .doWhileLoop (by decide)
  · exact .call .forLoop (by decide)
  · exact .refuse (fun t => .unexpectedToken t.kind t.value .whileWord) (fun _ _ => ⟨rfl, rfl⟩)
      fun _ _ h => by rw [h.kind, h.value]

theorem functionDeclaration :
    Form self other known rank true (functionDeclaration self) (functionDeclaration other) :=
  .skip .defWord (by decide) <| (Form.call .identifier (by decide)).bind fun _ =>
    .skip .openParen (by decide) <|
      (optionalUnless fun _ => commaSeparated (fun _ => .call .identifier (by decide)) fun _ =>
        .call .identifier (by decide)).bind fun _ => .skip .closeParen (by decide) <|
          (Form.call .block (by decide)).bind fun _ => .pure _

theorem returnStatement :
    Form self other known rank true (returnStatement self) (returnStatement other) :=
  .skip .returnWord (by decide) <|
    (optionalUnless fun _ => .call .sequence (by decide)).bind fun _ =>
      .skip .semicolon (by decide) (.pure _)

theorem superclass : Form self other known Production.levels false (superclass self)
    (superclass other) := by
  refine .peek fun k _ => ?_
  split
  · exact (skip .extendsWord (by decide) ((Form.call .identifier (by decide)).map some)).weaken
  · exact .pure none

theorem classDeclaration :
    Form self other known rank true (classDeclaration self) (classDeclaration other) :=
  .skip .classWord (by decide) <| (Form.call .identifier (by decide)).bind fun _ =>
    superclass.bind fun _ => (Form.call .block (by decide)).bind fun _ => .pure _

/-- Every production consumes a token if it succeeds. -/
theorem body (p : Production) :
    Form self other (fun _ => True) p.rank true (p.body self) (p.body other) := by
  cases p with
  | statement => exact statement
  | expressionStatement => exact expressionStatement
  | emptyStatement => exact token (by decide) _
  | block => exact block
  | variableStatement => exact variableStatement
  | variableList => exact variableList
  | variableDeclaration => exact variableDeclaration
  | conditional => exact conditional
  | iteration => exact iteration
  | whileLoop => exact whileLoop
  | doWhileLoop => exact doWhileLoop
  | forLoop => exact forLoop
  | functionDeclaration => exact functionDeclaration
  | returnStatement => exact returnStatement
  | classDeclaration => exact classDeclaration
  | sequence => exact sequence
  | assignment => exact assignment
  | disjunction | conjunction => exact leftAssociative _ (by decide) (by decide)
  | equality | relation | sum | product => exact leftAssociative _ (by decide) (by decide)
  | prefixed => exact prefixed
  | leftHandSide => exact leftHandSide
  | member => exact member
  | primary => exact primary
  | grouping => exact grouping
  | creation => exact creation
  | identifier => exact identifier
  | literal => exact literal

end Frontend.Parser.Form
