import Frontend.Proofs.Grammar.Accepted
import Frontend.Proofs.Tree.Printing
import Mathlib.Data.Option.Basic

/-! # Printed trees

The words of a tree derive it. So a tree that is printed and parsed is the same
as before, if it is that of a program and its leaves can be written.
-/

namespace Frontend

namespace Production

variable {ts : List Token} {tree : Node}

theorem Derives.exists_variableList (h : Production.variableStatement.Derives ts tree) :
    ∃ us semicolon, ts = us ++ [semicolon] ∧ semicolon.kind = .semicolon ∧
      Production.variableList.Derives us tree := by
  cases h with
  | alternative hq => cases hq
  | binary hl | logical hl => cases hl
  | variableStatement h hs => exact ⟨_, _, rfl, hs, h⟩

end Production

theorem BinaryOp.exists_level (op : BinaryOp) : ∃ p q,
    Production.BinaryLevel p (Operator.Written.kind op) q ∧
    p ∈ Production.expressionLevels ∧ q ∈ Production.expressionLevels := by
  cases op
  case add | sub => exact ⟨_, _, .sum, by decide, by decide⟩
  case mul | div => exact ⟨_, _, .product, by decide, by decide⟩
  case gt | lt | gte | lte => exact ⟨_, _, .relation, by decide, by decide⟩
  case eq | neq => exact ⟨_, _, .equality, by decide, by decide⟩

theorem LogicalOp.exists_level (op : LogicalOp) : ∃ p q,
    Production.LogicalLevel p (Operator.Written.kind op) q ∧
    p ∈ Production.expressionLevels ∧ q ∈ Production.expressionLevels := by
  cases op
  case and => exact ⟨_, _, .conjunction, by decide, by decide⟩
  case or => exact ⟨_, _, .disjunction, by decide, by decide⟩

namespace Word

def token (word : Word) : Token := ⟨word.1, word.2, default⟩

theorem kind_token (word : Word) : word.token.kind = word.1 := rfl

theorem exists_lexemes {words : List Word} (h : AllSpelled words) {s : List Char}
    (hs : IsLayout s) : ∃ items : List (Lexeme × List Char),
      items.map (fun item => item.1.token) = words.map token ∧ WellSpaced s items ∧
        written s items = s ++ words.flatMap fun word => word.2.toList ++ [' '] := by
  induction words generalizing s with
  | nil => exact ⟨[], rfl, .inl hs, (List.append_nil s).symm⟩
  | cons word words ih =>
    obtain ⟨hw, h⟩ := List.forall_mem_cons.mp h
    obtain ⟨items, ht, hsp, hwr⟩ := ih h (.blank rfl .nil : IsLayout [' '])
    refine ⟨(Lexeme.ofSpells word.1 word.2 hw, [' ']) :: items, ?_, ?_, ?_⟩
    · exact congrArg (List.cons word.token) ht
    · exact ⟨hs, fun _ => rfl, nofun, hsp⟩
    · rw [written, hwr]
      simp [Lexeme.ofSpells]

end Word

namespace Node

open Word Production

def tokens (node : Node) : List Token := node.words.map token

def segment (node : Node) : Segment := (node.tokens, node)

/-- Whether a production derives a tree from the tokens of the printed tree. -/
def ReadsBack (p : Production) (node : Node) : Prop := p.Derives node.tokens node

variable {nodes : List Node} {node : Node} {p : Production} {words : List Word}

@[simp] theorem map_snd_segment (nodes : List Node) : (nodes.map segment).map Prod.snd = nodes := by
  simp [segment, Function.comp_def]

theorem flatMap_fst_segment (nodes : List Node) :
    (nodes.map segment).flatMap Prod.fst = (wordsOfList nodes).map token := by
  induction nodes with
  | nil => rfl
  | cons node nodes ih => simp [ih, segment, tokens, wordsOfList]

theorem commaSeparated_words (hne : nodes ≠ []) :
    CommaSeparated (nodes.map segment) ((wordsWithCommas nodes).map token) := by
  obtain ⟨node, nodes, rfl⟩ := List.exists_cons_of_ne_nil hne
  clear hne
  induction nodes generalizing node with
  | nil =>
    have h := CommaSeparated.single node.segment
    simpa [wordsWithCommas, wordsBehindComma, segment, tokens] using h
  | cons next nodes ih =>
    have h := CommaSeparated.cons node.segment (kind_token (of .comma)) (ih next)
    simpa [wordsWithCommas, wordsBehindComma, segment, tokens] using h

theorem parenthesized_words (nodes : List Node) :
    Parenthesized (nodes.map segment) ((enclosed (wordsWithCommas nodes)).map token) := by
  cases nodes with
  | nil => exact .nil (kind_token (of .openParen)) (kind_token (of .closeParen))
  | cons node nodes =>
    have h := commaSeparated_words (List.cons_ne_nil node nodes)
    simpa [enclosed] using Parenthesized.some (kind_token (of .openParen)) h
      (kind_token (of .closeParen))

theorem grouping_enclosed (h : sequence.Derives (words.map token) node) :
    grouping.Derives ((enclosed words).map token) node := by
  simpa [enclosed] using Derives.grouping (kind_token (of .openParen)) h
    (kind_token (of .closeParen))

theorem primary_enclosed (hp : p ∈ expressionLevels) (h : p.Derives (words.map token) node) :
    primary.Derives ((enclosed words).map token) node :=
  .alternative (q := .grouping) (by decide)
    (grouping_enclosed (h.assignment_of_level p hp).sequence_of_assignment)

theorem derives_of_mem_segments (h : ∀ node ∈ nodes, ReadsBack p node) :
    ∀ item ∈ nodes.map segment, p.Derives item.1 item.2 :=
  List.forall_mem_map.mpr h

theorem assignment_of_mem_segments (h : ∀ node ∈ nodes, ReadsBack primary node) :
    ∀ item ∈ nodes.map segment, assignment.Derives item.1 item.2 :=
  derives_of_mem_segments fun node hn => (h node hn).of_primary .assignment (by decide)

theorem ofSequence_of_two_le (h : 2 ≤ nodes.length) : ofSequence nodes = seqExpr nodes := by
  unfold ofSequence
  split
  · cases h
    contradiction
  · rfl

/-- The productions for what stands in a place. -/
@[simp] def Slot.production : Slot → Production
  | .statement => .statement
  | .block => .block
  | .variables => .variableStatement
  | .declaration => .variableDeclaration
  | .expression => .primary
  | .name => .identifier

theorem not_isBareCreation_tokens (node : Node) : ¬ IsBareCreation node.tokens node := by
  rintro ⟨hk, hn⟩
  cases node <;> cases hn
  cases hk

theorem map_snd_optional (node? : Option Node) : (node?.map segment).map Prod.snd = node? := by
  cases node? <;> rfl

theorem tokens_optional (node? : Option Node) :
    Segment.tokens (node?.map segment) = (wordsBehind [] node?).map token := by
  cases node? <;> rfl

theorem sequence_of_mem_optional {node? : Option Node}
    (h : ∀ node ∈ node?, ReadsBack primary node) :
    ∀ item ∈ node?.map segment, sequence.Derives item.1 item.2 :=
  Option.forall_mem_map.mpr fun node hn => (h node hn).sequence_of_primary

theorem exists_start {slot : Slot} (hs : slot = .variables ∨ slot = .expression)
    {node? : Option Node} (hf : ∀ node ∈ node?, Fits .written slot node)
    (h : ∀ node ∈ node?, ReadsBack slot.production node) :
    ∃ p start semicolon, (p = variableList ∨ p = sequence) ∧
      (∀ item ∈ start, p.Derives item.1 item.2) ∧ semicolon.kind = .semicolon ∧
      start.map Prod.snd = node? ∧
      Segment.tokens start ++ [semicolon] = (wordsOfStart node?).map token := by
  rcases node? with _ | node
  · exact ⟨sequence, none, (of .semicolon).token, .inr rfl, nofun, rfl, rfl, rfl⟩
  have hf := hf node rfl
  have h := h node rfl
  rcases hs with rfl | rfl
  · have hc : node.closeStart = [] := by
      cases hf
      rfl
    obtain ⟨ts, semicolon, hts, hk, hl⟩ := h.exists_variableList
    refine ⟨variableList, some (ts, node), semicolon, .inl rfl, ?_, hk, rfl, ?_⟩
    · rintro _ ⟨⟩
      exact hl
    · rw [wordsOfStart, hc, List.append_nil]
      exact hts.symm
  · have hc : node.closeStart = [of .semicolon] := by
      cases hf with
      | expression_of_name hf => cases hf; rfl
      | _ => rfl
    refine ⟨sequence, some node.segment, (of .semicolon).token, .inr rfl, ?_, rfl, rfl, ?_⟩
    · rintro _ ⟨⟩
      exact h.sequence_of_primary
    · simp [wordsOfStart, hc, segment, tokens]

namespace ReadsBack

variable {left right id cond cons body callee obj prop : Node} {args : List Node}

theorem numericLit {n : Int} (h : 0 ≤ n ∧ n < 2 ^ 63) : ReadsBack primary (.numericLit n) :=
  .alternative (q := .literal) (by decide) (.number rfl (Literal.integer?_numeral h))

theorem stringLit (value : String) : ReadsBack primary (.stringLit value) := by
  have h := Derives.string (t := token (.string, Literal.quoted value)) rfl
  rw [token, Literal.unquoted_quoted] at h
  exact .alternative (q := .literal) (by decide) h

theorem boolLit (value : Bool) : ReadsBack primary (.boolLit value) := by
  refine .alternative (q := .literal) (by decide) (.constant ?_)
  cases value <;> rfl

theorem binaryExpr {op : BinaryOp} (hl : ReadsBack primary left) (hr : ReadsBack primary right) :
    ReadsBack primary (.binaryExpr op left right) := by
  obtain ⟨p, q, hlevel, hp, hq⟩ := op.exists_level
  refine primary_enclosed hp ?_
  simpa [tokens] using Derives.binary hlevel (hl.of_primary p hp) (kind_token (ofOperator op))
    (Operator.Written.ofSymbol?_symbol op) (hr.of_primary q hq)

theorem logicalExpr {op : LogicalOp} (hl : ReadsBack primary left) (hr : ReadsBack primary right) :
    ReadsBack primary (.logicalExpr op left right) := by
  obtain ⟨p, q, hlevel, hp, hq⟩ := op.exists_level
  refine primary_enclosed hp ?_
  simpa [tokens] using Derives.logical hlevel (hl.of_primary p hp) (kind_token (ofOperator op))
    (Operator.Written.ofSymbol?_symbol op) (hr.of_primary q hq)

theorem unaryExpr {op : UnaryOp} {arg : Node} (h : ReadsBack primary arg) :
    ReadsBack primary (.unaryExpr op arg) := by
  have hk : (ofOperator op).token.kind.isUnaryOp = true := by cases op <;> rfl
  exact primary_enclosed (p := .prefixed) (by decide)
    (.unary hk (Operator.Written.ofSymbol?_symbol op) (h.of_primary .prefixed (by decide)))

theorem assignExpr {op : AssignOp} (hl : ReadsBack primary left) (ha : left.isAssignable = true)
    (hr : ReadsBack primary right) : ReadsBack primary (.assignExpr op left right) := by
  have hk : (ofOperator op).token.kind.isAssignOp = true := by cases op <;> rfl
  refine primary_enclosed (p := .assignment) (by decide) ?_
  simpa [tokens] using Derives.assign (hl.of_primary .disjunction (by decide)) ha hk
    (Operator.Written.ofSymbol?_symbol op) (hr.of_primary .assignment (by decide))

theorem seqExpr {body : List Node} (hl : 2 ≤ body.length)
    (hb : ∀ node ∈ body, ReadsBack primary node) : ReadsBack primary (.seqExpr body) := by
  have hne : body ≠ [] := by
    rintro rfl
    cases hl
  have hs := Derives.sequence (assignment_of_mem_segments hb) (commaSeparated_words hne)
  rw [map_snd_segment, ofSequence_of_two_le hl] at hs
  exact .alternative (q := .grouping) (by decide) (grouping_enclosed hs)

theorem newExpr (hc : ReadsBack primary callee) (ha : ∀ arg ∈ args, ReadsBack primary arg) :
    ReadsBack primary (.newExpr callee args) := by
  have h := Derives.creation (kind_token (of .newWord)) (hc.of_primary .member (by decide))
    (assignment_of_mem_segments ha) (parenthesized_words args)
  rw [map_snd_segment] at h
  refine primary_enclosed (p := .primary) (by decide)
    (.alternative (q := .creation) (by decide) ?_)
  simpa [tokens] using h

theorem callExpr (hc : ReadsBack primary callee) (ha : ∀ arg ∈ args, ReadsBack primary arg) :
    ReadsBack primary (.callExpr callee args) := by
  have h := Derives.call (hc.of_primary .leftHandSide (by decide))
    (not_isBareCreation_tokens callee) (assignment_of_mem_segments ha) (parenthesized_words args)
  rw [map_snd_segment] at h
  refine primary_enclosed (p := .leftHandSide) (by decide) ?_
  simpa [tokens] using h

theorem superCall (ha : ∀ arg ∈ args, ReadsBack primary arg) :
    ReadsBack primary (.callExpr .superCall args) := by
  have h := Derives.superCall (kind_token (of .superWord))
    (assignment_of_mem_segments ha) (parenthesized_words args)
  rw [map_snd_segment] at h
  refine primary_enclosed (p := .leftHandSide) (by decide) ?_
  simpa [tokens, words] using h

theorem named (ho : ReadsBack primary obj) (hp : ReadsBack Production.identifier prop) :
    ReadsBack primary (.memberExpr false obj prop) := by
  refine primary_enclosed (p := .member) (by decide) ?_
  simpa [tokens] using Derives.named (ho.of_primary .member (by decide)) (kind_token (of .dot)) hp

theorem computed (ho : ReadsBack primary obj) (hp : ReadsBack primary prop) :
    ReadsBack primary (.memberExpr true obj prop) := by
  refine primary_enclosed (p := .member) (by decide) ?_
  simpa [tokens] using Derives.computed (ho.of_primary .member (by decide))
    (kind_token (of .openBracket)) hp.sequence_of_primary (kind_token (of .closeBracket))

theorem varDecl {init : Option Node} (hid : ReadsBack Production.identifier id)
    (hinit : ∀ e ∈ init, ReadsBack primary e) :
    ReadsBack variableDeclaration (.varDecl id init) := by
  cases init with
  | none => simpa [ReadsBack, tokens, words, wordsBehind] using Derives.declared hid
  | some e =>
    simpa [ReadsBack, tokens, words, wordsBehind] using Derives.initialized hid
      (kind_token (.simpleAssign, "=")) ((hinit e rfl).of_primary .assignment (by decide))

theorem varStmt {decls : List Node} (hne : decls ≠ [])
    (hd : ∀ decl ∈ decls, ReadsBack variableDeclaration decl) :
    ReadsBack variableStatement (.varStmt decls) := by
  have h := Derives.variableList (kind_token (of .letWord))
    (derives_of_mem_segments hd) (commaSeparated_words hne)
  rw [map_snd_segment] at h
  simpa [ReadsBack, tokens, words] using
    Derives.variableStatement h (kind_token (of .semicolon))

theorem exprStmt {expr : Node} (h : ReadsBack primary expr) :
    ReadsBack expressionStatement (.exprStmt expr) := by
  simpa [ReadsBack, tokens, words] using
    Derives.expressionStatement h.sequence_of_primary (kind_token (of .semicolon))

theorem blockStmt {body : List Node} (hb : ∀ node ∈ body, ReadsBack statement node) :
    ReadsBack block (.blockStmt body) := by
  have h := Derives.block (kind_token (of .openCurly)) (derives_of_mem_segments hb)
    (kind_token (of .closeCurly))
  rw [map_snd_segment, flatMap_fst_segment] at h
  simpa [ReadsBack, tokens, words] using h

theorem ifStmt {alt : Option Node} (hcond : ReadsBack primary cond)
    (hcons : ReadsBack statement cons) (ho : alt ≠ none → cons.endsOpen = false)
    (halt : ∀ node ∈ alt, ReadsBack statement node) :
    ReadsBack conditional (.ifStmt cond cons alt) := by
  have hc := grouping_enclosed hcond.sequence_of_primary
  cases alt with
  | none =>
    simpa [ReadsBack, tokens, words, wordsBehind] using
      Derives.conditional (kind_token (of .ifWord)) hc hcons
  | some node =>
    simpa [ReadsBack, tokens, words, wordsBehind] using
      Derives.conditionalElse (kind_token (of .ifWord)) hc hcons (ho (by simp))
        (kind_token (of .elseWord)) (halt node rfl)

theorem whileStmt (hcond : ReadsBack primary cond) (hbody : ReadsBack statement body) :
    ReadsBack whileLoop (.whileStmt cond body) := by
  have hc := grouping_enclosed hcond.sequence_of_primary
  simpa [ReadsBack, tokens, words] using Derives.whileLoop (kind_token (of .whileWord)) hc hbody

theorem doWhileStmt (hcond : ReadsBack primary cond) (hbody : ReadsBack statement body) :
    ReadsBack doWhileLoop (.doWhileStmt cond body) := by
  have hc := grouping_enclosed hcond.sequence_of_primary
  simpa [ReadsBack, tokens, words] using Derives.doWhileLoop (kind_token (of .doWord)) hbody
    (kind_token (of .whileWord)) hc (kind_token (of .semicolon))

theorem forStmt {slot : Slot} {init cond step : Option Node}
    (hs : slot = .variables ∨ slot = .expression) (hf : ∀ node ∈ init, Fits .written slot node)
    (hinit : ∀ node ∈ init, ReadsBack slot.production node)
    (hcond : ∀ node ∈ cond, ReadsBack primary node)
    (hstep : ∀ node ∈ step, ReadsBack primary node) (hbody : ReadsBack statement body) :
    ReadsBack forLoop (.forStmt init cond step body) := by
  obtain ⟨p, start, semicolon, hp, hd, hk, rfl, hts⟩ := exists_start hs hf hinit
  have h := Derives.forLoop (kind_token (of .forWord)) (kind_token (of .openParen)) hp hd hk
    (sequence_of_mem_optional hcond) (kind_token (of .semicolon)) (sequence_of_mem_optional hstep)
    (kind_token (of .closeParen)) hbody
  rw [map_snd_optional, map_snd_optional, tokens_optional, tokens_optional] at h
  simpa [ReadsBack, tokens, words, enclosed, ← hts] using h

theorem funcDecl {params : Option (List Node)} (hid : ReadsBack Production.identifier id)
    (hne : params ≠ some [])
    (hparams : ∀ list ∈ params, ∀ param ∈ list, ReadsBack Production.identifier param)
    (hbody : ReadsBack block body) : ReadsBack functionDeclaration (.funcDecl id params body) := by
  have hw : wordsOfParameters params = wordsWithCommas (params.getD []) := by cases params <;> rfl
  have hp : parameters (params.getD []) = params := by cases params <;> simp_all [parameters]
  have hi : ∀ param ∈ params.getD [], ReadsBack Production.identifier param := by
    cases params with
    | none => simp
    | some list => exact hparams list rfl
  have h := Derives.functionDeclaration (kind_token (of .defWord)) hid
    (derives_of_mem_segments hi) (parenthesized_words (params.getD [])) hbody
  rw [map_snd_segment, hp] at h
  simpa [ReadsBack, tokens, words, hw] using h

theorem returnStmt {arg : Option Node} (ha : ∀ e ∈ arg, ReadsBack primary e) :
    ReadsBack returnStatement (.returnStmt arg) := by
  have h := Derives.returnStatement (kind_token (of .returnWord)) (sequence_of_mem_optional ha)
    (kind_token (of .semicolon))
  rw [map_snd_optional, tokens_optional] at h
  simpa [ReadsBack, tokens, words] using h

theorem classDecl {superclass : Option Node} (hid : ReadsBack Production.identifier id)
    (hs : ∀ node ∈ superclass, ReadsBack Production.identifier node)
    (hbody : ReadsBack block body) :
    ReadsBack classDeclaration (.classDecl id superclass body) := by
  cases superclass with
  | none =>
    simpa [ReadsBack, tokens, words, wordsBehind] using
      Derives.classDeclaration (kind_token (of .classWord)) hid hbody
  | some superclass =>
    simpa [ReadsBack, tokens, words, wordsBehind] using
      Derives.subclassDeclaration (kind_token (of .classWord)) hid (kind_token (of .extendsWord))
        (hs superclass rfl) hbody

theorem alternative {p q : Production} (h : ReadsBack q node) (hq : q ∈ p.alternatives) :
    ReadsBack p node := Derives.alternative hq h

theorem statement_of_loop {p : Production} (h : ReadsBack p node)
    (hp : p ∈ iteration.alternatives) : ReadsBack statement node :=
  (h.alternative hp).alternative (by decide)

end ReadsBack

theorem Fits.readsBack {slot : Slot} (h : Fits .written slot node) :
    ReadsBack slot.production node := by
  induction h with
  | statement_of_block _ ih | statement_of_variables _ ih | expression_of_name _ ih =>
    exact ih.alternative (by decide)
  | identifier => exact Derives.identifier (t := ⟨_, _, _⟩) rfl
  | numericLit h => exact .numericLit h
  | stringLit => exact .stringLit _
  | boolLit value => exact .boolLit value
  | nullLit => exact Derives.alternative (q := .literal) (by decide) (.constant rfl)
  | thisExpr => exact Derives.this rfl
  | binaryExpr _ _ ih ih' => exact .binaryExpr ih ih'
  | logicalExpr _ _ ih ih' => exact .logicalExpr ih ih'
  | unaryExpr _ ih => exact .unaryExpr ih
  | assignExpr _ ha _ ih ih' => exact .assignExpr ih ha ih'
  | seqExpr hl _ ih => exact .seqExpr hl ih
  | newExpr _ _ ih iha => exact .newExpr ih iha
  | callExpr _ _ ih iha => exact .callExpr ih iha
  | superCall _ iha => exact .superCall iha
  | named _ _ ih ih' => exact .named ih ih'
  | computed _ _ ih ih' => exact .computed ih ih'
  | varDecl _ _ ih ihe => exact .varDecl ih ihe
  | varStmt hne _ ih => exact .varStmt hne ih
  | exprStmt _ ih => exact (ReadsBack.exprStmt ih).alternative (by decide)
  | blockStmt _ ih => exact .blockStmt ih
  | emptyStmt => exact Derives.alternative (q := .emptyStatement) (by decide) (.emptyStatement rfl)
  | ifStmt _ _ ho _ ih ih' iha => exact (ReadsBack.ifStmt ih ih' ho iha).alternative (by decide)
  | whileStmt _ _ ih ih' => exact (ReadsBack.whileStmt ih ih').statement_of_loop (by decide)
  | doWhileStmt _ _ ih ih' => exact (ReadsBack.doWhileStmt ih ih').statement_of_loop (by decide)
  | forStmt hs hf _ _ _ ihi ihc ihs ih =>
    exact (ReadsBack.forStmt hs hf ihi ihc ihs ih).statement_of_loop (by decide)
  | funcDecl _ hne _ _ ih iha ihb =>
    exact (ReadsBack.funcDecl ih hne iha ihb).alternative (by decide)
  | returnStmt _ ih => exact (ReadsBack.returnStmt ih).alternative (by decide)
  | classDecl _ _ _ ih ihs ihb => exact (ReadsBack.classDecl ih ihs ihb).alternative (by decide)

theorem IsProgram.derivesProgram {tree : Node} (h : tree.IsProgram .written) :
    DerivesProgram tree.tokens tree := by
  obtain ⟨body, rfl, hne, hb⟩ := h
  have hi := derives_of_mem_segments fun node hn => (hb node hn).readsBack
  have hd := DerivesProgram.intro (by simpa using hne) hi
  rwa [map_snd_segment, flatMap_fst_segment] at hd

theorem IsProgram.allSpelled {tree : Node} (h : tree.IsProgram .written) :
    AllSpelled tree.words := by
  obtain ⟨body, rfl, -, hb⟩ := h
  exact allSpelled_wordsOfList fun node hn => (hb node hn).allSpelled

end Node

/-- Parsing undoes printing. -/
theorem parse_print (tree : Node) (h : tree.IsProgram .written) : parse tree.print = .ok tree := by
  obtain ⟨items, ht, hs, hw⟩ := Word.exists_lexemes h.allSpelled .nil
  have hd := h.derivesProgram
  rw [Node.tokens, ← ht] at hd
  have hp := parse_written hs hd
  rwa [hw, List.nil_append] at hp

theorem parse_print_conditional :
    let tree : Node := .program [.ifStmt (.identifier "a")
      (.forStmt (some (.varStmt [.varDecl (.identifier "b") none])) none none .emptyStmt)
      (some (.exprStmt (.callExpr .superCall [.stringLit "\"", .numericLit 7])))]
    tree.print = "if ( a ) for ( let b ; ; ) ; else ( super ( '\"' , 7 ) ) ; " ∧
      parse tree.print = .ok tree := by
  intro tree
  have ha : Node.Fits .written .name (.identifier "a") :=
    .identifier ⟨'a', [], rfl, by decide, List.forall_mem_singleton.mpr (by decide), by decide⟩
  have hb : Node.Fits .written .name (.identifier "b") :=
    .identifier ⟨'b', [], rfl, by decide, List.forall_mem_singleton.mpr (by decide), by decide⟩
  have hfor : Node.Fits .written .statement
      (.forStmt (some (.varStmt [.varDecl (.identifier "b") none])) none none .emptyStmt) := by
    refine .forStmt (.inl rfl) ?_ nofun nofun .emptyStmt
    rintro _ ⟨⟩
    exact .varStmt (by simp) (by simpa using .varDecl hb nofun)
  have hsuper : Node.Fits .written .expression
      (.callExpr .superCall [.stringLit "\"", .numericLit 7]) := by
    have htext : Node.Fits .written .expression (.stringLit "\"") := .stringLit (.inr (by decide))
    have hnumber : Node.Fits .written .expression (.numericLit 7) :=
      .numericLit ⟨by decide, by decide⟩
    exact .superCall (by simp [htext, hnumber])
  refine ⟨by decide +kernel, parse_print tree ⟨_, rfl, by simp, List.forall_mem_singleton.mpr ?_⟩⟩
  refine .ifStmt (.expression_of_name ha) hfor (fun _ => rfl) ?_
  rintro _ ⟨⟩
  exact .exprStmt hsuper

end Frontend
