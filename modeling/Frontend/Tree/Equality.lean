import Frontend.Tree.Node

/-! # Equality of trees

Two nodes are equal when they are of one variety and agree in every field. The
test follows both trees together, and decides equality.
-/

namespace Frontend.Node

mutual

def equal : Node → Node → Bool
  | .program body, other =>
    match other with
    | .program body' => equalLists body body'
    | _ => false
  | .stringLit value, other =>
    match other with
    | .stringLit value' => value == value'
    | _ => false
  | .numericLit value, other =>
    match other with
    | .numericLit value' => value == value'
    | _ => false
  | .boolLit value, other =>
    match other with
    | .boolLit value' => value == value'
    | _ => false
  | .nullLit, other =>
    match other with
    | .nullLit => true
    | _ => false
  | .exprStmt expr, other =>
    match other with
    | .exprStmt expr' => equal expr expr'
    | _ => false
  | .blockStmt body, other =>
    match other with
    | .blockStmt body' => equalLists body body'
    | _ => false
  | .emptyStmt, other =>
    match other with
    | .emptyStmt => true
    | _ => false
  | .varStmt decls, other =>
    match other with
    | .varStmt decls' => equalLists decls decls'
    | _ => false
  | .varDecl id init, other =>
    match other with
    | .varDecl id' init' => equal id id' && equalOptions init init'
    | _ => false
  | .ifStmt cond cons alt, other =>
    match other with
    | .ifStmt cond' cons' alt' => equal cond cond' && equal cons cons' && equalOptions alt alt'
    | _ => false
  | .whileStmt cond body, other =>
    match other with
    | .whileStmt cond' body' => equal cond cond' && equal body body'
    | _ => false
  | .doWhileStmt cond body, other =>
    match other with
    | .doWhileStmt cond' body' => equal cond cond' && equal body body'
    | _ => false
  | .forStmt init cond step body, other =>
    match other with
    | .forStmt init' cond' step' body' =>
      equalOptions init init' && equalOptions cond cond' && equalOptions step step' &&
        equal body body'
    | _ => false
  | .funcDecl name params body, other =>
    match other with
    | .funcDecl name' params' body' =>
      equal name name' && equalOptionLists params params' && equal body body'
    | _ => false
  | .returnStmt arg, other =>
    match other with
    | .returnStmt arg' => equalOptions arg arg'
    | _ => false
  | .classDecl id superclass body, other =>
    match other with
    | .classDecl id' superclass' body' =>
      equal id id' && equalOptions superclass superclass' && equal body body'
    | _ => false
  | .binaryExpr op left right, other =>
    match other with
    | .binaryExpr op' left' right' => op == op' && equal left left' && equal right right'
    | _ => false
  | .logicalExpr op left right, other =>
    match other with
    | .logicalExpr op' left' right' => op == op' && equal left left' && equal right right'
    | _ => false
  | .unaryExpr op arg, other =>
    match other with
    | .unaryExpr op' arg' => op == op' && equal arg arg'
    | _ => false
  | .assignExpr op left right, other =>
    match other with
    | .assignExpr op' left' right' => op == op' && equal left left' && equal right right'
    | _ => false
  | .seqExpr body, other =>
    match other with
    | .seqExpr body' => equalLists body body'
    | _ => false
  | .thisExpr, other =>
    match other with
    | .thisExpr => true
    | _ => false
  | .newExpr callee args, other =>
    match other with
    | .newExpr callee' args' => equal callee callee' && equalLists args args'
    | _ => false
  | .callExpr callee args, other =>
    match other with
    | .callExpr callee' args' => equal callee callee' && equalLists args args'
    | _ => false
  | .memberExpr computed obj prop, other =>
    match other with
    | .memberExpr computed' obj' prop' =>
      computed == computed' && equal obj obj' && equal prop prop'
    | _ => false
  | .identifier name, other =>
    match other with
    | .identifier name' => name == name'
    | _ => false
  | .superCall, other =>
    match other with
    | .superCall => true
    | _ => false

def equalLists : List Node → List Node → Bool
  | [], [] => true
  | node :: nodes, node' :: nodes' => equal node node' && equalLists nodes nodes'
  | _, _ => false

def equalOptions : Option Node → Option Node → Bool
  | none, none => true
  | some node, some node' => equal node node'
  | _, _ => false

def equalOptionLists : Option (List Node) → Option (List Node) → Bool
  | none, none => true
  | some nodes, some nodes' => equalLists nodes nodes'
  | _, _ => false

end

mutual

theorem equal_iff : ∀ a b : Node, equal a b = true ↔ a = b
  | .program body, other => by cases other <;> simp [equal, equalLists_iff body]
  | .stringLit _, other => by cases other <;> simp [equal]
  | .numericLit _, other => by cases other <;> simp [equal]
  | .boolLit _, other => by cases other <;> simp [equal]
  | .nullLit, other => by cases other <;> simp [equal]
  | .exprStmt expr, other => by cases other <;> simp [equal, equal_iff expr]
  | .blockStmt body, other => by cases other <;> simp [equal, equalLists_iff body]
  | .emptyStmt, other => by cases other <;> simp [equal]
  | .varStmt decls, other => by cases other <;> simp [equal, equalLists_iff decls]
  | .varDecl id init, other => by
    cases other <;> simp [equal, equal_iff id, equalOptions_iff init]
  | .ifStmt cond cons alt, other => by
    cases other <;> simp [equal, equal_iff cond, equal_iff cons, equalOptions_iff alt, and_assoc]
  | .whileStmt cond body, other => by cases other <;> simp [equal, equal_iff cond, equal_iff body]
  | .doWhileStmt cond body, other => by
    cases other <;> simp [equal, equal_iff cond, equal_iff body]
  | .forStmt init cond step body, other => by
    cases other <;> simp [equal, equalOptions_iff init, equalOptions_iff cond,
      equalOptions_iff step, equal_iff body, and_assoc]
  | .funcDecl name params body, other => by
    cases other <;> simp [equal, equal_iff name, equalOptionLists_iff params, equal_iff body,
      and_assoc]
  | .returnStmt arg, other => by cases other <;> simp [equal, equalOptions_iff arg]
  | .classDecl id superclass body, other => by
    cases other <;> simp [equal, equal_iff id, equalOptions_iff superclass, equal_iff body,
      and_assoc]
  | .binaryExpr _ left right, other => by
    cases other <;> simp [equal, equal_iff left, equal_iff right, and_assoc]
  | .logicalExpr _ left right, other => by
    cases other <;> simp [equal, equal_iff left, equal_iff right, and_assoc]
  | .unaryExpr _ arg, other => by cases other <;> simp [equal, equal_iff arg]
  | .assignExpr _ left right, other => by
    cases other <;> simp [equal, equal_iff left, equal_iff right, and_assoc]
  | .seqExpr body, other => by cases other <;> simp [equal, equalLists_iff body]
  | .thisExpr, other => by cases other <;> simp [equal]
  | .newExpr callee args, other => by
    cases other <;> simp [equal, equal_iff callee, equalLists_iff args]
  | .callExpr callee args, other => by
    cases other <;> simp [equal, equal_iff callee, equalLists_iff args]
  | .memberExpr _ obj prop, other => by
    cases other <;> simp [equal, equal_iff obj, equal_iff prop, and_assoc]
  | .identifier _, other => by cases other <;> simp [equal]
  | .superCall, other => by cases other <;> simp [equal]

theorem equalLists_iff : ∀ as bs : List Node, equalLists as bs = true ↔ as = bs
  | [], others => by cases others <;> simp [equalLists]
  | node :: nodes, others => by
    cases others <;> simp [equalLists, equal_iff node, equalLists_iff nodes]

theorem equalOptions_iff : ∀ a b : Option Node, equalOptions a b = true ↔ a = b
  | none, other => by cases other <;> simp [equalOptions]
  | some node, other => by cases other <;> simp [equalOptions, equal_iff node]

theorem equalOptionLists_iff :
    ∀ a b : Option (List Node), equalOptionLists a b = true ↔ a = b
  | none, other => by cases other <;> simp [equalOptionLists]
  | some nodes, other => by cases other <;> simp [equalOptionLists, equalLists_iff nodes]

end

instance : DecidableEq Node := fun a b => decidable_of_iff _ (equal_iff a b)

end Frontend.Node
