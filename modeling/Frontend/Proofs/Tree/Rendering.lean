import Frontend.Tree.Document
import Frontend.Proofs.Document.Whitespace
import Frontend.Proofs.Tree.Printing

/-! # Trees and their texts

A tree is told from any other by its document, and so by either text of that. The
fields of a document say everything of a node: its variety, its values, and its
parts in their places, where an absent part is neither an empty list nor a tree.
-/

namespace Frontend

theorem Document.ofOperator_inj {α : Type} [Operator α] [Operator.Written α] {op op' : α} :
    ofOperator op = ofOperator op' ↔ op = op' := by
  constructor
  · intro h
    exact Operator.Written.symbol_inj (text.inj h)
  · rintro rfl
    rfl

namespace Node

theorem document_ne_null (node : Node) : node.document ≠ .null := by
  cases node <;> simp [document]

theorem ctorIdx_eq_of_tag {a b : Node} (h : a.tag = b.tag) : a.ctorIdx = b.ctorIdx := by
  cases a <;> cases b <;> first | rfl | simp [tag] at h

theorem exists_document_eq (node : Node) :
    ∃ fields, node.document = .object fields ∧ fields.lookup "type" = some (.text node.tag) := by
  cases node <;> exact ⟨_, by rw [document], rfl⟩

theorem ctorIdx_eq_of_document {a b : Node} (h : a.document = b.document) :
    a.ctorIdx = b.ctorIdx := by
  obtain ⟨fields, ha, hva⟩ := exists_document_eq a
  obtain ⟨fields', hb, hvb⟩ := exists_document_eq b
  obtain rfl : fields = fields' := Document.object.inj (by rw [← ha, ← hb, h])
  apply ctorIdx_eq_of_tag
  simpa [hvb] using hva.symm

/-- The nodes right below a node. -/
def parts : Node → List Node
  | program body | blockStmt body | varStmt body | seqExpr body => body
  | exprStmt expr | unaryExpr _ expr => [expr]
  | varDecl id init => id :: init.toList
  | ifStmt cond cons alt => cond :: cons :: alt.toList
  | whileStmt cond body | doWhileStmt cond body => [cond, body]
  | forStmt init cond step body => body :: init.toList ++ cond.toList ++ step.toList
  | funcDecl name params body => name :: body :: params.getD []
  | returnStmt arg => arg.toList
  | classDecl id superclass body => id :: body :: superclass.toList
  | binaryExpr _ left right | logicalExpr _ left right | assignExpr _ left right => [left, right]
  | newExpr callee args | callExpr callee args => callee :: args
  | memberExpr _ obj prop => [obj, prop]
  | stringLit _ | numericLit _ | boolLit _ | nullLit | emptyStmt | thisExpr | identifier _
  | superCall => []

theorem sizeOf_lt_of_mem_parts {node part : Node} (h : part ∈ node.parts) :
    sizeOf part < sizeOf node := by
  have hlist {nodes : List Node} (h : part ∈ nodes) : sizeOf part < sizeOf nodes :=
    List.sizeOf_lt_of_mem h
  have hoption : ∀ {node : Option Node}, part ∈ node.toList → sizeOf part < sizeOf node := by
    rintro (_ | node) h <;> simp_all
  have hoptions : ∀ {nodes : Option (List Node)}, part ∈ nodes.getD [] →
      sizeOf part < sizeOf nodes := by
    rintro (_ | nodes) h
    · cases h
    · simpa using Nat.lt_add_left 1 (hlist h)
  cases node <;>
    simp only [parts, List.mem_cons, List.mem_append, List.not_mem_nil, or_false] at h <;>
    grind

/-- Nodes are nested in lists and options, so an induction on them goes through their parts. -/
@[elab_as_elim]
theorem induction_parts {motive : Node → Prop}
    (step : ∀ node, (∀ part ∈ node.parts, motive part) → motive node) (node : Node) :
    motive node :=
  step node fun part _ => induction_parts step part
termination_by node
decreasing_by exact sizeOf_lt_of_mem_parts ‹_›

/-- A node that no other one has the document of. -/
def IsTold (node : Node) : Prop := ∀ other : Node, node.document = other.document ↔ node = other

theorem documents_inj {nodes others : List Node} (hn : ∀ node ∈ nodes, node.IsTold) :
    documents nodes = documents others ↔ nodes = others := by
  induction nodes generalizing others with
  | nil => cases others <;> simp [documents]
  | cons node nodes ih =>
    obtain ⟨hnode, hn⟩ := List.forall_mem_cons.mp hn
    cases others with
    | nil => simp [documents]
    | cons other others => simp [documents, hnode other, ih hn]

theorem optionalDocument_inj {part other : Option Node} (hp : ∀ node ∈ part, node.IsTold) :
    optionalDocument part = optionalDocument other ↔ part = other := by
  cases part with
  | none => cases other <;> simp [optionalDocument, (document_ne_null _).symm]
  | some node =>
    cases other with
    | none => simp [optionalDocument, document_ne_null]
    | some other => simp [optionalDocument, hp node rfl other]

theorem optionalDocuments_inj {part other : Option (List Node)}
    (hp : ∀ nodes ∈ part, ∀ node ∈ nodes, node.IsTold) :
    optionalDocuments part = optionalDocuments other ↔ part = other := by
  cases part with
  | none => cases other <;> simp [optionalDocuments]
  | some nodes =>
    cases other with
    | none => simp [optionalDocuments]
    | some others => simp [optionalDocuments, documents_inj (hp nodes rfl)]

theorem isTold (node : Node) : node.IsTold := by
  induction node using induction_parts with
  | step node ih =>
    have hpart (part other : Node) (hp : part ∈ node.parts) :
        part.document = other.document ↔ part = other := ih part hp other
    have hlist (nodes others : List Node) (hn : ∀ part ∈ nodes, part ∈ node.parts) :
        documents nodes = documents others ↔ nodes = others :=
      documents_inj fun part hp => ih part (hn part hp)
    have hoption (part other : Option Node) (hn : ∀ node' ∈ part, node' ∈ node.parts) :
        optionalDocument part = optionalDocument other ↔ part = other :=
      optionalDocument_inj fun part hp => ih part (hn part hp)
    have hoptions (part other : Option (List Node))
        (hn : ∀ nodes ∈ part, ∀ node' ∈ nodes, node' ∈ node.parts) :
        optionalDocuments part = optionalDocuments other ↔ part = other :=
      optionalDocuments_inj fun nodes hm part hp => ih part (hn nodes hm part hp)
    clear ih
    intro other
    refine ⟨fun h => ?_, congrArg document⟩
    cases node <;> cases other <;> cases ctorIdx_eq_of_document h <;>
      simp_all [document, variety, tag, parts, Document.ofOperator_inj]

theorem document_inj (a b : Node) (h : a.document = b.document) : a = b := (a.isTold b).mp h

/-- Two trees that differ in both of their texts. -/
def RenderApart (a b : Node) : Prop :=
  a.document.pretty ≠ b.document.pretty ∧ a.document.compact ≠ b.document.compact

/-- A node but for one part of it that may be absent. -/
inductive Opening where
  | initOf (id : Node)
  | altOf (cond cons : Node)
  | forInitOf (cond step : Option Node) (body : Node)
  | forCondOf (init step : Option Node) (body : Node)
  | forStepOf (init cond : Option Node) (body : Node)
  | returned
  | superclassOf (id body : Node)

def Opening.fill (part : Option Node) : Opening → Node
  | initOf id => varDecl id part
  | altOf cond cons => ifStmt cond cons part
  | forInitOf cond step body => forStmt part cond step body
  | forCondOf init step body => forStmt init part step body
  | forStepOf init cond body => forStmt init cond part body
  | returned => returnStmt part
  | superclassOf id body => classDecl id part body

theorem Opening.fill_inj {part part' : Option Node} {opening : Opening}
    (h : opening.fill part = opening.fill part') : part = part' := by
  cases opening <;> simp_all [fill]

theorem compact_document_inj {a b : Node} : a.document.compact = b.document.compact ↔ a = b := by
  constructor
  · intro h
    exact document_inj a b (Document.compact_inj.mp h)
  · rintro rfl
    rfl

theorem pretty_document_inj {a b : Node} : a.document.pretty = b.document.pretty ↔ a = b := by
  constructor
  · intro h
    rw [← compact_document_inj, ← Document.withoutSpace_pretty, h, Document.withoutSpace_pretty]
  · rintro rfl
    rfl

theorem renderApart_of_ne {a b : Node} (h : a ≠ b) : RenderApart a b :=
  ⟨mt pretty_document_inj.mp h, mt compact_document_inj.mp h⟩

/-- Either text of a tree is the text of no other, and the texts differ in white space only. In
particular, a part that is absent is told from any that is not, be it an empty list. -/
theorem rendering_faithful :
    (∀ a b : Node, a.document.pretty = b.document.pretty ∨
      a.document.compact = b.document.compact ↔ a = b) ∧
    (∀ a : Node, Document.withoutSpace a.document.pretty = a.document.compact) ∧
    (∀ (opening : Opening) (part : Node),
      RenderApart (opening.fill none) (opening.fill (some part))) ∧
    ∀ (name body : Node) (params : List Node),
      RenderApart (funcDecl name none body) (funcDecl name (some params) body) := by
  refine ⟨?_, ?_, ?_, ?_⟩
  · intro a b
    rw [pretty_document_inj, compact_document_inj, or_self]
  · intro a
    exact Document.withoutSpace_pretty a.document
  · intro opening part
    apply renderApart_of_ne
    intro h
    cases Opening.fill_inj h
  · intro name body params
    apply renderApart_of_ne
    intro h
    cases h

end Node

end Frontend
