import Frontend.Proofs.Tree.Literal
import Frontend.Proofs.Tree.Shape

/-! # Printing

Trees are printed with every compound expression in parentheses, so that an
expression can stand wherever one is expected, and with a blank behind every word.
The words of a tree that is well formed are spelled as their kinds are.
-/

namespace Frontend

abbrev Word := TokenKind × String

namespace Word

def of (kind : TokenKind) : Word := (kind, kind.name)

def enclosed (words : List Word) : List Word := of .openParen :: words ++ [of .closeParen]

def AllSpelled (words : List Word) : Prop := ∀ word ∈ words, word.1.Spells word.2.toList

variable {kind : TokenKind} {text : String} {words words' : List Word}

@[simp] theorem allSpelled_nil : AllSpelled [] := List.forall_mem_nil _

@[simp] theorem allSpelled_append :
    AllSpelled (words ++ words') ↔ AllSpelled words ∧ AllSpelled words' :=
  List.forall_mem_append

@[simp] theorem allSpelled_cons :
    AllSpelled ((kind, text) :: words) ↔ kind.Spells text.toList ∧ AllSpelled words :=
  List.forall_mem_cons

@[simp] theorem allSpelled_of_cons (h : kind ∈ TokenKind.punctuation ++ TokenKind.keywords) :
    AllSpelled (of kind :: words) ↔ AllSpelled words := by
  have hk : kind.Spells kind.name.toList := by
    rcases List.mem_append.mp h with h | h
    · exact TokenKind.spells_of_mem_punctuation h
    · exact TokenKind.spells_of_mem_keywords h
  rw [of, allSpelled_cons]
  exact and_iff_right hk

@[simp] theorem allSpelled_enclosed : AllSpelled (enclosed words) ↔ AllSpelled words := by
  simp +decide [enclosed]

end Word

namespace Literal

def numeral (n : Int) : String := String.ofList (Nat.toDigits 10 n.toNat)

/-- The quotes that do not occur in a text, or others if both do. -/
def quote (value : String) : Char := if '"' ∈ value.toList then '\'' else '"'

def quoted (value : String) : String :=
  String.ofList (quote value :: value.toList ++ [quote value])

theorem isNumeral_numeral (n : ℤ) : IsNumeral (numeral n).toList := by
  rw [numeral, String.toList_ofList]
  exact isNumeral_toDigits _

theorem integer?_numeral {n : ℤ} (h : 0 ≤ n ∧ n < 2 ^ 63) : integer? (numeral n) = some n := by
  refine (integer?_of_isNumeral (isNumeral_numeral n)).mpr ⟨?_, h.2⟩
  rw [numeral, String.toList_ofList, decimal_toDigits, Int.toNat_of_nonneg h.1]

theorem isQuoted_quoted {value : String} (h : '"' ∉ value.toList ∨ '\'' ∉ value.toList) :
    IsQuoted (quoted value).toList := by
  refine ⟨quote value, value.toList, ?_, ?_, by simp [quoted]⟩ <;> unfold quote <;> split <;>
    simp_all

theorem unquoted_quoted (value : String) : unquoted (quoted value) = value := by
  rw [unquoted_of_isQuoted (by rw [quoted, String.toList_ofList]), String.ofList_toList]

end Literal

/-- A family of operators that are written by tokens of some kinds and read back by their
symbols. -/
class Operator.Written (α : Type) [Operator α] where
  kind : α → TokenKind
  spells (op : α) : (kind op).Spells (symbol op).toList
  ofSymbol?_symbol (op : α) : ofSymbol? (symbol op) = some op

theorem Operator.Written.symbol_inj {α : Type} [Operator α] [Operator.Written α] {op op' : α}
    (h : Operator.symbol op = Operator.symbol op') : op = op' := by
  have hop := ofSymbol?_symbol op
  rw [h, ofSymbol?_symbol op'] at hop
  exact (Option.some.inj hop).symm

instance : Operator.Written BinaryOp where
  kind
    | .add | .sub => .additiveOp
    | .mul | .div => .multiplicativeOp
    | .gt | .lt | .gte | .lte => .relationalOp
    | .eq | .neq => .equalityOp
  spells op := by cases op <;> exact TokenKind.spells_of_mem (by decide)
  ofSymbol?_symbol op := by cases op <;> rfl

instance : Operator.Written AssignOp where
  kind
    | .simple => .simpleAssign
    | .add | .sub | .mul | .div => .complexAssign
  spells op := by cases op <;> exact TokenKind.spells_of_mem (by decide)
  ofSymbol?_symbol op := by cases op <;> rfl

instance : Operator.Written LogicalOp where
  kind
    | .and => .andOp
    | .or => .orOp
  spells op := by cases op <;> exact TokenKind.spells_of_mem (by decide)
  ofSymbol?_symbol op := by cases op <;> rfl

instance : Operator.Written UnaryOp where
  kind
    | .not => .notOp
    | .neg => .additiveOp
  spells op := by cases op <;> exact TokenKind.spells_of_mem (by decide)
  ofSymbol?_symbol op := by cases op <;> rfl

namespace Word

def ofOperator {α : Type} [Operator α] [Operator.Written α] (op : α) : Word :=
  (Operator.Written.kind op, Operator.symbol op)

@[simp] theorem allSpelled_ofOperator_cons {α : Type} [Operator α] [Operator.Written α] {op : α}
    {words : List Word} : AllSpelled (ofOperator op :: words) ↔ AllSpelled words := by
  rw [ofOperator, allSpelled_cons]
  exact and_iff_right (Operator.Written.spells op)

end Word

namespace Node

open Word

/-- The semicolon behind what a loop begins with. Declarations have theirs already. -/
def closeStart : Node → List Word
  | varStmt _ => []
  | _ => [of .semicolon]

mutual

def words : Node → List Word
  | program body => wordsOfList body
  | stringLit value => [(.string, Literal.quoted value)]
  | numericLit value => [(.number, Literal.numeral value)]
  | boolLit value => [of (if value then .trueWord else .falseWord)]
  | nullLit => [of .nullWord]
  | exprStmt expr => words expr ++ [of .semicolon]
  | blockStmt body => of .openCurly :: wordsOfList body ++ [of .closeCurly]
  | emptyStmt => [of .semicolon]
  | varStmt decls => of .letWord :: wordsWithCommas decls ++ [of .semicolon]
  | varDecl id init => words id ++ wordsBehind [(.simpleAssign, "=")] init
  | ifStmt cond cons alt =>
    of .ifWord :: enclosed (words cond) ++ words cons ++ wordsBehind [of .elseWord] alt
  | whileStmt cond body => of .whileWord :: enclosed (words cond) ++ words body
  | doWhileStmt cond body =>
    of .doWord :: words body ++ of .whileWord :: enclosed (words cond) ++ [of .semicolon]
  | forStmt init cond step body =>
    of .forWord :: enclosed (wordsOfStart init ++ wordsBehind [] cond ++ of .semicolon ::
      wordsBehind [] step) ++ words body
  | funcDecl name params body =>
    of .defWord :: words name ++ enclosed (wordsOfParameters params) ++ words body
  | returnStmt arg => of .returnWord :: wordsBehind [] arg ++ [of .semicolon]
  | classDecl id superclass body =>
    of .classWord :: words id ++ wordsBehind [of .extendsWord] superclass ++ words body
  | binaryExpr op left right =>
    enclosed (words left ++ ofOperator op :: words right)
  | logicalExpr op left right =>
    enclosed (words left ++ ofOperator op :: words right)
  | unaryExpr op arg => enclosed (ofOperator op :: words arg)
  | assignExpr op left right =>
    enclosed (words left ++ ofOperator op :: words right)
  | seqExpr body => enclosed (wordsWithCommas body)
  | thisExpr => [of .thisWord]
  | newExpr callee args =>
    enclosed (of .newWord :: words callee ++ enclosed (wordsWithCommas args))
  | callExpr callee args => enclosed (words callee ++ enclosed (wordsWithCommas args))
  | memberExpr false obj prop => enclosed (words obj ++ of .dot :: words prop)
  | memberExpr true obj prop =>
    enclosed (words obj ++ of .openBracket :: words prop ++ [of .closeBracket])
  | identifier name => [(.identifier, name)]
  | superCall => [of .superWord]

def wordsOfList : List Node → List Word
  | [] => []
  | node :: nodes => words node ++ wordsOfList nodes

def wordsWithCommas : List Node → List Word
  | [] => []
  | node :: nodes => words node ++ wordsBehindComma nodes

def wordsBehindComma : List Node → List Word
  | [] => []
  | node :: nodes => of .comma :: words node ++ wordsBehindComma nodes

def wordsBehind (introduction : List Word) : Option Node → List Word
  | none => []
  | some node => introduction ++ words node

def wordsOfStart : Option Node → List Word
  | none => [of .semicolon]
  | some node => words node ++ node.closeStart

def wordsOfParameters : Option (List Node) → List Word
  | none => []
  | some nodes => wordsWithCommas nodes

end

theorem allSpelled_wordsOfList {nodes : List Node} (h : ∀ node ∈ nodes, AllSpelled node.words) :
    AllSpelled (wordsOfList nodes) := by
  induction nodes with
  | nil => exact allSpelled_nil
  | cons node nodes ih =>
    obtain ⟨hn, h⟩ := List.forall_mem_cons.mp h
    exact allSpelled_append.mpr ⟨hn, ih h⟩

theorem allSpelled_wordsBehindComma {nodes : List Node}
    (h : ∀ node ∈ nodes, AllSpelled node.words) : AllSpelled (wordsBehindComma nodes) := by
  induction nodes with
  | nil => exact allSpelled_nil
  | cons node nodes ih =>
    obtain ⟨hn, h⟩ := List.forall_mem_cons.mp h
    simp +decide [wordsBehindComma, hn, ih h]

theorem allSpelled_wordsWithCommas {nodes : List Node}
    (h : ∀ node ∈ nodes, AllSpelled node.words) : AllSpelled (wordsWithCommas nodes) := by
  cases nodes with
  | nil => exact allSpelled_nil
  | cons node nodes =>
    obtain ⟨hn, h⟩ := List.forall_mem_cons.mp h
    exact allSpelled_append.mpr ⟨hn, allSpelled_wordsBehindComma h⟩

theorem allSpelled_wordsBehind {introduction : List Word} (hi : AllSpelled introduction)
    {node? : Option Node} (h : ∀ node ∈ node?, AllSpelled node.words) :
    AllSpelled (wordsBehind introduction node?) := by
  cases node? with
  | none => exact allSpelled_nil
  | some node => exact allSpelled_append.mpr ⟨hi, h node rfl⟩

theorem allSpelled_wordsOfStart {node? : Option Node} (h : ∀ node ∈ node?, AllSpelled node.words) :
    AllSpelled (wordsOfStart node?) := by
  cases node? with
  | none => simp +decide [wordsOfStart]
  | some node =>
    have hc : AllSpelled node.closeStart := by
      unfold closeStart
      split <;> simp +decide
    exact allSpelled_append.mpr ⟨h node rfl, hc⟩

theorem allSpelled_wordsOfParameters {params : Option (List Node)}
    (h : ∀ list ∈ params, ∀ param ∈ list, AllSpelled param.words) :
    AllSpelled (wordsOfParameters params) := by
  cases params with
  | none => exact allSpelled_nil
  | some list => exact allSpelled_wordsWithCommas (h list rfl)

/-- The words of a tree whose leaves can be written are spelled as their kinds are. -/
theorem Fits.allSpelled {slot : Slot} {node : Node} (h : Fits .written slot node) :
    AllSpelled node.words := by
  induction h with
  | statement_of_block _ ih | statement_of_variables _ ih | expression_of_name _ ih => exact ih
  | identifier h => exact allSpelled_cons.mpr ⟨h, allSpelled_nil⟩
  | numericLit => exact allSpelled_cons.mpr ⟨Literal.isNumeral_numeral _, allSpelled_nil⟩
  | stringLit h => exact allSpelled_cons.mpr ⟨Literal.isQuoted_quoted h, allSpelled_nil⟩
  | boolLit value => cases value <;> simp +decide [words]
  | nullLit | thisExpr | emptyStmt => simp +decide [words]
  | binaryExpr _ _ ih ih' | logicalExpr _ _ ih ih' | assignExpr _ _ _ ih ih' =>
    simp [words, ih, ih']
  | unaryExpr _ ih => simp [words, ih]
  | seqExpr _ _ ih => simp [words, allSpelled_wordsWithCommas ih]
  | newExpr _ _ ih iha | callExpr _ _ ih iha =>
    simp +decide [words, ih, allSpelled_wordsWithCommas iha]
  | superCall _ iha => simp +decide [words, allSpelled_wordsWithCommas iha]
  | named _ _ ih ih' | computed _ _ ih ih' => simp +decide [words, ih, ih']
  | varDecl _ _ ih ihe =>
    have hk : TokenKind.simpleAssign.Spells "=".toList := TokenKind.spells_of_mem (by decide)
    have hs : AllSpelled [(.simpleAssign, "=")] := by simpa using hk
    simp [words, ih, allSpelled_wordsBehind hs ihe]
  | varStmt _ _ ih => simp +decide [words, allSpelled_wordsWithCommas ih]
  | exprStmt _ ih => simp +decide [words, ih]
  | blockStmt _ ih => simp +decide [words, allSpelled_wordsOfList ih]
  | ifStmt _ _ _ _ ih ih' iha =>
    have he : AllSpelled [of .elseWord] := by simp +decide
    simp +decide [words, ih, ih', allSpelled_wordsBehind he iha]
  | whileStmt _ _ ih ih' | doWhileStmt _ _ ih ih' => simp +decide [words, ih, ih']
  | forStmt _ _ _ _ _ ihi ihc ihs ih =>
    simp +decide [words, allSpelled_wordsOfStart ihi, allSpelled_wordsBehind allSpelled_nil ihc,
      allSpelled_wordsBehind allSpelled_nil ihs, ih]
  | funcDecl _ _ _ _ ih iha ihb => simp +decide [words, ih, allSpelled_wordsOfParameters iha, ihb]
  | returnStmt _ ih => simp +decide [words, allSpelled_wordsBehind allSpelled_nil ih]
  | classDecl _ _ _ ih ihs ihb =>
    have he : AllSpelled [of .extendsWord] := by simp +decide
    simp +decide [words, ih, ihb, allSpelled_wordsBehind he ihs]

def print (tree : Node) : String :=
  String.ofList (tree.words.flatMap fun word => word.2.toList ++ [' '])

end Node

end Frontend
