import Frontend.Proofs.Grammar.Accepted
import Frontend.Proofs.Grammar.Returning
import Frontend.Proofs.Tree.Literal
import Frontend.Proofs.Tree.Shape
import Mathlib.Data.Option.Basic

/-! # Derived trees fit their places

What a production derives may stand in one place of a tree. So the tree of every
source is that of a program, whatever its tokens are spelled like, and the leaves
of the tree of a text can be written.
-/

namespace Frontend

open Node

/-- Whether the leaf that a token stands for is as it has to be. -/
structure Node.Leaves.Admits (L : Leaves) (t : Token) : Prop where
  name : t.kind = .identifier → L.name t.value
  number : t.kind = .number → ∀ n ∈ Literal.integer? t.value, L.number n
  text : t.kind = .string → L.text (Literal.unquoted t.value)

theorem Node.Leaves.any_admits (t : Token) : Leaves.any.Admits t :=
  ⟨fun _ => trivial, fun _ _ _ => trivial, fun _ => trivial⟩

theorem Node.Leaves.written_admits {t : Token} (h : t.kind.Spells t.value.toList) :
    Leaves.written.Admits t where
  name hk := by rwa [hk] at h
  number hk n hn := by
    rw [hk] at h
    obtain ⟨rfl, hlt⟩ := (Literal.integer?_of_isNumeral h).mp hn
    exact ⟨Int.natCast_nonneg _, hlt⟩
  text hk := by
    rw [hk] at h
    obtain ⟨q, body, hq, hb, he⟩ := h
    rw [Literal.unquoted_of_isQuoted he]
    rcases hq with rfl | rfl
    · exact .inl (by simpa using hb)
    · exact .inr (by simpa using hb)

namespace Production

def slot : Production → Slot
  | block => .block
  | variableList => .variables
  | variableDeclaration => .declaration
  | identifier => .name
  | statement | expressionStatement | emptyStatement | variableStatement | conditional | iteration
  | whileLoop | doWhileLoop | forLoop | functionDeclaration | returnStatement
  | classDeclaration => .statement
  | sequence | assignment | disjunction | conjunction | equality | relation | sum | product
  | prefixed | leftHandSide | member | primary | grouping | creation | literal => .expression

variable {L : Leaves} {p q : Production} {ts : List Token} {tree : Node}

theorem fits_of_alternative (hq : q ∈ p.alternatives) (h : Fits L q.slot tree) :
    Fits L p.slot tree := by
  have hs : ∀ q ∈ p.alternatives, q.slot = p.slot ∨ (q.slot = .block ∧ p.slot = .statement) ∨
      (q.slot = .name ∧ p.slot = .expression) := by
    cases p <;> decide
  rcases hs q hq with hs | ⟨hs, hp⟩ | ⟨hs, hp⟩
  · exact hs ▸ h
  · rw [hs] at h
    rw [hp]
    exact .statement_of_block h
  · rw [hs] at h
    rw [hp]
    exact .expression_of_name h

theorem fits_parameters {params : List Node} (h : ∀ param ∈ params, Fits L .name param) :
    Node.parameters params ≠ some [] ∧
      ∀ list ∈ Node.parameters params, ∀ param ∈ list, Fits L .name param := by
  unfold Node.parameters
  split
  · simp
  · rename_i hne
    refine ⟨by simpa using hne, ?_⟩
    rintro _ ⟨⟩
    exact h

end Production

namespace Segment

variable {L : Leaves} {slot : Slot} {items : List Segment} {ts : List Token}

/-- Whether the tree of a segment fits its place if the leaves of its tokens are admitted. -/
def Fits (L : Leaves) (slot : Slot) (item : Segment) : Prop :=
  (∀ t ∈ item.1, L.Admits t) → Node.Fits L slot item.2

theorem fits_of_flatMap (hi : ∀ item ∈ items, item.Fits L slot)
    (hL : ∀ t ∈ items.flatMap Prod.fst, L.Admits t) :
    ∀ node ∈ items.map Prod.snd, Node.Fits L slot node :=
  List.forall_mem_map.mpr fun item hm => hi item hm fun t ht =>
    hL t (List.mem_flatMap_of_mem hm ht)

theorem fits_of_tokens {segment : Option Segment} (hi : ∀ item ∈ segment, item.Fits L slot)
    (hL : ∀ t ∈ tokens segment, L.Admits t) :
    ∀ node ∈ segment.map Prod.snd, Node.Fits L slot node :=
  Option.forall_mem_map.mpr fun item hm => hi item hm fun t ht => hL t (subset_tokens hm ht)

end Segment

variable {L : Leaves} {slot : Slot} {items : List Segment} {ts : List Token}

theorem CommaSeparated.fits (hc : CommaSeparated items ts) (hi : ∀ item ∈ items, item.Fits L slot)
    (hL : ∀ t ∈ ts, L.Admits t) : ∀ node ∈ items.map Prod.snd, Fits L slot node :=
  List.forall_mem_map.mpr fun item hm => hi item hm fun t ht => hL t (hc.subset hm ht)

theorem Parenthesized.fits (hp : Parenthesized items ts) (hi : ∀ item ∈ items, item.Fits L slot)
    (hL : ∀ t ∈ ts, L.Admits t) : ∀ node ∈ items.map Prod.snd, Fits L slot node :=
  List.forall_mem_map.mpr fun item hm => hi item hm fun t ht => hL t (hp.subset hm ht)

theorem CommaSeparated.fits_ofSequence (hc : CommaSeparated items ts)
    (hi : ∀ item ∈ items, item.Fits L .expression) (hL : ∀ t ∈ ts, L.Admits t) :
    Fits L .expression (.ofSequence (items.map Prod.snd)) := by
  have hf := hc.fits hi hL
  rcases items with _ | ⟨item, _ | ⟨item', items⟩⟩
  · cases hc
  · exact hf item.2 List.mem_cons_self
  · exact .seqExpr (by simp) hf

theorem CommaSeparated.ne_nil (hc : CommaSeparated items ts) : items ≠ [] := by
  cases hc <;> simp

namespace Production

theorem Derives.fits {p : Production} {tree : Node} (h : p.Derives ts tree)
    (hL : ∀ t ∈ ts, L.Admits t) : Fits L p.slot tree := by
  induction h with
    (try simp only [List.append_assoc, List.cons_append, List.forall_mem_cons,
      List.forall_mem_append] at hL)
  | alternative hq _ ih => exact fits_of_alternative hq (ih hL)
  | identifier hk => exact .identifier (hL.1.name hk)
  | number hk hn => exact .numericLit (hL.1.number hk _ hn)
  | string hk => exact .stringLit (hL.1.text hk)
  | @constant t _ hk =>
    cases ht : t.kind <;> rw [ht] at hk <;> cases hk
    · exact .boolLit true
    · exact .boolLit false
    · exact .nullLit
  | this => exact .thisExpr
  | grouping _ _ _ ih => exact ih hL.2.1
  | creation _ _ _ hp ih iha => exact .newExpr (ih hL.2.1) (hp.fits iha hL.2.2)
  | named _ _ _ ih ihn => exact .named (ih hL.1) (ihn hL.2.2)
  | computed _ _ _ _ ih ihi => exact .computed (ih hL.1) (ihi hL.2.2.1)
  | superCall _ _ hp iha => exact .superCall (hp.fits iha hL.2)
  | call _ _ _ hp ih iha => exact .callExpr (ih hL.1) (hp.fits iha hL.2)
  | unary _ _ _ ih => exact .unaryExpr (ih hL.2)
  | binary hl _ _ _ _ ih ihr => cases hl <;> exact .binaryExpr (ih hL.1) (ihr hL.2.2)
  | logical hl _ _ _ _ ih ihr => cases hl <;> exact .logicalExpr (ih hL.1) (ihr hL.2.2)
  | assign _ ha _ _ _ ih ihr => exact .assignExpr (ih hL.1) ha (ihr hL.2.2)
  | sequence _ hc ih => exact hc.fits_ofSequence ih hL
  | expressionStatement _ _ ih => exact .exprStmt (ih hL.1)
  | emptyStatement => exact .emptyStmt
  | block _ _ _ ih => exact .blockStmt (Segment.fits_of_flatMap ih hL.2.1)
  | variableStatement _ _ ih => exact .statement_of_variables (ih hL.1)
  | variableList _ _ hc ih => exact .varStmt (by simpa using hc.ne_nil) (hc.fits ih hL.2)
  | declared _ ih => exact .varDecl (ih hL) nofun
  | initialized _ _ _ ih ihe =>
    refine .varDecl (ih hL.1) ?_
    rintro _ ⟨⟩
    exact ihe hL.2.2
  | conditional _ _ _ ihc ihs => exact .ifStmt (ihc hL.2.1) (ihs hL.2.2) (absurd rfl) nofun
  | conditionalElse _ _ _ ho _ _ ihc ihs iha =>
    refine .ifStmt (ihc hL.2.1) (ihs hL.2.2.1) (fun _ => ho) ?_
    rintro _ ⟨⟩
    exact iha hL.2.2.2.2
  | whileLoop _ _ _ ihc ihb => exact .whileStmt (ihc hL.2.1) (ihb hL.2.2)
  | doWhileLoop _ _ _ _ _ ihb ihc => exact .doWhileStmt (ihc hL.2.2.2.1) (ihb hL.2.1)
  | @forLoop p _ _ _ _ _ init cond step _ _ _ _ hp _ _ _ _ _ _ _ ihi ihc ihs ihb =>
    obtain ⟨-, -, hinit, -, hcond, -, hstep, -, hbody⟩ := hL
    have hs : p.slot = .variables ∨ p.slot = .expression := by
      rcases hp with rfl | rfl
      · exact .inl rfl
      · exact .inr rfl
    exact .forStmt hs (Segment.fits_of_tokens ihi hinit) (Segment.fits_of_tokens ihc hcond)
      (Segment.fits_of_tokens ihs hstep) (ihb hbody)
  | functionDeclaration _ _ _ hp _ ih ihi ihb =>
    obtain ⟨hne, hparams⟩ := fits_parameters (hp.fits ihi hL.2.2.1)
    exact .funcDecl (ih hL.2.1) hne hparams (ihb hL.2.2.2)
  | returnStatement _ _ _ ih => exact .returnStmt (Segment.fits_of_tokens ih hL.2.1)
  | classDeclaration _ _ _ ih ihb => exact .classDecl (ih hL.2.1) nofun (ihb hL.2.2)
  | subclassDeclaration _ _ _ _ _ ih ihs ihb =>
    refine .classDecl (ih hL.2.1) ?_ (ihb hL.2.2.2.2)
    rintro _ ⟨⟩
    exact ihs hL.2.2.2.1

end Production

theorem DerivesProgram.isProgram {L : Leaves} {ts : List Token} {tree : Node}
    (h : DerivesProgram ts tree) (hL : ∀ t ∈ ts, L.Admits t) : tree.IsProgram L := by
  cases h with
  | @intro items hne hi =>
    exact ⟨_, rfl, by simpa using hne, Segment.fits_of_flatMap (fun i hm => (hi i hm).fits) hL⟩

/-- Every tree that is parsed is that of a program. If it is parsed from a text, its leaves can be
written as well. -/
theorem isProgram_of_parse :
    (∀ (σ : Type) [TokenStream σ] (source rest : σ) (tree : Node),
      Parser.Returns source (.ok tree) rest → tree.IsProgram .any) ∧
    (∀ (σ : Type) [TokenSource σ] (source : σ) (tree : Node),
      parseTokens source = .ok tree → tree.IsProgram .any) ∧
    ∀ (text : String) (tree : Node), parse text = .ok tree → tree.IsProgram .written := by
  have hreturns (σ : Type) [TokenStream σ] (source rest : σ) (tree : Node)
      (h : Parser.Returns source (.ok tree) rest) : tree.IsProgram .any := by
    obtain ⟨n, h⟩ := h
    obtain ⟨m, -, h⟩ := Parser.parseMetered_eq_some.mp h
    obtain ⟨ts, hd⟩ := derives_of_parseTokens_eq_ok (congrArg Prod.fst h)
    exact hd.isProgram fun t _ => Leaves.any_admits t
  refine ⟨hreturns, fun σ _ source tree h => ?_, ?_⟩
  · exact hreturns σ source _ tree (Parser.returns_iff.mpr (Prod.ext h rfl))
  · intro text tree h
    obtain ⟨ts, -, -, -, hd, hts⟩ := exists_tokens_of_parse h
    exact hd.isProgram fun t ht => Leaves.written_admits (hts t ht)

/-- A stream may hold a name that no text spells, and go on for ever behind the end of input. Its
tree is that of a program all the same. -/
theorem isProgram_of_unspelled :
    let tokens := [(.ifWord, ""), (.openParen, ""), (.identifier, "1"), (.closeParen, ""),
      (.semicolon, ""), (.eof, "")].map fun (k, v) => (⟨k, v, default⟩ : Token)
    let source : Stream' (Except Error Token) := fun n => .ok (tokens.getD (n % 6) default)
    let tree : Node := .program [.ifStmt (.identifier "1") .emptyStmt none]
    let empty : Node := .program [.emptyStmt]
    let call : Node :=
      .program [.exprStmt (.callExpr .superCall [.stringLit "it's", .numericLit 7])]
    (Parser.Returns source (.ok tree) (source.drop 6) ∧ tree.IsProgram .any) ∧
      (parseTokens (TokenList.ofTokens (tokens.drop 4)) = .ok empty ∧ empty.IsProgram .any) ∧
      parse "super(\"it's\", 007);" = .ok call ∧ call.IsProgram .written := by
  intro tokens source tree empty call
  have hs : Parser.Returns source (.ok tree) (source.drop 6) := ⟨7, rfl⟩
  have he : parseTokens (TokenList.ofTokens (tokens.drop 4)) = .ok empty := by decide +kernel
  have hc : parse "super(\"it's\", 007);" = .ok call := by decide +kernel
  exact ⟨⟨hs, isProgram_of_parse.1 _ source _ tree hs⟩, ⟨he, isProgram_of_parse.2.1 _ _ _ he⟩, hc,
    isProgram_of_parse.2.2 _ call hc⟩

end Frontend
