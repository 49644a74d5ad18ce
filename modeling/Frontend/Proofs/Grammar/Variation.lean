import Frontend.Proofs.Grammar.Completeness

/-! # Phrases that vary

A whole expression stands in front of the semicolon of a statement, behind `return`, in the
parentheses of a condition and in the brackets of an index. What stands around it does not depend
on how it is written. If one expression is written in several ways, then so are the phrases and
programs that contain it, and they keep their trees.
-/

namespace Frontend

variable {ι : Type}

abbrev Variant (ι : Type) := (ι → List Token) × Node

namespace Variant

def segment (variant : Variant ι) (i : ι) : Segment := (variant.1 i, variant.2)

theorem map_snd_segment (items : List (Variant ι)) (i : ι) :
    (items.map (segment · i)).map Prod.snd = items.map Prod.snd := by
  simp [segment]

theorem flatMap_fst_segment (items : List (Variant ι)) (i : ι) :
    (items.map (segment · i)).flatMap Prod.fst = items.flatMap (·.1 i) := by
  simp [segment, List.flatMap_map]

theorem option_map_snd_segment (item : Option (Variant ι)) (i : ι) :
    (item.map (segment · i)).map Prod.snd = item.map Prod.snd := by
  cases item <;> rfl

theorem derives_segments {p : Production} {items : List (Variant ι)} {i : ι}
    (h : ∀ item ∈ items, p.Derives (item.1 i) item.2) :
    ∀ item ∈ items.map (segment · i), p.Derives item.1 item.2 := List.forall_mem_map.mpr h

theorem derives_option_segment {p : Production} {item : Option (Variant ι)} {i : ι}
    (h : ∀ v ∈ item, p.Derives (v.1 i) v.2) :
    ∀ v ∈ item.map (segment · i), p.Derives v.1 v.2 := by
  cases item <;> simp_all [segment]

end Variant

open Variant

namespace Production

/-- The phrases of a production for one tree that vary where a given tree stands for a whole
expression: there each of them has one of the fillings. Apart from that they are derived alike. -/
inductive Varies (fill : ι → List Token) (filled : Node) :
    Production → (ι → List Token) → Node → Prop where

  | here : Varies fill filled sequence fill filled

  | fixed {p : Production} {ts : List Token} {tree : Node} : Derives p ts tree →
      Varies fill filled p (fun _ => ts) tree

  | alternative {p q : Production} {ts : ι → List Token} {tree : Node} : q ∈ p.alternatives →
      Varies fill filled q ts tree → Varies fill filled p ts tree

  | grouping {opening closing : Token} {ts : ι → List Token} {tree : Node} :
      opening.kind = .openParen → Varies fill filled sequence ts tree →
      closing.kind = .closeParen →
      Varies fill filled grouping (fun i => opening :: ts i ++ [closing]) tree

  | creation {word : Token} {ts us : ι → List Token} {callee : Node} {args : List (Variant ι)} :
      word.kind = .newWord → Varies fill filled member ts callee →
      (∀ arg ∈ args, Varies fill filled assignment arg.1 arg.2) →
      (∀ i, Parenthesized (args.map (·.segment i)) (us i)) →
      Varies fill filled creation (fun i => word :: ts i ++ us i)
        (.newExpr callee (args.map Prod.snd))

  | named {dot : Token} {ts : ι → List Token} {us : List Token} {object name : Node} :
      Varies fill filled member ts object → dot.kind = .dot → Derives identifier us name →
      Varies fill filled member (fun i => ts i ++ dot :: us) (.memberExpr false object name)

  | computed {opening closing : Token} {ts us : ι → List Token} {object index : Node} :
      Varies fill filled member ts object → opening.kind = .openBracket →
      Varies fill filled sequence us index → closing.kind = .closeBracket →
      Varies fill filled member (fun i => ts i ++ opening :: us i ++ [closing])
        (.memberExpr true object index)

  | superCall {word : Token} {ts : ι → List Token} {args : List (Variant ι)} :
      word.kind = .superWord → (∀ arg ∈ args, Varies fill filled assignment arg.1 arg.2) →
      (∀ i, Parenthesized (args.map (·.segment i)) (ts i)) →
      Varies fill filled leftHandSide (fun i => word :: ts i)
        (.callExpr .superCall (args.map Prod.snd))

  | call {ts us : ι → List Token} {callee : Node} {args : List (Variant ι)} :
      Varies fill filled leftHandSide ts callee → (∃ i, ¬ IsBareCreation (ts i) callee) →
      (∀ arg ∈ args, Varies fill filled assignment arg.1 arg.2) →
      (∀ i, Parenthesized (args.map (·.segment i)) (us i)) →
      Varies fill filled leftHandSide (fun i => ts i ++ us i)
        (.callExpr callee (args.map Prod.snd))

  | unary {symbol : Token} {op : UnaryOp} {ts : ι → List Token} {arg : Node} :
      symbol.kind.isUnaryOp = true → Operator.ofSymbol? symbol.value = some op →
      Varies fill filled prefixed ts arg →
      Varies fill filled prefixed (fun i => symbol :: ts i) (.unaryExpr op arg)

  | binary {p q : Production} {k : TokenKind} {symbol : Token} {op : BinaryOp}
      {ts us : ι → List Token} {left right : Node} : BinaryLevel p k q →
      Varies fill filled p ts left → symbol.kind = k →
      Operator.ofSymbol? symbol.value = some op → Varies fill filled q us right →
      Varies fill filled p (fun i => ts i ++ symbol :: us i) (.binaryExpr op left right)

  | logical {p q : Production} {k : TokenKind} {symbol : Token} {op : LogicalOp}
      {ts us : ι → List Token} {left right : Node} : LogicalLevel p k q →
      Varies fill filled p ts left → symbol.kind = k →
      Operator.ofSymbol? symbol.value = some op → Varies fill filled q us right →
      Varies fill filled p (fun i => ts i ++ symbol :: us i) (.logicalExpr op left right)

  | assign {symbol : Token} {op : AssignOp} {ts us : ι → List Token} {left right : Node} :
      Varies fill filled disjunction ts left → left.isAssignable = true →
      symbol.kind.isAssignOp = true → Operator.ofSymbol? symbol.value = some op →
      Varies fill filled assignment us right →
      Varies fill filled assignment (fun i => ts i ++ symbol :: us i)
        (.assignExpr op left right)

  | sequence {ts : ι → List Token} {items : List (Variant ι)} :
      (∀ item ∈ items, Varies fill filled assignment item.1 item.2) →
      (∀ i, CommaSeparated (items.map (·.segment i)) (ts i)) →
      Varies fill filled sequence ts (.ofSequence (items.map Prod.snd))

  | expressionStatement {semicolon : Token} {ts : ι → List Token} {tree : Node} :
      Varies fill filled sequence ts tree → semicolon.kind = .semicolon →
      Varies fill filled expressionStatement (fun i => ts i ++ [semicolon]) (.exprStmt tree)

  | block {opening closing : Token} {items : List (Variant ι)} : opening.kind = .openCurly →
      (∀ item ∈ items, Varies fill filled statement item.1 item.2) →
      closing.kind = .closeCurly →
      Varies fill filled block (fun i => opening :: items.flatMap (·.1 i) ++ [closing])
        (.blockStmt (items.map Prod.snd))

  | variableStatement {semicolon : Token} {ts : ι → List Token} {tree : Node} :
      Varies fill filled variableList ts tree → semicolon.kind = .semicolon →
      Varies fill filled variableStatement (fun i => ts i ++ [semicolon]) tree

  | variableList {word : Token} {ts : ι → List Token} {items : List (Variant ι)} :
      word.kind = .letWord →
      (∀ item ∈ items, Varies fill filled variableDeclaration item.1 item.2) →
      (∀ i, CommaSeparated (items.map (·.segment i)) (ts i)) →
      Varies fill filled variableList (fun i => word :: ts i) (.varStmt (items.map Prod.snd))

  | initialized {symbol : Token} {ts : List Token} {us : ι → List Token} {id init : Node} :
      Derives identifier ts id → symbol.kind = .simpleAssign →
      Varies fill filled assignment us init →
      Varies fill filled variableDeclaration (fun i => ts ++ symbol :: us i)
        (.varDecl id (some init))

  | conditional {word : Token} {ts us : ι → List Token} {cond cons : Node} :
      word.kind = .ifWord → Varies fill filled grouping ts cond →
      Varies fill filled statement us cons →
      Varies fill filled conditional (fun i => word :: ts i ++ us i) (.ifStmt cond cons none)

  | conditionalElse {word word' : Token} {ts us vs : ι → List Token} {cond cons alt : Node} :
      word.kind = .ifWord → Varies fill filled grouping ts cond →
      Varies fill filled statement us cons → cons.endsOpen = false → word'.kind = .elseWord →
      Varies fill filled statement vs alt →
      Varies fill filled conditional (fun i => word :: ts i ++ us i ++ word' :: vs i)
        (.ifStmt cond cons (some alt))

  | whileLoop {word : Token} {ts us : ι → List Token} {cond body : Node} :
      word.kind = .whileWord → Varies fill filled grouping ts cond →
      Varies fill filled statement us body →
      Varies fill filled whileLoop (fun i => word :: ts i ++ us i) (.whileStmt cond body)

  | doWhileLoop {word word' semicolon : Token} {ts us : ι → List Token} {cond body : Node} :
      word.kind = .doWord → Varies fill filled statement us body → word'.kind = .whileWord →
      Varies fill filled grouping ts cond → semicolon.kind = .semicolon →
      Varies fill filled doWhileLoop (fun i => word :: us i ++ word' :: ts i ++ [semicolon])
        (.doWhileStmt cond body)

  | forLoop {p : Production} {word opening semicolon semicolon' closing : Token}
      {init cond step : Option (Variant ι)} {ts : ι → List Token} {body : Node} :
      word.kind = .forWord → opening.kind = .openParen → p = .variableList ∨ p = .sequence →
      (∀ item ∈ init, Varies fill filled p item.1 item.2) → semicolon.kind = .semicolon →
      (∀ item ∈ cond, Varies fill filled sequence item.1 item.2) →
      semicolon'.kind = .semicolon →
      (∀ item ∈ step, Varies fill filled sequence item.1 item.2) →
      closing.kind = .closeParen → Varies fill filled statement ts body →
      Varies fill filled forLoop
        (fun i => word :: opening :: Segment.tokens (init.map (·.segment i)) ++
          semicolon :: Segment.tokens (cond.map (·.segment i)) ++
            semicolon' :: Segment.tokens (step.map (·.segment i)) ++ closing :: ts i)
        (.forStmt (init.map Prod.snd) (cond.map Prod.snd) (step.map Prod.snd) body)

  | functionDeclaration {word : Token} {params : List Segment} {ts us : List Token}
      {vs : ι → List Token} {name body : Node} : word.kind = .defWord →
      Derives identifier ts name → (∀ param ∈ params, Derives identifier param.1 param.2) →
      Parenthesized params us → Varies fill filled block vs body →
      Varies fill filled functionDeclaration (fun i => word :: ts ++ us ++ vs i)
        (.funcDecl name (Node.parameters (params.map Prod.snd)) body)

  | returnStatement {word semicolon : Token} {arg : Option (Variant ι)} :
      word.kind = .returnWord → (∀ item ∈ arg, Varies fill filled sequence item.1 item.2) →
      semicolon.kind = .semicolon →
      Varies fill filled returnStatement
        (fun i => word :: Segment.tokens (arg.map (·.segment i)) ++ [semicolon])
        (.returnStmt (arg.map Prod.snd))

  | classDeclaration {word : Token} {ts : List Token} {us : ι → List Token} {id body : Node} :
      word.kind = .classWord → Derives identifier ts id → Varies fill filled block us body →
      Varies fill filled classDeclaration (fun i => word :: ts ++ us i)
        (.classDecl id none body)

  | subclassDeclaration {word word' : Token} {ts us : List Token} {vs : ι → List Token}
      {id superclass body : Node} : word.kind = .classWord → Derives identifier ts id →
      word'.kind = .extendsWord → Derives identifier us superclass →
      Varies fill filled block vs body →
      Varies fill filled classDeclaration (fun i => word :: ts ++ word' :: us ++ vs i)
        (.classDecl id (some superclass) body)

variable {fill : ι → List Token} {filled : Node} {p q : Production} {ts : ι → List Token}
  {tree : Node}

theorem rank_lt_of_alternative (h : q ∈ p.alternatives) : q.rank < p.rank := by
  revert h
  cases p <;> cases q <;> decide

theorem isBareCreation_iff_entry (ts : List Token) (tree : Node) :
    IsBareCreation ts tree ↔ entry ts .eof = .newWord ∧ tree.isNewExpr = true := by
  cases ts <;> simp [IsBareCreation]

theorem Varies.entry_eq (h : p.Varies fill filled ts tree) (hp : p.rank < Production.sequence.rank)
    (i j : ι) (k : TokenKind) : entry (ts i) k = entry (ts j) k := by
  induction h generalizing k with
  | here | sequence | expressionStatement => exact absurd hp (by decide)
  | fixed => rfl
  | alternative hq _ ih => exact ih ((rank_lt_of_alternative hq).trans hp) k
  | named _ _ _ ih | assign _ _ _ _ _ ih | variableStatement _ _ ih =>
    simp only [entry_append]
    exact ih (by decide) _
  | computed _ _ _ _ ih =>
    simp only [List.append_assoc, entry_append, List.cons_append]
    exact ih (by decide) _
  | call _ _ _ hp' ih =>
    simp only [entry_append, (hp' _).entry_eq]
    exact ih (by decide) _
  | binary _ _ _ _ _ ih | logical _ _ _ _ _ ih =>
    simp only [entry_append]
    exact ih hp _
  | initialized => simp only [entry_append, entry_cons]
  | _ => rfl

theorem Varies.isBareCreation_iff (h : leftHandSide.Varies fill filled ts tree) (i j : ι) :
    IsBareCreation (ts i) tree ↔ IsBareCreation (ts j) tree := by
  rw [isBareCreation_iff_entry, isBareCreation_iff_entry, h.entry_eq (by decide) i j]

/-- A phrase has its tree in every variant, if the fillings have theirs. -/
theorem Varies.derives (hf : ∀ i, Production.sequence.Derives (fill i) filled)
    (h : p.Varies fill filled ts tree) (i : ι) : p.Derives (ts i) tree := by
  induction h with
  | here => exact hf i
  | fixed hd => exact hd
  | alternative hq _ ih => exact .alternative hq ih
  | grouping ho _ hc ih => exact .grouping ho ih hc
  | creation hw _ _ hp ih iha =>
    rw [← map_snd_segment _ i]
    exact .creation hw ih (derives_segments iha) (hp i)
  | named _ hd hn ih => exact .named ih hd hn
  | computed _ ho _ hc ih ihi => exact .computed ih ho ihi hc
  | superCall hw _ hp iha =>
    rw [← map_snd_segment _ i]
    exact .superCall hw (derives_segments iha) (hp i)
  | call hcallee hb _ hp ih iha =>
    -- What is called begins outside of whole expressions, so no variant makes it a bare creation.
    obtain ⟨j, hb⟩ := hb
    rw [← map_snd_segment _ i]
    exact .call ih (mt (hcallee.isBareCreation_iff i j).mp hb) (derives_segments iha) (hp i)
  | unary hs ho _ ih => exact .unary hs ho ih
  | binary hl _ hs ho _ ih ihr => exact .binary hl ih hs ho ihr
  | logical hl _ hs ho _ ih ihr => exact .logical hl ih hs ho ihr
  | assign _ hl hs ho _ ih ihr => exact .assign ih hl hs ho ihr
  | sequence _ hc ih =>
    rw [← map_snd_segment _ i]
    exact .sequence (derives_segments ih) (hc i)
  | expressionStatement _ hs ih => exact .expressionStatement ih hs
  | block ho _ hc ih =>
    simp only [← map_snd_segment _ i, ← flatMap_fst_segment]
    exact .block ho (derives_segments ih) hc
  | variableStatement _ hs ih => exact .variableStatement ih hs
  | variableList hw _ hc ih =>
    rw [← map_snd_segment _ i]
    exact .variableList hw (derives_segments ih) (hc i)
  | initialized hd hs _ ih => exact .initialized hd hs ih
  | conditional hw _ _ ihc ihs => exact .conditional hw ihc ihs
  | conditionalElse hw _ _ ho hw' _ ihc ihs iha => exact .conditionalElse hw ihc ihs ho hw' iha
  | whileLoop hw _ _ ihc ihb => exact .whileLoop hw ihc ihb
  | doWhileLoop hw _ hw' _ hs ihb ihc => exact .doWhileLoop hw ihb hw' ihc hs
  | forLoop hw ho hp _ hs _ hs' _ hc _ ihi ihc iht ihb =>
    rw [← option_map_snd_segment _ i, ← option_map_snd_segment _ i, ← option_map_snd_segment _ i]
    exact .forLoop hw ho hp (derives_option_segment ihi) hs (derives_option_segment ihc) hs'
      (derives_option_segment iht) hc ihb
  | functionDeclaration hw hn hd hp _ ih => exact .functionDeclaration hw hn hd hp ih
  | returnStatement hw _ hs ih =>
    rw [← option_map_snd_segment _ i]
    exact .returnStatement hw (derives_option_segment ih) hs
  | classDeclaration hw hd _ ih => exact .classDeclaration hw hd ih
  | subclassDeclaration hw hd hw' hs _ ih => exact .subclassDeclaration hw hd hw' hs ih

theorem Varies.sequence_of_level (hp : p ∈ expressionLevels)
    (h : p.Varies fill filled ts tree) : Production.sequence.Varies fill filled ts tree := by
  have hassign : ∀ q ∈ expressionLevels, q.Varies fill filled ts tree →
      Production.assignment.Varies fill filled ts tree :=
    List.IsChain.induction (fun q => q.Varies fill filled ts tree →
      Production.assignment.Varies fill filled ts tree) expressionLevels isChain_expressionLevels
        (fun _ _ hq ih h => ih (.alternative hq h)) fun _ h => h
  have hi : ∀ item ∈ [(ts, tree)], Production.assignment.Varies fill filled item.1 item.2 := by
    simpa using hassign p hp h
  exact .sequence hi fun i => .single (ts i, tree)

end Production

/-- The programs for one tree that vary where a given tree stands for a whole expression. -/
inductive VariesProgram (fill : ι → List Token) (filled : Node) :
    (ι → List Token) → Node → Prop where

  | intro {items : List (Variant ι)} : items ≠ [] →
      (∀ item ∈ items, Production.statement.Varies fill filled item.1 item.2) →
      VariesProgram fill filled (fun i => items.flatMap (·.1 i)) (.program (items.map Prod.snd))

theorem VariesProgram.derives {fill : ι → List Token} {filled : Node} {ts : ι → List Token}
    {tree : Node} (hf : ∀ i, Production.sequence.Derives (fill i) filled)
    (h : VariesProgram fill filled ts tree) (i : ι) : DerivesProgram (ts i) tree := by
  cases h with
  | @intro items hne hi =>
    simp only [← map_snd_segment items i, ← flatMap_fst_segment]
    exact .intro (by simpa using hne) (derives_segments fun item hm => (hi item hm).derives hf i)

end Frontend
