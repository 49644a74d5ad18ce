import Frontend.Proofs.Grammar.Pulls

/-! # Advancing

Whatever a parser is made of, it changes its state by taking the tokens at hand one by one.
A source that fails is left where it failed, with the token at hand as it was, so that a parser
can be called again. This holds under every table of handlers and after every failure.
-/

namespace Frontend

open ParserState Frontend.Parser

section

variable {σ : Type} [TokenStream σ] {α β : Type} {s s₁ s₂ : ParserState σ} {ts us : List Token}

namespace Parser

theorem advance_eq_ok {t : Token} : advance s = .ok t s₁ ↔ t = s.lookahead ∧
    ∃ next source, TokenStream.next s.source = (.ok next, source) ∧
      s₁ = { s with source, lookahead := next } := by
  unfold advance
  split <;> rename_i hn <;> simp only [hn, Prod.mk.injEq, reduceCtorEq, false_and, exists_false,
    and_false]
  constructor
  · rintro ⟨⟩
    exact ⟨rfl, _, _, ⟨rfl, rfl⟩, rfl⟩
  · rintro ⟨rfl, _, _, ⟨⟨⟩, rfl⟩, rfl⟩
    rfl

theorem advance_eq_error {halt : Halt} : advance s = .error halt s₁ ↔
    ∃ e source, TokenStream.next s.source = (.error e, source) ∧ halt = .error e ∧
      s₁ = { s with source } := by
  unfold advance
  split <;> rename_i hn <;> simp only [hn, Prod.mk.injEq, reduceCtorEq, false_and, exists_false]
  constructor
  · rintro ⟨⟩
    exact ⟨_, _, ⟨rfl, rfl⟩, rfl, rfl⟩
  · rintro ⟨_, _, ⟨⟨⟩, rfl⟩, rfl, rfl⟩
    rfl

end Parser

/-- A state is led to another by steps that take the token at hand, that fail to take it, or that
change the table of handlers. The tokens are those that have been taken. -/
inductive ParserState.Advances : ParserState σ → List Token → ParserState σ → Prop where

  | refl (s : ParserState σ) : Advances s [] s

  | taken {s s₁ s₂ : ParserState σ} {t : Token} {ts : List Token} : advance s = .ok t s₁ →
      Advances s₁ ts s₂ → Advances s (t :: ts) s₂

  | failed {s s₁ s₂ : ParserState σ} {halt : Halt} {ts : List Token} :
      advance s = .error halt s₁ → Advances s₁ ts s₂ → Advances s ts s₂

  | registered {s s₁ s₂ : ParserState σ} {kind : TokenKind} {production : Production}
      {ts : List Token} : register kind production s = .ok () s₁ → Advances s₁ ts s₂ →
      Advances s ts s₂

namespace ParserState

theorem Advances.trans (h : s.Advances ts s₁) (h' : s₁.Advances us s₂) :
    s.Advances (ts ++ us) s₂ := by
  induction h with
  | refl => exact h'
  | taken ht _ ih => exact .taken ht (ih h')
  | failed hf _ ih => exact .failed hf (ih h')
  | registered hr _ ih => exact .registered hr (ih h')

theorem Consumes.advances (h : s.Consumes ts s₁) : s.Advances ts s₁ := by
  induction ts generalizing s with
  | nil => exact consumes_nil.mp h ▸ .refl s
  | cons t ts ih =>
    obtain ⟨rfl, -, next, source, hn, h⟩ := h
    exact .taken (advance_ok hn) (ih h)

end ParserState

end

variable {σ : Type} [TokenSource σ] {α β : Type}

namespace Parser

/-- From every state a parser advances, whether it succeeds or fails. -/
def Advancing (p : Parser σ α) : Prop :=
  ∀ s : ParserState σ, ∃ ts, s.Advances ts (left (p s))

namespace Advancing

variable {p : Parser σ α} {f : α → Parser σ β}

theorem of_left_eq (h : ∀ s, left (p s) = s) : Advancing p := fun s =>
  ⟨[], (h s).symm ▸ .refl s⟩

theorem pure (a : α) : Advancing (pure a : Parser σ α) := of_left_eq fun _ => rfl

theorem fail (cause : Cause) (position : ℕ) : Advancing (fail cause position : Parser σ α) :=
  of_left_eq fun _ => rfl

theorem refuse (cause : Token → Cause) : Advancing (refuse cause : Parser σ α) :=
  of_left_eq fun _ => rfl

theorem bind (hp : Advancing p) (hf : ∀ a, Advancing (f a)) : Advancing (p >>= f) := by
  intro s
  obtain ⟨ts, ht⟩ := hp s
  cases he : p s with
  | ok a s₁ =>
    rw [he] at ht
    obtain ⟨us, hu⟩ := hf a s₁
    exact ⟨ts ++ us, bind_ok f he ▸ ht.trans hu⟩
  | error halt s₁ =>
    rw [he] at ht
    exact ⟨ts, bind_error f he ▸ ht⟩

theorem map (g : α → β) (hp : Advancing p) : Advancing (g <$> p) := by
  rw [map_eq_pure_bind]
  exact hp.bind fun a => .pure (g a)

theorem peek {f : TokenKind → Parser σ β} (hf : ∀ kind, Advancing (f kind)) :
    Advancing (kind >>= f) := .bind (of_left_eq fun _ => rfl) hf

theorem advance : Advancing (advance : Parser σ Token) := by
  intro s
  cases he : Parser.advance s with
  | ok t s₁ => exact ⟨[t], .taken he (.refl s₁)⟩
  | error halt s₁ => exact ⟨[], .failed he (.refl s₁)⟩

theorem consume (kind : TokenKind) : Advancing (consume kind : Parser σ Token) := by
  intro s
  by_cases hk : s.lookahead.kind = kind
  · rw [consume_of_eq hk]
    exact advance s
  · rw [consume_of_ne hk]
    exact refuse _ s

theorem register (kind : TokenKind) (production : Production) :
    Advancing (register kind production : Parser σ Unit) := fun _ =>
  ⟨[], .registered rfl (.refl _)⟩

theorem skip {p : Parser σ α} (kind : TokenKind) (hp : Advancing p) :
    Advancing (Parser.consume kind >>= fun _ => p) := .bind (.consume kind) fun _ => hp

theorem repeatWhile {wanted : TokenKind → Bool} {body : α → Parser σ α}
    (hb : ∀ a, Advancing (body a)) (a : α) : Advancing (repeatWhile wanted a body) := by
  have hwithin (rounds : ℕ) : ∀ a, Advancing (repeatWithin wanted body rounds a) := by
    induction rounds with
    | zero => exact fun a => of_left_eq fun _ => rfl
    | succ rounds ih =>
      refine fun a => .peek fun kind => ?_
      split
      · exact (hb a).bind ih
      · exact .pure a
  exact fun s => hwithin _ a s

theorem optionalUnless {stop : TokenKind} (hp : Advancing p) :
    Advancing (optionalUnless stop p) := by
  refine .peek fun kind => ?_
  split
  · exact .pure none
  · exact hp.bind fun a => .pure (some a)

theorem commaSeparated (hp : Advancing p) : Advancing (commaSeparated p) :=
  hp.bind fun first => .bind (.repeatWhile (fun items => .skip .comma (hp.bind fun item =>
    .pure (item :: items))) [first]) fun reversed => .pure reversed.reverse

theorem operatorOf {ω : Type} [Operator ω] (t : Token) :
    Advancing (operatorOf t : Parser σ ω) := by
  unfold Parser.operatorOf
  split
  · exact .pure _
  · exact .fail _ _

theorem operator {ω : Type} [Operator ω] : Advancing (operator : Parser σ ω) :=
  .bind .advance operatorOf

theorem leftAssociative {ω : Type} [Operator ω] {build : ω → Node → Node → Node}
    {operand : Parser σ Node} {kind : TokenKind} (h : Advancing operand) :
    Advancing (leftAssociative build operand kind) :=
  h.bind fun first => .repeatWhile (fun left => .bind .operator fun op =>
    h.bind fun right => .pure (build op left right)) first

theorem token (kind : TokenKind) (node : Node) : Advancing (token kind node : Parser σ Node) :=
  .skip kind (.pure node)

theorem identifier : Advancing (identifier : Parser σ Node) :=
  .bind (.consume _) fun _ => .pure _

theorem numberLiteral : Advancing (numberLiteral : Parser σ Node) := by
  refine .bind (.consume _) fun number => ?_
  unfold numberOf
  split
  · exact .pure _
  · exact .fail _ _

theorem literal : Advancing (literal : Parser σ Node) := by
  refine .peek fun kind => ?_
  split
  · exact numberLiteral
  · exact .bind (.consume _) fun _ => .pure _
  · exact token _ _
  · exact token _ _
  · exact token _ _
  · exact of_left_eq fun _ => rfl

variable {self : Production → Parser σ Node} (h : ∀ p, Advancing (self p))

include h

theorem grouping : Advancing (grouping self) :=
  .skip _ <| (h _).bind fun expr => .skip _ (.pure expr)

theorem arguments : Advancing (arguments self) :=
  .skip _ <| .bind (.optionalUnless (.commaSeparated (h _))) fun _ => .skip _ (.pure _)

theorem creation : Advancing (creation self) :=
  .skip _ <| (h _).bind fun _ => (arguments h).bind fun _ => .pure _

theorem primary : Advancing (primary self) := by
  refine .peek fun kind => ?_
  split
  · exact h .grouping
  · exact h .identifier
  · exact token _ _
  · exact h .creation
  · exact h .literal

theorem memberOf (object : Node) : Advancing (memberOf self object) := by
  refine .peek fun kind => ?_
  split
  · exact .skip _ <| (h _).bind fun _ => .pure _
  · exact .skip _ <| (h _).bind fun _ => .skip _ (.pure _)

theorem member : Advancing (member self) := (h _).bind <| .repeatWhile (memberOf h)

theorem callOf (callee : Node) : Advancing (callOf self callee) :=
  (arguments h).bind fun _ => .pure _

theorem calls (callee : Node) : Advancing (calls self callee) :=
  (callOf h callee).bind <| .repeatWhile (callOf h)

theorem leftHandSide : Advancing (leftHandSide self) := by
  refine .peek fun kind => ?_
  split
  · exact .skip _ (calls h _)
  · refine .peek fun kind => (h _).bind fun callee => .peek fun next => ?_
    split
    · exact calls h callee
    · exact .pure callee

theorem prefixed : Advancing (prefixed self) := by
  refine .peek fun kind => ?_
  split
  · exact .bind .operator fun _ => (h _).bind fun _ => .pure _
  · exact h .leftHandSide

theorem assignment : Advancing (assignment self) := by
  refine (h _).bind fun left => .peek fun kind => ?_
  split
  · refine .bind .advance fun symbol => .bind (.operatorOf symbol) fun op => ?_
    split
    · exact (h _).bind fun right => .pure _
    · exact .fail _ _
  · exact .pure left

theorem statement : Advancing (statement self) := by
  refine .bind (of_left_eq fun _ => rfl) fun handler => ?_
  split
  · exact h _
  · exact h .expressionStatement

theorem statements (stop : TokenKind) : Advancing (statements self stop) :=
  .bind (.repeatWhile (fun nodes => (h _).bind fun node => .pure (node :: nodes)) [])
    fun reversed => .pure reversed.reverse

theorem block : Advancing (block self) :=
  .skip _ <| (statements h _).bind fun _ => .skip _ (.pure _)

theorem variableDeclaration : Advancing (variableDeclaration self) := by
  refine (h _).bind fun id => .peek fun kind => ?_
  split
  · exact .bind (.pure none) fun _ => .pure _
  · exact .bind (.map some (.skip _ (h _))) fun _ => .pure _

theorem condition : Advancing (condition self) :=
  .skip _ <| (h _).bind fun cond => .skip _ (.pure cond)

theorem conditional : Advancing (conditional self) := by
  refine .skip _ <| (condition h).bind fun _ => (h _).bind fun _ => .bind (.peek fun kind => ?_)
    fun _ => .pure _
  split
  · exact .skip _ (.map some (h _))
  · exact .pure none

theorem forLoop : Advancing (forLoop self) := by
  have hstart : Advancing (loopStart self) := by
    refine .peek fun kind => ?_
    split
    · exact h .variableList
    · exact h .sequence
  exact .skip _ <| .skip _ <| .bind (.optionalUnless hstart) fun _ => .skip _ <|
    .bind (.optionalUnless (h _)) fun _ => .skip _ <| .bind (.optionalUnless (h _)) fun _ =>
      .skip _ <| (h _).bind fun _ => .pure _

theorem iteration : Advancing (iteration self) := by
  refine .peek fun kind => ?_
  split
  · exact h .whileLoop
  · exact h .doWhileLoop
  · exact h .forLoop
  · exact of_left_eq fun _ => rfl

theorem classDeclaration : Advancing (classDeclaration self) := by
  refine .skip _ <| (h _).bind fun _ => .bind (.peek fun kind => ?_) fun _ =>
    (h _).bind fun _ => .pure _
  split
  · exact .skip _ (.map some (h _))
  · exact .pure none

theorem body (p : Production) : Advancing (p.body self) := by
  cases p with
  | statement => exact statement h
  | expressionStatement => exact (h _).bind fun _ => .skip _ (.pure _)
  | emptyStatement => exact token _ _
  | block => exact block h
  | variableStatement => exact (h _).bind fun _ => .skip _ (.pure _)
  | variableList => exact .skip _ <| .bind (.commaSeparated (h _)) fun _ => .pure _
  | variableDeclaration => exact variableDeclaration h
  | conditional => exact conditional h
  | iteration => exact iteration h
  | whileLoop => exact .skip _ <| (condition h).bind fun _ => (h _).bind fun _ => .pure _
  | doWhileLoop =>
    exact .skip _ <| (h _).bind fun _ => .skip _ <| (condition h).bind fun _ => .skip _ (.pure _)
  | forLoop => exact forLoop h
  | functionDeclaration =>
    exact .skip _ <| (h _).bind fun _ => .skip _ <|
      .bind (.optionalUnless (.commaSeparated (h _))) fun _ => .skip _ <|
        (h _).bind fun _ => .pure _
  | returnStatement =>
    exact .skip _ <| .bind (.optionalUnless (h _)) fun _ => .skip _ (.pure _)
  | classDeclaration => exact classDeclaration h
  | sequence => exact .bind (.commaSeparated (h _)) fun _ => .pure _
  | assignment => exact assignment h
  | disjunction | conjunction => exact .leftAssociative (h _)
  | equality | relation | sum | product => exact .leftAssociative (h _)
  | prefixed => exact prefixed h
  | leftHandSide => exact leftHandSide h
  | member => exact member h
  | primary => exact primary h
  | grouping => exact grouping h
  | creation => exact creation h
  | identifier => exact identifier
  | literal => exact literal

end Advancing

end Parser

/-- A production advances under every table of handlers, even one that spends its budget. -/
theorem Production.advancing (p : Production) : Advancing (p.parser : Parser σ Node) := by
  have hwithin (budget : ℕ) : ∀ p : Production, Advancing (p.within budget : Parser σ Node) := by
    induction budget with
    | zero => exact fun p => .of_left_eq fun _ => rfl
    | succ budget ih => exact Advancing.body ih
  exact fun s => hwithin _ p s

end Frontend
