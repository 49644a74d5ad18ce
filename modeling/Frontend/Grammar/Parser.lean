import Frontend.Grammar.Production
import Frontend.Token.Source

/-! # Parsers

A parser reads tokens from a source through one token of lookahead. It fetches
the next token only when it consumes the one at hand, and it keeps its state
when it fails. Loops and recursion run on a budget that the tokens still to
come determine.
-/

namespace Frontend

/-- The production that a statement begins with, by the kind of its first token. -/
abbrev Handlers := List (TokenKind × Production)

namespace Handlers

/-- The handlers of the language. Other tokens begin an expression statement. -/
def standard : Handlers :=
  [(.semicolon, .emptyStatement), (.openCurly, .block), (.letWord, .variableStatement),
    (.ifWord, .conditional), (.defWord, .functionDeclaration),
    (.classWord, .classDeclaration), (.returnWord, .returnStatement),
    (.whileWord, .iteration), (.doWord, .iteration), (.forWord, .iteration)]

def register (handlers : Handlers) (kind : TokenKind) (production : Production) : Handlers :=
  (kind, production) :: handlers.filter fun handler => handler.1 != kind

end Handlers

/-- What a parser has before it: the token at hand and the source behind it. -/
structure ParserState (σ : Type) where
  source : σ
  lookahead : Token
  handlers : Handlers

namespace ParserState

/-- A bound on the tokens that can still be consumed. -/
def remaining {σ : Type} [TokenSource σ] (state : ParserState σ) : Nat :=
  TokenSource.remaining state.source + 1

def metered {σ : Type} (pulls : Nat) (state : ParserState σ) : ParserState (Metered σ) :=
  { state with source := ⟨state.source, pulls⟩ }

def unmetered {σ : Type} (state : ParserState (Metered σ)) : ParserState σ :=
  { state with source := state.source.source }

end ParserState

/-- Why a parser stops without a result. -/
inductive Halt where
  | error (e : Error)
  /-- The budget of a loop or a recursion is spent. -/
  | exhausted

abbrev Parser (σ : Type) := EStateM Halt (ParserState σ)

namespace Parser

section

variable {σ : Type} [TokenStream σ] {α : Type}

def kind : Parser σ TokenKind := fun state => .ok state.lookahead.kind state

def fail (cause : Cause) (position : Nat) : Parser σ α :=
  fun state => .error (.error ⟨cause, position⟩) state

def exhausted : Parser σ α := fun state => .error .exhausted state

/-- Consume the token at hand and fetch the next one. A source that fails
leaves the token at hand. -/
def advance : Parser σ Token := fun state =>
  match TokenStream.next state.source with
  | (.ok token, source) => .ok state.lookahead { state with source, lookahead := token }
  | (.error e, source) => .error (.error e) { state with source }

def consume (expected : TokenKind) : Parser σ Token := fun state =>
  let token := state.lookahead
  if token.kind = expected then advance state
  else if token.kind = .eof then fail (.unexpectedEnd expected) token.span.start state
  else fail (.unexpectedToken token.kind token.value expected) token.span.start state

def handler? : Parser σ (Option Production) :=
  fun state => .ok (state.handlers.lookup state.lookahead.kind) state

def register (kind : TokenKind) (production : Production) : Parser σ Unit :=
  fun state => .ok () { state with handlers := state.handlers.register kind production }

/-- Repeat a parser while the kind at hand is as wanted, on a budget of rounds. -/
def repeatWithin (wanted : TokenKind → Bool) (body : α → Parser σ α) : Nat → α → Parser σ α
  | 0, _ => exhausted
  | rounds + 1, a => do
    if wanted (← kind) then
      let b ← body a
      repeatWithin wanted body rounds b
    else return a

end

variable {σ : Type} [TokenSource σ] {α : Type}

def repeatWhile (wanted : TokenKind → Bool) (a : α) (body : α → Parser σ α) : Parser σ α :=
  fun state => repeatWithin wanted body (state.remaining + 1) a state

def commaSeparated (item : Parser σ α) : Parser σ (List α) := do
  let first ← item
  let reversed ← repeatWhile (· == .comma) [first] fun items => do
    let _ ← consume .comma
    return (← item) :: items
  return reversed.reverse

def optionalUnless (stop : TokenKind) (item : Parser σ α) : Parser σ (Option α) := do
  if (← kind) = stop then return none else return some (← item)

def operatorOf {ω : Type} [Operator ω] (token : Token) : Parser σ ω :=
  match Operator.ofSymbol? token.value with
  | some op => pure op
  | none => fail (.unknownOperator (Operator.family ω) token.value) token.span.start

def operator {ω : Type} [Operator ω] : Parser σ ω := do operatorOf (← advance)

/-- Operands with operators of one kind between them, grouped to the left. -/
def leftAssociative {ω : Type} [Operator ω] (build : ω → Node → Node → Node)
    (operand : Parser σ Node) (kind : TokenKind) : Parser σ Node := do
  let first ← operand
  repeatWhile (· == kind) first fun left => do
    let op ← operator
    let right ← operand
    return build op left right

end Parser

end Frontend
