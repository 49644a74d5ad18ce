import Frontend.Grammar.Statement
import Frontend.Token.Lexer

/-! # Parsing

Every production refers to others, so the parser of a production is built by
recursion on a budget. Between two tokens the recursion passes each level of
the grammar at most once, so that a budget in proportion to the tokens still to
come is enough.
-/

namespace Frontend

variable {σ : Type} [TokenSource σ]

namespace Production

/-- The parser of a production, over parsers for the productions it refers to. -/
def body (self : Production → Parser σ Node) : Production → Parser σ Node
  | statement => Parser.statement self
  | expressionStatement => Parser.expressionStatement self
  | emptyStatement => Parser.emptyStatement
  | block => Parser.block self
  | variableStatement => Parser.variableStatement self
  | variableList => Parser.variableList self
  | variableDeclaration => Parser.variableDeclaration self
  | conditional => Parser.conditional self
  | iteration => Parser.iteration self
  | whileLoop => Parser.whileLoop self
  | doWhileLoop => Parser.doWhileLoop self
  | forLoop => Parser.forLoop self
  | functionDeclaration => Parser.functionDeclaration self
  | returnStatement => Parser.returnStatement self
  | classDeclaration => Parser.classDeclaration self
  | sequence => Parser.sequence self
  | assignment => Parser.assignment self
  | disjunction => Parser.logical self .conjunction .orOp
  | conjunction => Parser.logical self .equality .andOp
  | equality => Parser.binary self .relation .equalityOp
  | relation => Parser.binary self .sum .relationalOp
  | sum => Parser.binary self .product .additiveOp
  | product => Parser.binary self .prefixed .multiplicativeOp
  | prefixed => Parser.prefixed self
  | leftHandSide => Parser.leftHandSide self
  | member => Parser.member self
  | primary => Parser.primary self
  | grouping => Parser.grouping self
  | creation => Parser.creation self
  | identifier => Parser.identifier
  | literal => Parser.literal

/-- The parser of a production on a budget of nested productions. -/
def within : Nat → Production → Parser σ Node
  | 0, _ => Parser.exhausted
  | budget + 1, production => body (within budget) production

/-- The levels of the grammar that lie between two tokens, at most. -/
def levels : Nat := 16

/-- The parser of a production. -/
def parser (production : Production) : Parser σ Node := fun state =>
  within (levels * (state.remaining + 1)) production state

end Production

namespace Parser

/-- A whole program: one statement or more, up to the end of input. -/
def program : Parser σ Node := do
  let first ← Production.parser .statement
  let rest ← statements Production.parser .eof
  return .program (first :: rest)

/-- The result of a parser and the state it leaves. A spent budget counts as a
token that cannot be read. -/
def apply {α : Type} (parser : Parser σ α) (state : ParserState σ) :
    Except Error α × ParserState σ :=
  match parser state with
  | .ok a after => (.ok a, after)
  | .error (.error e) after => (.error e, after)
  | .error .exhausted after =>
    let token := after.lookahead
    (.error ⟨.unknownLiteral token.kind token.value, token.span.start⟩, after)

def start {σ : Type} [TokenStream σ] (source : σ) : Except Error (ParserState σ) × σ :=
  match TokenStream.next source with
  | (.ok token, rest) => (.ok ⟨rest, token, .standard⟩, rest)
  | (.error e, rest) => (.error e, rest)

/-- The program that a source holds, and the source that is left. -/
def parseFrom (source : σ) : Except Error Node × σ :=
  match start source with
  | (.error e, rest) => (.error e, rest)
  | (.ok state, _) =>
    let (result, after) := apply program state
    (result, after.source)

/-- The result of a parse of any stream and the stream that is left, unless the parse makes as
many pulls as are given. -/
def parseMetered {σ : Type} [TokenStream σ] (pulls : Nat) (source : σ) :
    Option (Except Error Node × σ) :=
  let (result, rest) := parseFrom (⟨source, pulls⟩ : Metered σ)
  if rest.pulls = 0 then none else some (result, rest.source)

/-- A parse of a stream returns a result and leaves a stream: so it does behind some meter that it
does not use up. Where tokens never end, there may be no result. -/
def Returns {σ : Type} [TokenStream σ] (source : σ) (result : Except Error Node) (rest : σ) :
    Prop :=
  ∃ pulls, parseMetered pulls source = some (result, rest)

end Parser

/-- The program that a source holds. -/
def parseTokens (source : σ) : Except Error Node := (Parser.parseFrom source).1

/-- The program that a text holds. -/
def parse (text : String) : Except Error Node := parseTokens (Lexer.ofText text)

end Frontend
