import Frontend.Command.Options
import Frontend.Error.Report
import Frontend.Grammar.Parse
import Frontend.Tree.Document

/-! # Running the command

A run takes options and the entries that file names lead to, and gives an exit
code and two texts. The log says what was read and parsed. It stands before any
report, and is shown on request only.
-/

namespace Frontend.Command

/-- What a file name leads to. -/
inductive Entry where
  | file (bytes : ByteArray)
  | unreadable (reason : String)

namespace Entry

def notFound : String := "No such file or directory (os error 2)"

def isAFolder : String := "Is a directory (os error 21)"

def notAFolder : String := "Not a directory (os error 20)"

def text : Entry → Except String String
  | file bytes =>
    match String.fromUTF8? bytes with
    | some text => .ok text
    | none => .error "stream did not contain valid UTF-8"
  | unreadable reason => .error reason

end Entry

/-- What happened during a run. -/
inductive Event where
  | read (bytes : Nat) (path : String)
  | parsing (bytes : Nat)
  | token (token : Token)
  | parsed (statements : Nat)

def Event.line : Event → String
  | read bytes path => "[DEBUG] read " ++ toString bytes ++ " bytes from " ++ path ++ "\n"
  | parsing bytes => "[DEBUG] parsing " ++ toString bytes ++ " bytes of source\n"
  | token t => "[TRACE] token " ++ t.display ++ " at " ++ toString t.span.start ++ "\n"
  | parsed statements =>
    "[DEBUG] parsed program with " ++ toString statements ++ " statements\n"

def log (events : List Event) : String := String.join (events.map Event.line)

/-- The events of fetching tokens. The end of input is none. -/
def fetched (tokens : List Token) : List Event :=
  (tokens.filter fun token => token.kind != .eof).map .token

/-- The texts of files, joined in order, up to the first that cannot be read. -/
def readAll (entry : String → Entry) : List String → List Event × Except String String
  | [] => ([], .ok "")
  | path :: paths =>
    match (entry path).text with
    | .error reason => ([], .error reason)
    | .ok text =>
      let (events, rest) := readAll entry paths
      (.read text.utf8ByteSize path :: events, rest.map (text ++ ·))

def tokenDocument (token : Token) : Document :=
  .object [("type", .text token.kind.name), ("value", .text token.value)]

def showTokens (source : String) : List Event × Except Error String :=
  let (tokens, failure) := (Lexer.ofText source).run
  (fetched tokens,
    match failure with
    | none => .ok (Document.array (tokens.map tokenDocument)).pretty
    | some e => .error e)

def statementCount : Node → Nat
  | .program body => body.length
  | _ => 0

def showTree (source : String) : List Event × Except Error String :=
  let (result, after) := Parser.parseFrom (Recorded.start (Lexer.ofText source))
  let events := .parsing source.utf8ByteSize :: fetched after.given.reverse
  match result with
  | .ok tree => (events ++ [.parsed (statementCount tree)], .ok tree.document.pretty)
  | .error e => (events, .error e)

/-- What a run leaves behind. -/
structure Outcome where
  exitCode : UInt8
  output : String
  messages : String
  deriving DecidableEq

def Outcome.failure (message : String) : Outcome := ⟨1, "", message⟩

def Outcome.after (events : List Event) (outcome : Outcome) : Outcome :=
  { outcome with messages := log events ++ outcome.messages }

/-- Show a text of a given name, with what happened meanwhile. -/
def showSource (tokens : Bool) (source name : String) : List Event × Outcome :=
  let (events, result) := if tokens then showTokens source else showTree source
  match result with
  | .ok output => (events, ⟨0, output, ""⟩)
  | .error e => (events, .failure (e.report source name))

/-- What a run does, apart from showing its log. -/
def perform (options : Options) (entry : String → Entry) : List Event × Outcome :=
  match options.code with
  | some code => showSource options.tokens code "<inline>"
  | none =>
    match readAll entry options.files with
    | (events, .error reason) => (events, .failure ("Error: " ++ reason ++ "\n"))
    | (events, .ok source) =>
      let (more, outcome) := showSource options.tokens source (" + ".intercalate options.files)
      (events ++ more, outcome)

def run (options : Options) (entry : String → Entry) : Outcome :=
  let (events, outcome) := perform options entry
  if options.verbose then outcome.after events else outcome

end Frontend.Command
