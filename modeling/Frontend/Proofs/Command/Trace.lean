import Frontend.Proofs.Command.Loading
import Frontend.Proofs.Grammar.Pulls

/-! # The log of a parse

The log lists the tokens that the parser has pulled, in order. So it shows how far the
parser has looked: up to the end of input, the token at hand or the one behind it.
-/

namespace Frontend.Command

open Frontend.Parser

variable {entry : String → Entry} {options : Options} {events : List Event} {text : String}

theorem log_nil : log [] = "" := rfl

theorem log_append (events more : List Event) : log (events ++ more) = log events ++ log more := by
  rw [log, List.map_append, String.join_append]
  rfl

theorem log_cons (event : Event) (events : List Event) :
    log (event :: events) = event.line ++ log events := by
  rw [log, List.map_cons, String.join_cons]
  rfl

def traceLine (t : Token) : String :=
  "[TRACE] token " ++ t.display ++ " at " ++ toString t.span.start ++ "\n"

theorem log_fetched (tokens : List Token) :
    log (fetched tokens) = String.join ((tokens.filter fun t => t.kind != .eof).map traceLine) := by
  rw [log, fetched, List.map_map]
  rfl

theorem fst_showTree (text : String) : (showTree text).1 =
    .parsing text.utf8ByteSize :: fetched (pulled (Lexer.ofText text)) ++
      match parse text with
      | .ok tree => [.parsed (statementCount tree)]
      | .error _ => [] := by
  have hp : (parseFrom (Recorded.start (Lexer.ofText text))).1 = parse text :=
    parseFrom_start_eq _
  rw [showTree, pulled, ← hp]
  rcases parseFrom (Recorded.start (Lexer.ofText text)) with ⟨e | tree, after⟩
  · exact (List.append_nil _).symm
  · rfl

/-- The tokens of a parse are logged in one piece. Behind them stands how the parse has ended. -/
theorem messages_of_text (h : loaded options entry = (events, .ok text))
    (ht : options.tokens = false) (hv : options.verbose = true) :
    (run options entry).messages = log events ++ (Event.parsing text.utf8ByteSize).line ++
      String.join (((pulled (Lexer.ofText text)).filter fun t => t.kind != .eof).map traceLine) ++
        match parse text with
        | .ok tree => (Event.parsed (statementCount tree)).line
        | .error e => e.report text options.sourceName := by
  have hlogged : logged options entry = events ++ (showTree text).1 := by
    rw [logged, hv, if_pos rfl, perform_of_text h, ht, fst_showSource]
  rw [run_of_text h, hlogged, ht, fst_showTree, Outcome.after, outcome, shown]
  cases parse text with
  | ok tree =>
    simp [Except.map, log_append, log_cons, log_nil, log_fetched, String.append_assoc]
  | error e =>
    simp [Except.map, Outcome.failure, log_append, log_cons, log_fetched, String.append_assoc]

/-- A parse pulls no token behind the end of input, the token at hand that its error is about, or
the one behind the token that its error is about. The log lists the tokens that it has pulled. -/
theorem pulls_ahead (text : String) :
    asked (Lexer.ofText text) <+: (Lexer.ofText text).answers ∧
    PullsUpTo (asked (Lexer.ofText text)) (parse text) ∧
    (∀ (σ : Type) [TokenSource σ] (p : Production) (s : ParserState (Watched σ)), s.IsStandard →
      ∃ answers, (left (p.parser s)).source.answers = s.source.answers ++ answers ∧
        AsksInFront s.lookahead answers) ∧
    ∀ (options : Options) (entry : String → Entry) (events : List Event),
      loaded options entry = (events, .ok text) → options.tokens = false →
        options.verbose = true → (∀ event ∈ events, ∃ bytes path, event = .read bytes path) ∧
      (run options entry).messages = log events ++ (Event.parsing text.utf8ByteSize).line ++
        String.join ((((asked (Lexer.ofText text)).filterMap Except.toOption).filter
          fun t => t.kind != .eof).map traceLine) ++
          match parse text with
          | .ok tree => (Event.parsed (statementCount tree)).line
          | .error e => e.report text options.sourceName := by
  have hstops : Stops (Lexer.ofText text) (parse text) _ _ := stops_parse (Lexer.ofText text)
  refine ⟨Lexer.prefix_answers_of_stops hstops, Lexer.pullsUpTo_of_stops hstops,
    fun σ _ p s hs => p.asksInFront hs, fun options entry events h ht hv => ?_⟩
  rw [hstops.filterMap_asked]
  exact ⟨exists_read_of_loaded h, messages_of_text h ht hv⟩

theorem pulls_ahead_number_assigned :
    let tokens : List Token := [⟨.number, "1", ⟨0, 1⟩⟩, ⟨.simpleAssign, "=", ⟨2, 3⟩⟩,
      ⟨.number, "2", ⟨4, 5⟩⟩]
    let ended : ParserState (Watched TokenList) :=
      .facing (Token.eof 6) (Watched.start (TokenList.ofTokens []))
    let entry : String → Entry := fun _ => .unreadable Entry.notFound
    tokens.map .ok <+: (Lexer.ofText "1 = 2;").answers ∧
    (left (Production.statement.parser ended)).source.answers = [] ∧
    (run ⟨some "1 = 2;", false, true, []⟩ entry).messages =
      log [] ++ (Event.parsing "1 = 2;".utf8ByteSize).line ++ String.join (tokens.map traceLine) ++
        (⟨.notAssignable (.numericLit 1), 2⟩ : Error).report "1 = 2;" "<inline>" := by
  intro tokens ended entry
  have h : parse "1 = 2;" = .error ⟨.notAssignable (.numericLit 1), 2⟩ := by decide +kernel
  have ha : asked (Lexer.ofText "1 = 2;") = tokens.map .ok := by decide +kernel
  obtain ⟨hbegin, -, hproduction, hlog⟩ := pulls_ahead "1 = 2;"
  rw [ha] at hbegin
  obtain ⟨answers, hstatement, hasks⟩ := hproduction TokenList .statement ended rfl
  have hl := (hlog ⟨some "1 = 2;", false, true, []⟩ entry [] rfl rfl rfl).2
  rw [ha, h] at hl
  refine ⟨hbegin, ?_, hl⟩
  rw [hstatement, hasks.eq_nil rfl]
  rfl

end Frontend.Command
