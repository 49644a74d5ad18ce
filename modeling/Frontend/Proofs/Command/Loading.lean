import Frontend.Command.Run
import Frontend.Proofs.Grammar.Spans

/-! # What a run does with a text

A run loads a text, from the command line or from files, and shows its tree or its
tokens. What it leaves is settled by the text and its name alone. The log of the reads,
the tokens and the result stands apart from it.
-/

namespace Frontend.Command

variable {entry : String → Entry} {options : Options} {events : List Event} {text reason : String}

theorem exists_read_of_readAll {paths : List String} {result : Except String String}
    (h : readAll entry paths = (events, result)) :
    ∀ event ∈ events, ∃ bytes path, event = .read bytes path := by
  induction paths generalizing events result with
  | nil =>
    cases h
    simp
  | cons path paths ih =>
    rw [readAll] at h
    split at h
    · cases h
      simp
    · cases h
      exact List.forall_mem_cons.mpr ⟨⟨_, _, rfl⟩, ih rfl⟩

/-- The text that a run shows, with the events of reading it, or why there is none. -/
def loaded (options : Options) (entry : String → Entry) : List Event × Except String String :=
  match options.code with
  | some code => ([], .ok code)
  | none => readAll entry options.files

theorem exists_read_of_loaded {result : Except String String}
    (h : loaded options entry = (events, result)) :
    ∀ event ∈ events, ∃ bytes path, event = .read bytes path := by
  cases hc : options.code with
  | some code =>
    rw [loaded, hc] at h
    cases h
    simp
  | none =>
    rw [loaded, hc] at h
    exact exists_read_of_readAll h

def Options.sourceName (options : Options) : String :=
  match options.code with
  | some _ => "<inline>"
  | none => " + ".intercalate options.files

/-- A run loads a text and shows it, or tells why there is none. -/
theorem perform_eq (options : Options) (entry : String → Entry) : perform options entry =
    match loaded options entry with
    | (events, .error reason) => (events, .failure ("Error: " ++ reason ++ "\n"))
    | (events, .ok text) => (events ++ (showSource options.tokens text options.sourceName).1,
        (showSource options.tokens text options.sourceName).2) := by
  unfold perform loaded Options.sourceName
  cases options.code with
  | some code => rfl
  | none => rcases readAll entry options.files with ⟨events, reason | text⟩ <;> rfl

theorem perform_of_text (h : loaded options entry = (events, .ok text)) :
    perform options entry = (events ++ (showSource options.tokens text options.sourceName).1,
      (showSource options.tokens text options.sourceName).2) := by
  rw [perform_eq, h]

def shown (tokens : Bool) (text : String) : Except Error String :=
  if tokens then
    (tokenize text).map fun tokens => (Document.array (tokens.map tokenDocument)).pretty
  else (parse text).map fun tree => tree.document.pretty

theorem snd_showTokens (text : String) : (showTokens text).2 = shown true text := by
  rw [showTokens, shown, if_pos rfl, tokenize]
  rcases (Lexer.ofText text).run with ⟨tokens, _ | e⟩ <;> rfl

theorem snd_showTree (text : String) : (showTree text).2 = shown false text := by
  have hp : (Parser.parseFrom (Recorded.start (Lexer.ofText text))).1 = parse text :=
    Parser.parseFrom_start_eq _
  rw [showTree, shown, if_neg (by decide), ← hp]
  rcases Parser.parseFrom (Recorded.start (Lexer.ofText text)) with ⟨e | tree, after⟩ <;> rfl

/-- What a run leaves that shows a text of a given name. -/
def outcome (tokens : Bool) (text name : String) : Outcome :=
  match shown tokens text with
  | .ok output => ⟨0, output, ""⟩
  | .error e => .failure (e.report text name)

theorem snd_showSource (tokens : Bool) (text name : String) :
    (showSource tokens text name).2 = outcome tokens text name := by
  have hs : (if tokens then showTokens text else showTree text).2 = shown tokens text := by
    cases tokens
    · exact snd_showTree text
    · exact snd_showTokens text
  rw [showSource, outcome, ← hs]
  rcases if tokens then showTokens text else showTree text with ⟨events, e | output⟩ <;> rfl

theorem fst_showSource (text name : String) :
    (showSource false text name).1 = (showTree text).1 := by
  rw [showSource, if_neg (by decide)]
  rcases showTree text with ⟨events, e | output⟩ <;> rfl

@[simp] theorem after_nil (o : Outcome) : o.after [] = o := by
  rw [Outcome.after, log, List.map_nil, String.join_nil, String.empty_append]

def logged (options : Options) (entry : String → Entry) : List Event :=
  if options.verbose then (perform options entry).1 else []

theorem run_eq (options : Options) (entry : String → Entry) :
    run options entry = (perform options entry).2.after (logged options entry) := by
  rw [run, logged]
  rcases perform options entry with ⟨events, o⟩
  cases options.verbose with
  | true => rfl
  | false => exact (after_nil o).symm

theorem run_of_text (h : loaded options entry = (events, .ok text)) :
    run options entry =
      (outcome options.tokens text options.sourceName).after (logged options entry) := by
  rw [run_eq, perform_of_text h, snd_showSource]

end Frontend.Command
