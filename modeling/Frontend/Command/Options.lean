/-! # Command-line options

Arguments name files, give code with `-c`, ask for tokens with `--tokens` and
for a log with `-v` or `--verbose`. Short options may be written in one
argument, and everything behind `--` is a file.
-/

namespace Frontend.Command

structure Options where
  /-- Code to parse in place of any file. -/
  code : Option String
  tokens : Bool
  verbose : Bool
  files : List String
  deriving DecidableEq, Repr

namespace Options

def empty : Options := ⟨none, false, false, []⟩

/-- Every option is given at most once. -/
def setCode (options : Options) (code : String) : Option Options :=
  if options.code.isSome then none else some { options with code := some code }

def setTokens (options : Options) : Option Options :=
  if options.tokens then none else some { options with tokens := true }

def setVerbose (options : Options) : Option Options :=
  if options.verbose then none else some { options with verbose := true }

def addFile (options : Options) (file : String) : Option Options :=
  if file.isEmpty then none else some { options with files := options.files ++ [file] }

/-- Whether an argument can stand behind `-c`: it must not look like an option. -/
def isValue (argument : String) : Bool :=
  match argument.toList with
  | '-' :: _ :: _ => false
  | _ => true

def readShort (options : Options) (behind : List String) :
    List Char → Option (Options × List String)
  | [] => some (options, behind)
  | 'v' :: cs => do (← options.setVerbose).readShort behind cs
  | ['c'] =>
    match behind with
    | code :: rest => if isValue code then do return (← options.setCode code, rest) else none
    | [] => none
  | 'c' :: '=' :: cs => do return (← options.setCode (String.ofList cs), behind)
  | 'c' :: cs => do return (← options.setCode (String.ofList cs), behind)
  | _ => none

theorem length_readShort {options after : Options} {behind rest : List String} {cs : List Char}
    (h : options.readShort behind cs = some (after, rest)) : rest.length ≤ behind.length := by
  fun_induction readShort options behind cs with
  | case1 => cases h; exact Nat.le_refl _
  | case2 _ _ ih =>
    obtain ⟨_, _, h⟩ := Option.bind_eq_some_iff.mp h
    exact ih _ h
  | case3 _ _ _ hb =>
    obtain ⟨_, _, h⟩ := Option.bind_eq_some_iff.mp h
    cases h
    rw [hb]
    exact Nat.le_succ _
  | case4 | case5 | case8 => cases h
  | case6 | case7 =>
    obtain ⟨_, _, h⟩ := Option.bind_eq_some_iff.mp h
    cases h
    exact Nat.le_refl _

/-- Read the arguments into options, none if they are not understood. -/
def read (options : Options) : List String → Option Options
  | [] => some options
  | argument :: behind =>
    if argument = "--" then behind.foldlM addFile options
    else if argument = "--tokens" then do (← options.setTokens).read behind
    else if argument = "--verbose" then do (← options.setVerbose).read behind
    else
      match argument.toList with
      | '-' :: '-' :: _ => none
      | '-' :: c :: cs =>
        match _h : options.readShort behind (c :: cs) with
        | none => none
        | some (after, rest) => after.read rest
      | _ => do (← options.addFile argument).read behind
termination_by arguments => arguments.length
decreasing_by
  all_goals simp only [List.length_cons]
  · omega
  · omega
  · have := length_readShort _h
    omega
  · omega

/-- The options that arguments ask for. There has to be at least one argument. -/
def ofArguments? (arguments : List String) : Option Options :=
  if arguments.isEmpty then none else empty.read arguments

end Options

end Frontend.Command
