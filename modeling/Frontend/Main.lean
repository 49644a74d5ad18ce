import Frontend.Command.Run

/-! # The program

Look up the files that the arguments name, run the command, and show what it
leaves behind.
-/

namespace Frontend.Command

def Entry.ofPath (path : String) : IO Entry := do
  try
    return .file (← IO.FS.readBinFile path)
  catch
    | .noFileOrDirectory .. => return .unreadable notFound
    | .inappropriateType .. => return .unreadable isAFolder
    | e => return .unreadable (toString e)

def usage : String := "Usage: [-c CODE] [--tokens] [-v | --verbose] [FILE]...\n"

def main (arguments : List String) : IO UInt32 := do
  match Options.ofArguments? arguments with
  | none =>
    IO.eprint usage
    return 2
  | some options =>
    let paths := if options.code.isSome then [] else options.files
    let entries ← paths.mapM fun path => return (path, ← Entry.ofPath path)
    let outcome := run options fun path => (entries.lookup path).getD (.unreadable Entry.notFound)
    IO.eprint outcome.messages
    IO.print outcome.output
    return outcome.exitCode.toUInt32

end Frontend.Command

def main (arguments : List String) : IO UInt32 := Frontend.Command.main arguments
