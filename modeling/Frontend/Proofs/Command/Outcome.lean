import Frontend.Proofs.Command.Loading

/-! # What a run leaves behind

The exit code and the output of a run are settled by the text it loads, wherever this text
comes from and whether or not a log is shown. The messages name where it comes from, and
nothing else in them tells. A file that cannot be read settles the run whatever the files
behind it hold.
-/

namespace Frontend.Command

variable {entry : String → Entry} {options : Options}

end Frontend.Command
