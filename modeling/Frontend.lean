import Frontend.Command.Folder
import Frontend.Main
import Frontend.Token.ByteCursor
import Frontend.Tree.Equality
import Frontend.Proofs.Grammar.Earliest
import Frontend.Proofs.Grammar.Tokenized
import Frontend.Proofs.Token.Layout
import Frontend.Proofs.Token.Partition
import Frontend.Proofs.Token.Spelling
import Frontend.Proofs.Tree.Shape
import Frontend.Proofs.Grammar.Accepted
import Frontend.Proofs.Grammar.Shape
import Frontend.Proofs.Grammar.Marks
import Frontend.Proofs.Grammar.Printed
import Frontend.Proofs.Grammar.Spans
import Frontend.Proofs.Token.Shift
import Frontend.Proofs.Grammar.Concatenation
import Frontend.Proofs.Document.Whitespace
import Frontend.Proofs.Tree.Rendering
import Frontend.Proofs.Grammar.Blame
import Frontend.Proofs.Grammar.Position
import Frontend.Proofs.Grammar.Possible
import Frontend.Proofs.Grammar.Cascade
import Frontend.Proofs.Grammar.Pulls
import Frontend.Proofs.Grammar.Depth
import Frontend.Proofs.Command.Outcome
import Frontend.Proofs.Command.Trace
import Frontend.Proofs.Grammar.Assignments
import Frontend.Proofs.Grammar.Statements
import Frontend.Proofs.Token.Longest
import Frontend.Proofs.Token.Cursor
import Frontend.Proofs.Token.Progress
import Frontend.Proofs.Token.Extension
import Frontend.Proofs.Token.Order
import Frontend.Proofs.Token.Unreadable
import Frontend.Proofs.Token.Words
import Frontend.Proofs.Grammar.Numbers
import Frontend.Proofs.Text.Places
import Frontend.Proofs.Grammar.Leftover
import Frontend.Proofs.Error.Excerpt
import Frontend.Proofs.Grammar.Parentheses
