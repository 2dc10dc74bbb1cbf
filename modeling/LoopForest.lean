import LoopForest.Forest.Outline
import LoopForest.Parser.Program
import LoopForest.Proofs.Loop.Clauses
import LoopForest.Proofs.Loop.Delimiters
import LoopForest.Proofs.Loop.Forms
import LoopForest.Proofs.Text.Gap
import LoopForest.Proofs.Text.Layout
import LoopForest.Proofs.Text.Lexeme
import LoopForest.Proofs.Text.Clear
import LoopForest.Proofs.Text.Lexicon
import LoopForest.Proofs.Text.Lines
import LoopForest.Proofs.Text.Faults
import LoopForest.Proofs.Text.Progress
import LoopForest.Proofs.Text.Spacing
import LoopForest.Proofs.Text.CountingLoop
import LoopForest.Proofs.Forest.Ownership
import LoopForest.Proofs.Forest.Lineage
import LoopForest.Proofs.Forest.Root
import LoopForest.Proofs.Forest.Growth
import LoopForest.Proofs.Forest.Subtree
import LoopForest.Proofs.Forest.Walk
import LoopForest.Proofs.Forest.Rendering
import LoopForest.Proofs.Forest.Indentation
import LoopForest.Proofs.Forest.Bounds
import LoopForest.Proofs.Parser.Reading
import LoopForest.Proofs.Parser.Building
import LoopForest.Proofs.Parser.Scanning
import LoopForest.Proofs.Parser.Calls
import LoopForest.Proofs.Parser.Rollback
import LoopForest.Proofs.Parser.Constructs
import LoopForest.Proofs.Parser.Additions
import LoopForest.Proofs.Parser.Shape
import LoopForest.Proofs.Parser.Reprint
import LoopForest.Proofs.Parser.Breaks
import LoopForest.Proofs.Parser.Counting
import LoopForest.Proofs.Parser.Indexed
import LoopForest.Proofs.Parser.Safety
import LoopForest.Proofs.Parser.Attempts
import LoopForest.Proofs.Parser.Stability
import LoopForest.Proofs.Parser.Logging
import LoopForest.Proofs.Parser.Lockstep
import LoopForest.Proofs.Forest.Joining
import LoopForest.Proofs.Parser.Composition
import LoopForest.Proofs.Forest.Wording
import LoopForest.Proofs.Parser.Likeness
import LoopForest.Proofs.Parser.Wording
import LoopForest.Proofs.Parser.Delimiting
import LoopForest.Proofs.Parser.Grammar
import LoopForest.Proofs.Parser.Comparison
import LoopForest.Proofs.Parser.Rejection
import LoopForest.Proofs.Parser.Places
import LoopForest.Proofs.Parser.Footprint
import LoopForest.Proofs.Forest.Undoing
import LoopForest.Proofs.Forest.Linking
import LoopForest.Proofs.Forest.Resemblance
import LoopForest.Proofs.Parser.Canonical
