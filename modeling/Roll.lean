import Roll.Amortizing
import Roll.Amplifying
import Roll.Apply
import Roll.Applying
import Roll.Atomic
import Roll.Blake2b
import Roll.Blaming
import Roll.Bounding
import Roll.Breaking
import Roll.Calm
import Roll.Certifying
import Roll.ChunkIndex
import Roll.Chunker
import Roll.Chunking
import Roll.CommandLine
import Roll.Commands
import Roll.Committing
import Roll.Constant
import Roll.Construction
import Roll.Counting
import Roll.Creating
import Roll.Cursor
import Roll.Decoding
import Roll.Delta
import Roll.DeltaCodec
import Roll.DeltaViewer
import Roll.Diff
import Roll.DiffRoundtrip
import Roll.Discarding
import Roll.Documents
import Roll.Durability
import Roll.Editing
import Roll.Encoding
import Roll.Evaluation
import Roll.Failing
import Roll.FileIo
import Roll.FileSystem
import Roll.Fingerprint
import Roll.Format
import Roll.Framing
import Roll.Generating
import Roll.Grammar
import Roll.Guarding
import Roll.HashConcepts
import Roll.Hashing
import Roll.Indexing
import Roll.Interpreting
import Roll.Judging
import Roll.Limiting
import Roll.Lockstep
import Roll.LogicalCursor
import Roll.Main
import Roll.Myers
import Roll.Outcome
import Roll.OutputTransaction
import Roll.Parsing
import Roll.Patching
import Roll.PowerLoss
import Roll.Publishing
import Roll.Reading
import Roll.Refinement
import Roll.Registry
import Roll.Rendering
import Roll.Rfc7693
import Roll.RkFinger
import Roll.RollingSum
import Roll.Roundtrip
import Roll.Searching
import Roll.Selecting
import Roll.Shortest
import Roll.Signature
import Roll.Signing
import Roll.Sizing
import Roll.Staging
import Roll.Stepping
import Roll.Swapping
import Roll.Tracking
import Roll.Uninterrupted
import Roll.ViewerOutput
import Roll.Viewing
