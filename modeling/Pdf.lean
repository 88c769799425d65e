import Pdf.Document.Basic
import Pdf.Document.Heading
import Pdf.Proofs.Bytes.Spelling
import Pdf.Proofs.Syntax.Token
import Pdf.Proofs.Syntax.Text
import Pdf.Proofs.Syntax.Reader
import Pdf.Proofs.Syntax.RoundTrip
import Pdf.Proofs.Body.Reachable
import Pdf.Proofs.Action.Sequence
import Pdf.Proofs.Output.Performance
import Pdf.Proofs.File.Plan
import Pdf.Proofs.File.Failure
import Pdf.Proofs.Filter.Undo
import Pdf.Proofs.Syntax.Numbered
import Pdf.Proofs.File.Placement
import Pdf.Proofs.Xref.Trailer
import Pdf.Proofs.Xref.Table
import Pdf.Proofs.Xref.Rows
import Pdf.Proofs.File.Tiling
import Pdf.Proofs.File.ReadBack
import Pdf.Proofs.Font.Compaction
import Pdf.Proofs.Font.Runs
import Pdf.Proofs.Font.Scanner
import Pdf.Proofs.Font.Viewing
import Pdf.Proofs.Body.Sharing
import Pdf.Proofs.Object.Sealing
import Pdf.Proofs.File.Sealing
import Pdf.Proofs.Object.Leaves
import Pdf.Proofs.Object.References
import Pdf.Proofs.Body.Leaves
import Pdf.Proofs.Filter.Chain
import Pdf.Proofs.File.Dangling
import Pdf.Proofs.Object.Ascii
import Pdf.Proofs.File.Ascii
import Pdf.Proofs.File.Forms
import Pdf.Proofs.Body.Identities
import Pdf.Proofs.File.Retrying
import Pdf.Proofs.File.Truncation
import Pdf.Proofs.Document.Completion
import Pdf.Proofs.Document.Identifier
import Pdf.Proofs.Font.Keeping
import Pdf.Proofs.Document.Rejection
import Pdf.Proofs.Xref.FreeList
import Pdf.Proofs.Xref.Lockstep
import Pdf.Proofs.Xref.Records
import Pdf.Proofs.Xref.Packing
import Pdf.Proofs.Font.Failure
import Pdf.Proofs.Font.Overflow
import Pdf.Proofs.Xref.Fidelity
import Pdf.Proofs.Object.Numeral
import Pdf.Proofs.Font.MetricText
import Pdf.Proofs.Document.Numbering
import Pdf.Proofs.Text.Decoding
import Pdf.Proofs.Document.InfoTexts
import Pdf.Proofs.Font.Translation
import Pdf.Proofs.Text.Reading
import Pdf.Proofs.Font.Malformed
import Pdf.Proofs.Filter.Parameters
import Pdf.Proofs.Object.History
