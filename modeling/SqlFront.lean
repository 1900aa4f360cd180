import SqlFront.Filter
import SqlFront.Json.Row
import SqlFront.Json.Tree
import SqlFront.Render.Statement
import SqlFront.Session
import SqlFront.Tree.Build
import SqlFront.Proofs.RoundTrip
import SqlFront.Proofs.WellFormed
import SqlFront.Proofs.Marks
import SqlFront.Proofs.MarksKept
import SqlFront.Proofs.WholeTokens
import SqlFront.Proofs.Tiling
import SqlFront.Proofs.Respacing
import SqlFront.Proofs.Joining
import SqlFront.Proofs.Streams
import SqlFront.Proofs.Positions
import SqlFront.Proofs.Strata
import SqlFront.Proofs.Couplings
import SqlFront.Proofs.OtherFunctions
import SqlFront.Proofs.Faults
import SqlFront.Proofs.Gaps
import SqlFront.Proofs.Literals
import SqlFront.Proofs.MoreFunctions
import SqlFront.Proofs.RowDocuments
import SqlFront.Proofs.Answers
import SqlFront.Proofs.TreeDocuments
import SqlFront.Proofs.Connectives
import SqlFront.Proofs.Expansions
import SqlFront.Proofs.Nesting
import SqlFront.Proofs.Stability
import SqlFront.Proofs.Evaluable
import SqlFront.Proofs.Precedence
import SqlFront.Proofs.Followers
import SqlFront.Proofs.Places
import SqlFront.Proofs.Calls
import SqlFront.Proofs.Segments
import SqlFront.Proofs.ItemNames
import SqlFront.Proofs.SetChains
import SqlFront.Proofs.Registration
import SqlFront.Proofs.LastAssignments
import SqlFront.Proofs.PrefixForm
import SqlFront.Proofs.Wildcards
import SqlFront.Proofs.Extents
import SqlFront.Proofs.Numbers
