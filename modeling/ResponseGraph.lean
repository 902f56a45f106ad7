import ResponseGraph.Cache
import ResponseGraph.Graph.Printer
import ResponseGraph.Json.Reader
import ResponseGraph.Migration
import ResponseGraph.Path.Reader
import ResponseGraph.Proofs.Draft.Supported
import ResponseGraph.Proofs.Field.Live
import ResponseGraph.Proofs.Field.Reordered
import ResponseGraph.Proofs.Field.Traits
import ResponseGraph.Proofs.Field.Typename
import ResponseGraph.Proofs.Field.WellFormed
import ResponseGraph.Proofs.Graph.Addressed
import ResponseGraph.Proofs.Graph.Afresh
import ResponseGraph.Proofs.Graph.Batches
import ResponseGraph.Proofs.Graph.Clashes
import ResponseGraph.Proofs.Graph.Contested
import ResponseGraph.Proofs.Graph.Edited
import ResponseGraph.Proofs.Graph.Frame
import ResponseGraph.Proofs.Graph.Furnished
import ResponseGraph.Proofs.Graph.Interrupted
import ResponseGraph.Proofs.Graph.Leftover
import ResponseGraph.Proofs.Graph.Normal
import ResponseGraph.Proofs.Graph.NullId
import ResponseGraph.Proofs.Graph.QueryRoot
import ResponseGraph.Proofs.Graph.Repeated
import ResponseGraph.Proofs.Graph.Roots
import ResponseGraph.Proofs.Graph.Shared
import ResponseGraph.Proofs.Graph.Trimmed
import ResponseGraph.Proofs.Graph.Written
import ResponseGraph.Proofs.NodeId.Arguments
import ResponseGraph.Proofs.Payload.Pointed
import ResponseGraph.Proofs.Registry.Digests
import ResponseGraph.Proofs.Registry.Supplied
import ResponseGraph.Proofs.Value.Equal
import ResponseGraph.Revision
