import HostLookup.Text.Blank
import HostLookup.Family
import HostLookup.Config.Server
import HostLookup.Context.Derivation
import HostLookup.Activity.Guard
import HostLookup.Resolver.Session
import HostLookup.Selection.Preference
import HostLookup.Config.Reader
import HostLookup.Config.Printer
import HostLookup.Resolver.Search
import HostLookup.Resolver.Table
import HostLookup.Message.Request
import HostLookup.Resolver.Stub
import HostLookup.Network.Script
import HostLookup.Activity.Trace
import HostLookup.Proofs.Activity.Interruption
import HostLookup.Proofs.Servers.Outcome
import HostLookup.Proofs.Query.Laws
import HostLookup.Proofs.Sorting.Permutation
import HostLookup.Proofs.Activity.Views
import HostLookup.Proofs.Query.Conduct
import HostLookup.Proofs.Resolver.Laws
import HostLookup.Proofs.Selection.Probing
import HostLookup.Proofs.Stub.Lookup
import HostLookup.Proofs.Stub.Timeliness
import HostLookup.Proofs.Stub.Families
import HostLookup.Proofs.Stub.Attribution
import HostLookup.Proofs.Sorting.Order
import HostLookup.Proofs.Sorting.Stability
import HostLookup.Proofs.Selection.Agreement
import HostLookup.Proofs.Selection.Comparison
import HostLookup.Proofs.Sorting.Naturality
import HostLookup.Proofs.Selection.Policies
import HostLookup.Proofs.Selection.Preferred
import HostLookup.Proofs.Search.Lookup
import HostLookup.Proofs.Search.Denial
import HostLookup.Proofs.Query.CutShort
import HostLookup.Proofs.Stub.Interruption
import HostLookup.Proofs.Config.Grammar
import HostLookup.Proofs.Config.Meaning
import HostLookup.Proofs.Stub.Range
import HostLookup.Proofs.Address.RoundTrip
import HostLookup.Proofs.Config.RoundTrip
import HostLookup.Proofs.Exchange.Datagrams
import HostLookup.Proofs.Exchange.Streams
import HostLookup.Proofs.Exchange.Genuine
import HostLookup.Proofs.Message.Names
import HostLookup.Proofs.Message.Replies
import HostLookup.Proofs.Query.Punctual
import HostLookup.Proofs.Stub.Quitting
import HostLookup.Proofs.Query.Origin
import HostLookup.Proofs.Stub.Classification
import HostLookup.Proofs.Config.Unknown
import HostLookup.Proofs.Servers.Settled
import HostLookup.Proofs.Stub.Permuted
import HostLookup.Proofs.Query.Replies
import HostLookup.Proofs.Stub.Provenance
import HostLookup.Proofs.Sorting.Refinement
import HostLookup.Proofs.Sorting.Meeting
import HostLookup.Proofs.Sorting.Runs
import HostLookup.Proofs.Selection.Graded
import HostLookup.Proofs.Stub.Validation
import HostLookup.Proofs.Config.Kept
import HostLookup.Proofs.Search.Candidates
import HostLookup.Proofs.Search.Completion
import HostLookup.Proofs.Config.Deliveries
import HostLookup.Proofs.Config.Rejected
import HostLookup.Proofs.Message.Malformed
import HostLookup.Proofs.Message.Requests
import HostLookup.Proofs.Selection.Networks
import HostLookup.Proofs.Stub.Literals
import HostLookup.Proofs.Context.Variables
