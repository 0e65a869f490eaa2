import Stasis.Text.Alphabetic
import Stasis.Text.Blank
import Stasis.Text.Extending
import Stasis.Text.Numeric
import Stasis.Text.Printable
import Stasis.Text.Edit
import Stasis.Text.Hex
import Stasis.Text.Quoted
import Stasis.Number.Arithmetic
import Stasis.Number.Layout
import Stasis.Number.Reader
import Stasis.Json.Printer
import Stasis.Json.Reader
import Stasis.Json.Shape
import Stasis.Script.Parser
import Stasis.Script.Scope
import Stasis.Script.Instrument
import Stasis.Heap.Store
import Stasis.Heap.Symbols
import Stasis.Config
import Stasis.Error
import Stasis.Event
import Stasis.HostPath
import Stasis.References
import Stasis.Registry
import Stasis.Digest
import Stasis.Envelope
import Stasis.Realm.Basic
import Stasis.Realm.Machine
import Stasis.Evaluate.Statement
import Stasis.Builtin.Dispatch
import Stasis.Builtin.Globals
import Stasis.Suspend
import Stasis.Resume
import Stasis.RoundTrip
import Stasis.Engine
import Stasis.Command
import Stasis.Main
import Stasis.Proofs.Copy
import Stasis.Proofs.Closed
import Stasis.Proofs.Moderate
import Stasis.Proofs.Evolution
import Stasis.Proofs.Behaves.Basic
import Stasis.Proofs.Behaves.Realm
import Stasis.Proofs.Behaves.Evaluate
import Stasis.Proofs.Behaves.Suspend
import Stasis.Proofs.Behaves.Resume
import Stasis.Proofs.Behaves.Builtin
import Stasis.Proofs.Behaves.Engine
import Stasis.Proofs.OpenSessions
import Stasis.Proofs.Change
import Stasis.Proofs.Integrity
import Stasis.Proofs.Acyclic
import Stasis.Proofs.Adds.Basic
import Stasis.Proofs.Adds.Realm
import Stasis.Proofs.Adds.Native
import Stasis.Proofs.Adds.Path
import Stasis.Proofs.Adds.Suspend
import Stasis.Proofs.Adds.Globals
import Stasis.Proofs.Adds.Engine
import Stasis.Proofs.Given
import Stasis.Proofs.Sound
import Stasis.Proofs.Supplied
import Stasis.Proofs.Elsewhere
import Stasis.Proofs.Exact
import Stasis.Proofs.Lengths
import Stasis.Proofs.Windows
import Stasis.Proofs.Declarations
import Stasis.Proofs.Printed
import Stasis.Proofs.Formed
import Stasis.Proofs.Parsed
import Stasis.Proofs.Whole
import Stasis.Proofs.Shown
import Stasis.Proofs.ScriptForm
import Stasis.Proofs.Repeated
import Stasis.Proofs.Upheld
import Stasis.Proofs.Undisturbed
import Stasis.Proofs.Quiet
import Stasis.Proofs.Verified
import Stasis.Proofs.Unambiguous
import Stasis.Proofs.CallDepth
import Stasis.Proofs.Defined
import Stasis.Proofs.HostRoots
import Stasis.Proofs.Alike
import Stasis.Proofs.Script.Woven
import Stasis.Proofs.Script.Lookups
import Stasis.Proofs.Script.Brackets
import Stasis.Proofs.Script.Gaps
import Stasis.Proofs.Script.Nested
import Stasis.Proofs.Script.Precedence
import Stasis.Proofs.BigIntegers
import Stasis.Proofs.AccessPaths
import Stasis.Proofs.Script.SourceOrder
import Stasis.Proofs.KeyOrder
import Stasis.Proofs.Script.Bindings
import Stasis.Proofs.Unfolding
