import ScriptHost.Text.Case
import ScriptHost.Text.Quoted
import ScriptHost.Number.Numeral
import ScriptHost.Number.Decimal
import ScriptHost.Severity.Mask
import ScriptHost.Identity
import ScriptHost.Table
import ScriptHost.Value
import ScriptHost.CallStack
import ScriptHost.IdAllocator
import ScriptHost.Digest.Sha256
import ScriptHost.Template
import ScriptHost.Registry.ConstantSet
import ScriptHost.Lifecycle.Tracker
import ScriptHost.Output.Buffer
import ScriptHost.Files.Tree
import ScriptHost.Cache.Cbor
import ScriptHost.Cache.Store
import ScriptHost.Host
import ScriptHost.Boundary
import ScriptHost.Registry.FunctionRegistry
import ScriptHost.Registry.ConstantRegistry
import ScriptHost.Exceptions
import ScriptHost.LateBinding
import ScriptHost.Lifecycle.Finalization
import ScriptHost.Settings.Overlay
import ScriptHost.Execution
import ScriptHost.Toml.Document
import ScriptHost.Manifest
import ScriptHost.CommandLine
import ScriptHost.Unwinding
import ScriptHost.Inspect.Values
import ScriptHost.Inspect.Storage
import ScriptHost.Main
import ScriptHost.Template.Integer
import ScriptHost.Template.Real
import ScriptHost.Template.Text
import ScriptHost.Template.Shape
import ScriptHost.Template.Directive
import ScriptHost.Proofs.Embedder.Operation
import ScriptHost.Proofs.Embedder.Code
import ScriptHost.Proofs.Containers
import ScriptHost.Proofs.Names
import ScriptHost.Proofs.Lifecycle.Tracker
import ScriptHost.Proofs.Embedder.Course
import ScriptHost.Proofs.Embedder.Extension
import ScriptHost.Proofs.Embedder.Soundness
import ScriptHost.Proofs.Embedder.Following
import ScriptHost.Proofs.Embedder.Services
import ScriptHost.Proofs.Embedder.Persistence
import ScriptHost.Proofs.Embedder.Registries
import ScriptHost.Proofs.Embedder.Objects
import ScriptHost.Proofs.Embedder.Loading
import ScriptHost.Proofs.Embedder.Contexts
import ScriptHost.Proofs.Embedder.Requests
import ScriptHost.Proofs.Lifecycle.Handles
import ScriptHost.Proofs.Lifecycle.Destruction
import ScriptHost.Proofs.Output.Route
import ScriptHost.Proofs.Output.Conservation
import ScriptHost.Proofs.Output.Closure
import ScriptHost.Proofs.Boundary.Classification
import ScriptHost.Proofs.Registry.Constants
import ScriptHost.Proofs.Registry.Inheritance
import ScriptHost.Proofs.Registry.Stability
import ScriptHost.Proofs.Cache.Opening
import ScriptHost.Proofs.Registry.Hooks
import ScriptHost.Proofs.Registry.Arrival
import ScriptHost.Proofs.Calls.Slots
import ScriptHost.Proofs.Calls.Balance
import ScriptHost.Proofs.Calls.Recollection
import ScriptHost.Proofs.Calls.LateBinding
import ScriptHost.Proofs.Calls.Refinement
import ScriptHost.Proofs.Modules.Publication
import ScriptHost.Proofs.Modules.Sharing
import ScriptHost.Proofs.Modules.Once
import ScriptHost.Proofs.Modules.Twins
import ScriptHost.Proofs.Modules.Blindness
import ScriptHost.Proofs.Modules.Transparency
import ScriptHost.Proofs.Modules.Fallback
import ScriptHost.Proofs.Cache.Acceptance
import ScriptHost.Proofs.Cache.Damage
import ScriptHost.Proofs.Registry.Statics
import ScriptHost.Proofs.Embedder.Directness
import ScriptHost.Proofs.Embedder.Conduct
import ScriptHost.Proofs.Output.Flushing
import ScriptHost.Proofs.Boundary.Handling
import ScriptHost.Proofs.Lifecycle.Passes
import ScriptHost.Proofs.Lifecycle.Shutdown
import ScriptHost.Proofs.Contexts.Isolation
import ScriptHost.Proofs.Contexts.Numbers
import ScriptHost.Proofs.Registry.Registration
import ScriptHost.Proofs.Severity.MaskGrammar
import ScriptHost.Proofs.Boundary.History
import ScriptHost.Proofs.Output.Closing
import ScriptHost.Proofs.Registry.Autoloading
import ScriptHost.Proofs.Output.Cleaning
import ScriptHost.Proofs.Registry.StaticScopes
import ScriptHost.Proofs.Registry.Meaning
import ScriptHost.Proofs.Registry.Declaring
import ScriptHost.Proofs.Modules.Conflicts
import ScriptHost.Proofs.Modules.Resumption
import ScriptHost.Proofs.Modules.Failure
import ScriptHost.Proofs.Modules.Likeness
import ScriptHost.Proofs.Modules.Repetition
import ScriptHost.Proofs.Modules.Traceless
import ScriptHost.Proofs.Registry.Drawing
import ScriptHost.Proofs.Modules.Visits
import ScriptHost.Proofs.Modules.Rejection
import ScriptHost.Proofs.Boundary.Catching
import ScriptHost.Proofs.Settings.Overlay
import ScriptHost.Proofs.Settings.Directories
import ScriptHost.Proofs.Settings.IncludePath
import ScriptHost.Proofs.Severity.Silencing
import ScriptHost.Proofs.Files.Paths
import ScriptHost.Proofs.Files.ManifestSearch
import ScriptHost.Proofs.Boundary.Exiting
