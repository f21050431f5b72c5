import CompilingProxy.Diagnostic.Document
import CompilingProxy.Main
import CompilingProxy.Proofs.Emit.Blind
import CompilingProxy.Proofs.Emit.Elision
import CompilingProxy.Proofs.Host.Reachability
import CompilingProxy.Proofs.Host.Resolution
import CompilingProxy.Proofs.Gateway.Caching
import CompilingProxy.Proofs.Time.Calendar
import CompilingProxy.Proofs.Time.Reading
import CompilingProxy.Proofs.Gateway.Origin
import CompilingProxy.Proofs.Host.Flight
import CompilingProxy.Proofs.Host.Forecast
import CompilingProxy.Proofs.Emit.Lowering
import CompilingProxy.Proofs.Emit.Reading
import CompilingProxy.Proofs.Emit.Totality
import CompilingProxy.Proofs.Emit.Types
import CompilingProxy.Proofs.Gateway.Honesty
import CompilingProxy.Proofs.Host.Address
import CompilingProxy.Proofs.Host.Memory
import CompilingProxy.Proofs.Check.Members
import CompilingProxy.Proofs.Host.Succession
import CompilingProxy.Proofs.Gateway.Bypass
import CompilingProxy.Proofs.Gateway.Answer
import CompilingProxy.Proofs.Grammar.Literal
import CompilingProxy.Proofs.Module.Sources
import CompilingProxy.Proofs.Emit.Untyped
import CompilingProxy.Proofs.Analysis.Exported
import CompilingProxy.Proofs.Check.Exported
import CompilingProxy.Proofs.Text.Alike
import CompilingProxy.Proofs.Emit.Declaring
import CompilingProxy.Proofs.Store.Calls
import CompilingProxy.Proofs.Text.Offsets
import CompilingProxy.Proofs.Emit.Braces
import CompilingProxy.Proofs.Emit.Strings
import CompilingProxy.Proofs.Check.Enum
import CompilingProxy.Proofs.Check.Faults
import CompilingProxy.Proofs.Emit.TypeUse
import CompilingProxy.Proofs.Emit.Members
import CompilingProxy.Proofs.Check.Duplicates
import CompilingProxy.Proofs.Text.LineIndex
import CompilingProxy.Proofs.Module.Canonical
import CompilingProxy.Proofs.Config.Recording
import CompilingProxy.Proofs.Emit.Removal
