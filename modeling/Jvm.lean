import Jvm.Class.ClassDecoder
import Jvm.Class.Summary
import Jvm.Machine.ThreadStep
import Jvm.Proofs.Attributes.LengthChange
import Jvm.Proofs.Attributes.LineNumbers
import Jvm.Proofs.Descriptor.Language
import Jvm.Proofs.Equality.ClassFiles
import Jvm.Proofs.Faults.Log
import Jvm.Proofs.Faults.Places
import Jvm.Proofs.Faults.Truncation
import Jvm.Proofs.Faults.Truth
import Jvm.Proofs.Machine.Arguments
import Jvm.Proofs.Machine.References
import Jvm.Proofs.Pool.Lookups
import Jvm.Proofs.Pool.Stream
import Jvm.Proofs.Machine.Runs
import Jvm.Proofs.Machine.StackList
import Jvm.Proofs.Text.Concatenation
import Jvm.Proofs.Machine.StackCells
import Jvm.Proofs.Machine.LastWrite
import Jvm.Proofs.Machine.TypedStack
import Jvm.Proofs.Machine.BoundedLifo
import Jvm.Proofs.Machine.StaleCells
import Jvm.Proofs.Machine.WidePairs
import Jvm.Proofs.Pool.Filling
import Jvm.Proofs.Members.Search
import Jvm.Proofs.Faults.Shift
import Jvm.Proofs.Decoding.ReadRuns
import Jvm.Proofs.Attributes.Size
