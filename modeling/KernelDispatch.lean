import KernelDispatch.Environment
import KernelDispatch.Factory
import KernelDispatch.Operation.Standard
import KernelDispatch.Scratch.Holders
import KernelDispatch.Scripted
import KernelDispatch.Proofs.Adapter.Plan
import KernelDispatch.Proofs.Adapter.Run
import KernelDispatch.Proofs.Adapter.Formats
import KernelDispatch.Proofs.Dispatch.Steady
import KernelDispatch.Proofs.Dispatch.Built
import KernelDispatch.Proofs.Dispatch.Choose
import KernelDispatch.Proofs.Dispatch.Independence
import KernelDispatch.Proofs.Dispatch.Least
import KernelDispatch.Proofs.Adapter.Confined
import KernelDispatch.Proofs.Adapter.Handover
import KernelDispatch.Proofs.Adapter.Preconverted
import KernelDispatch.Proofs.Adapter.Failures
import KernelDispatch.Proofs.Adapter.Unstaged
import KernelDispatch.Proofs.Dispatch.Conduct
import KernelDispatch.Proofs.Dispatch.Recorded
import KernelDispatch.Proofs.Dispatch.Consented
import KernelDispatch.Proofs.Dispatch.Foresight
import KernelDispatch.Proofs.Dispatch.Relaid
import KernelDispatch.Proofs.Registration
import KernelDispatch.Proofs.Operation.Agreement
import KernelDispatch.Proofs.Operation.Outcomes
import KernelDispatch.Proofs.Operation.MatMulCalls
import KernelDispatch.Proofs.Operation.PoolingCalls
import KernelDispatch.Proofs.Memory.Transfer
import KernelDispatch.Proofs.Memory.Accesses
import KernelDispatch.Proofs.Dispatch.Shared
import KernelDispatch.Proofs.Dispatch.Followed
import KernelDispatch.Proofs.Dispatch.Direct
import KernelDispatch.Proofs.Operation.Negotiation
import KernelDispatch.Proofs.Settings.Written
import KernelDispatch.Proofs.Dispatch.Inquiries
import KernelDispatch.Proofs.Dispatch.Lasting
import KernelDispatch.Proofs.Dispatch.Attempts
import KernelDispatch.Proofs.Dispatch.Latest
import KernelDispatch.Proofs.Adapter.Construction
import KernelDispatch.Proofs.Memory.Ranges
import KernelDispatch.Proofs.Memory.Lending
import KernelDispatch.Proofs.Operation.Narrowing
import KernelDispatch.Proofs.Adapter.Recycling
import KernelDispatch.Proofs.Operation.Schedules
import KernelDispatch.Proofs.Operation.CheckedProducts
import KernelDispatch.Proofs.Operation.SizeRanges
import KernelDispatch.Proofs.Dispatch.Filter
import KernelDispatch.Proofs.Memory.PermutedAxes
import KernelDispatch.Proofs.Operation.ElementwiseCalls
import KernelDispatch.Proofs.Operation.ElementwisePadding
import KernelDispatch.Proofs.Settings.Policies
import KernelDispatch.Proofs.Settings.Snapshots
import KernelDispatch.Proofs.Constraints
import KernelDispatch.Proofs.Memory.Odometer
