import Tusim.Dma.Completion
import Tusim.Dma.Ownership
import Tusim.Dma.Aging
import Tusim.Dma.Fairness
import Tusim.Isa.Coverage
import Tusim.Isa.Soundness
import Tusim.Isa.SpillCode
import Tusim.Isa.Dataflow
import Tusim.Cmdq.Accounting
import Tusim.Cmdq.Signals
import Tusim.Cmdq.Ordering
import Tusim.Cmdq.Waiting
import Tusim.Agen.Im2col
import Tusim.Agen.Chain
import Tusim.Weights.RoundTrip
import Tusim.Weights.Selection
import Tusim.Dram.Deferral
import Tusim.Dram.FixedRefresh
import Tusim.Dram.Channels
import Tusim.Dram.RowBuffer
import Tusim.Pipeline.Preload
import Tusim.Pipeline.Draining
import Tusim.Pipeline.Buffers
import Tusim.Sparsity.Tiling
import Tusim.Sparsity.Pruning
import Tusim.Sparsity.DenseProduct
import Tusim.Context.Redundancy
import Tusim.Context.Switching
import Tusim.Perf.Hazards
import Tusim.Perf.EventTrace
import Tusim.Cluster.AllReduce
import Tusim.AccessLaw
import Tusim.Config.Fidelity
import Tusim.BufferModes
import Tusim.Dma.LegacyCalls
import Tusim.Compute.CleanFailure
import Tusim.Attention.AutoTile
import Tusim.Pooling.Correctness
import Tusim.Isa.Validation
import Tusim.Isa.Policies
import Tusim.Dma.BurstSplitting
import Tusim.Dma.RoundTrip
import Tusim.Dma.DrrSelection
import Tusim.Cluster.Traffic
import Tusim.Dram.Symmetry
import Tusim.Precision.Narrowing
import Tusim.BankBudget
import Tusim.Json.Lengths
import Tusim.Weights.Canonical
import Tusim.Precision.IntegerDot
import Tusim.Precision.InPlace
import Tusim.Isa.SpillStatistics
import Tusim.Pipeline.Statistics
import Tusim.Attention.QueryLoop
import Tusim.Convolution.Estimates
import Tusim.Attention.LogSoftmax
import Tusim.Perf.Transfers
import Tusim.Context.Scheduling
import Tusim.Normalisation
import Tusim.Asm.Sections
import Tusim.Dma.Serialisation
import Tusim.Elementwise.Fusion
import Tusim.Precision.Fp8
