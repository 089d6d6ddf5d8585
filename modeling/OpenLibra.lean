import OpenLibra.Accumulator.Postorder
import OpenLibra.Accumulator.FrozenSubTrees
import OpenLibra.Accumulator.Subtrees
import OpenLibra.SparseMerkle.RangeProof
import OpenLibra.Ledger.TransactionList
import OpenLibra.Ledger.AccountTransactions
import OpenLibra.Crypto.ThresholdSoundness
import OpenLibra.Validators.Certificates
import OpenLibra.LightClient.HonestChain
import OpenLibra.Noise.Channel
import OpenLibra.BlockExecutor.SchedulerGuarantees
import OpenLibra.BlockExecutor.Serializability
import OpenLibra.BlockExecutor.EarlyTermination
import OpenLibra.Accounts.OwnershipWalk
import OpenLibra.Accounts.Derivations
import OpenLibra.Accounts.LinearTransfers
import OpenLibra.Accounts.GuidUniqueness
import OpenLibra.Accounts.OriginatingAddress
import OpenLibra.Accounts.ResourceAccountUniqueness
import OpenLibra.Transactions.Execution
import OpenLibra.Packages.Agreement
import OpenLibra.Framework.GasCurves
import OpenLibra.Pools.Fairness
import OpenLibra.Framework.Delegation
import OpenLibra.BlockExecutor.Materialization
import OpenLibra.BlockExecutor.ModuleRaces
import OpenLibra.ChangeSets.Composition
import OpenLibra.Gas.NativeRelease
import OpenLibra.Gas.ValueSize
import OpenLibra.Ledger.StateKey
import OpenLibra.LightClient.WaypointText
import OpenLibra.MoveStd.BitVector
import OpenLibra.MoveStd.Features
import OpenLibra.MoveStd.FixedPoint32
import OpenLibra.MoveStd.Math
import OpenLibra.MoveStd.Vectors
import OpenLibra.Rust.Checked
import OpenLibra.Rust.RepeatVec
