import CyberCash.Library.Solidity
import CyberCash.Library.Rounding
import CyberCash.Library.LazyIndex
import CyberCash.Library.EagerPot
import CyberCash.Library.TimedRun
import CyberCash.Library.Hashing
import CyberCash.Library.CappedExchange
import CyberCash.Library.Reentrancy
import CyberCash.Contract.ERC20
import CyberCash.Contract.ERC20Permit
import CyberCash.Contract.EIP712
import CyberCash.Contract.Token
import CyberCash.Contract.Calls
import CyberCash.Contract.SafeERC20
import CyberCash.Contract.Migrator
import CyberCash.Contract.Reentrancy
import CyberCash.Contract.Site
import CyberCash.Semantics.Views
import CyberCash.Semantics.Effects
import CyberCash.Semantics.Invariant
import CyberCash.Semantics.Inversion
import CyberCash.Semantics.Approvals
import CyberCash.Semantics.TypedData
import CyberCash.Semantics.Totality
import CyberCash.Semantics.Flows
import CyberCash.Semantics.Timeline
import CyberCash.Semantics.History
import CyberCash.Semantics.EventLog
import CyberCash.Semantics.Migration
import CyberCash.Semantics.EagerToken
import CyberCash.Semantics.StandardToken
import CyberCash.Results.Solvency
import CyberCash.Results.LogReplay
import CyberCash.Results.EagerLedger
import CyberCash.Results.Spendability
import CyberCash.Results.LifeCycle
import CyberCash.Results.BurnScore
import CyberCash.Results.Protection
import CyberCash.Results.Inflation
import CyberCash.Results.ProRata
import CyberCash.Results.Transfers
import CyberCash.Results.TransferSplitting
import CyberCash.Results.PlainToken
import CyberCash.Results.Dilution
import CyberCash.Results.Distribution
import CyberCash.Results.Unclaimable
import CyberCash.Results.BlockOrder
import CyberCash.Results.PoolBurns
import CyberCash.Results.Affordability
import CyberCash.Results.Income
import CyberCash.Results.SilentAccount
import CyberCash.Results.Spending
import CyberCash.Results.Permits
import CyberCash.Results.ClaimTiming
import CyberCash.Results.ScoreTrading
import CyberCash.Results.ScoreShifting
import CyberCash.Results.Pricing
import CyberCash.Results.MigratorAccounting
import CyberCash.Results.Reentrancy
import CyberCash.Results.Offers
import CyberCash.Results.MigrationSplitting
import CyberCash.Results.MigrationOrder
import CyberCash.Results.Migration
import CyberCash.Results.JointLedger
