import ReefChain.Lib.Bounded
import ReefChain.Lib.Fallible
import ReefChain.Lib.FiniteMap
import ReefChain.Lib.Run
import ReefChain.Lib.Walk
import ReefChain.Lib.Ranking
import ReefChain.Primitives
import ReefChain.Ledger
import ReefChain.Scheduler
import ReefChain.EvmAccounts.Mapping
import ReefChain.EvmAccounts.Pallet
import ReefChain.Evm.StorageMeter
import ReefChain.Evm.MeterTree
import ReefChain.Evm.OriginDeposit
import ReefChain.Evm.State
import ReefChain.Evm.Precompiles
import ReefChain.Evm.Handler
import ReefChain.Evm.Frames
import ReefChain.Evm.Gas
import ReefChain.Evm.Runner
import ReefChain.Evm.CoreAccess
import ReefChain.Evm.Pallet
import ReefChain.Evm.StateRule
import ReefChain.Evm.CodeRefs
import ReefChain.Evm.CodeLeaks
import ReefChain.Evm.Fresh
import ReefChain.Evm.Removal
import ReefChain.Poc.Pallet
import ReefChain.Poc.Locked
import ReefChain.Poc.History
import ReefChain.Poc.Election
import ReefChain.Poc.Council
import ReefChain.Poc.Rewards
import ReefChain.Lib.Scale
import ReefChain.Precompile.Input
import ReefChain.TransactionPayment
import ReefChain.Precompile.Core
import ReefChain.Precompile.Static
import ReefChain.Currencies
import ReefChain.Runtime
import ReefChain.EventQueue
import ReefChain.ScheduledFees
import ReefChain.Precompile.Panics
import ReefChain.Erc20.Standard
import ReefChain.Erc20.Sample
import ReefChain.Erc20.Balances
import ReefChain.Erc20.Reserves
import ReefChain.Evm.RunCost
import ReefChain.Evm.Backing
import ReefChain.Precompile.Words
import ReefChain.Lib.Loop
import ReefChain.Lib.Ascii
import ReefChain.EvmAccounts.Messages
import ReefChain.Rpc.Errors
import ReefChain.Rpc.Estimate
import ReefChain.TransactionPayment.Linear
import ReefChain.TransactionPayment.Scheduled
import ReefChain.TransactionPayment.Charge
import ReefChain.TransactionPayment.Multiplier
import ReefChain.TaskIds
import ReefChain.Lib.SortedVec
import ReefChain.Tokens.Pallet
import ReefChain.Tokens.Dust
import ReefChain.Tokens.Issuance
import ReefChain.Tokens.Frame
import ReefChain.Tokens.Locks
import ReefChain.Tokens.Reserves
import ReefChain.Tokens.Exact
import ReefChain.Staking.Spans
import ReefChain.Staking.StakingLedger
import ReefChain.Staking.State
import ReefChain.Staking.Slashing
import ReefChain.Staking.Calls
import ReefChain.Staking.Changes
import ReefChain.Staking.Deferred
