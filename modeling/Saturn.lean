import Saturn.Machine.Word
import Saturn.Machine.Float
import Saturn.Machine.Fixed
import Saturn.Machine.Ramp
import Saturn.Transition.Run
import Saturn.Keyed.Pool
import Saturn.Keyed.Custody
import Saturn.CpiResults
import Saturn.Staking.Solvency
import Saturn.Bond.Backing
import Saturn.Bond.Rewards
import Saturn.Bond.Supply
import Saturn.Bond.Payment
import Saturn.Bond.Redemption
import Saturn.Rebalance.Lending
import Saturn.Rebalance.Cycle
import Saturn.Bond.Cashout
import Saturn.Codec.Bytes
import Saturn.State.Layout
import Saturn.Authority
import Saturn.Rebalance.Epoch
import Saturn.Staking.Counters
import Saturn.Bond.Recount
import Saturn.Rebalance.Wallet
import Saturn.Rebalance.Position
import Saturn.Rebalance.Snapshot
import Saturn.Rebalance.Placement
import Saturn.Staking.RoundTrip
import Saturn.Bond.Rounds
import Saturn.Bond.Terms
import Saturn.Bond.Delivery
import Saturn.Rebalance.Refresh
import Saturn.Isolation
import Saturn.Rebalance.Budget
import Saturn.Rebalance.Accuracy
import Saturn.Bond.Overpay
import Saturn.Bond.Divisors
import Saturn.Staking.Conservation
import Saturn.Machine.Decimal
import Saturn.Rebalance.Accrual
import Saturn.Rebalance.Utilization
import Saturn.Rebalance.Portfolio
import Saturn.Rebalance.Curve
import Saturn.Instructions.StakePool
import Saturn.Rebalance.StakePrice
import Saturn.Rebalance.Vaults
import Saturn.Rebalance.Wsol
import Saturn.Klend.Fraction
import Saturn.Klend.Curve
import Saturn.Klend.Reserve
import Saturn.Vault.Price
import Saturn.Klend.Supply
import Saturn.Klend.ReserveRuns
import Saturn.Klend.Interest
import Saturn.Keyed.Slots
import Saturn.Klend.Obligation
import Saturn.Klend.Account
import Saturn.Klend.Debt
import Saturn.Klend.Fees
import Saturn.Rebalance.KaminoValue
import Saturn.Live
import Saturn.Klend.Prices
import Saturn.Klend.PriceChecks
import Saturn.Klend.Limits
import Saturn.Rebalance.Unlocking
import Saturn.Klend.Borrowers
import Saturn.Machine.Double
