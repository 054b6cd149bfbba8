import DefiStablecoin.Solidity.Word
import DefiStablecoin.Solidity.Tx
import DefiStablecoin.Solidity.Keeps
import DefiStablecoin.Solidity.Ledger
import DefiStablecoin.Solidity.Machine
import DefiStablecoin.Solidity.Progress
import DefiStablecoin.Solidity.Rounding
import DefiStablecoin.Solidity.Commutation
import DefiStablecoin.OpenZeppelin.ERC20
import DefiStablecoin.OpenZeppelin.Calls
import DefiStablecoin.Contracts.Errors
import DefiStablecoin.Contracts.DecentralizedStableCoin
import DefiStablecoin.Contracts.World
import DefiStablecoin.Contracts.OracleLib
import DefiStablecoin.Contracts.DSCEngine
import DefiStablecoin.Lending.Book
import DefiStablecoin.Lending.Step
import DefiStablecoin.Lending.Backing
import DefiStablecoin.Proofs.Valuation
import DefiStablecoin.Proofs.Effects
import DefiStablecoin.Proofs.Calls
import DefiStablecoin.Proofs.Keeping
import DefiStablecoin.Proofs.Standard
import DefiStablecoin.Proofs.Refinement
import DefiStablecoin.Proofs.Accounting
import DefiStablecoin.Proofs.Moves
import DefiStablecoin.Proofs.Wallets
import DefiStablecoin.Proofs.Locality
import DefiStablecoin.Proofs.Registry
import DefiStablecoin.Proofs.Outsiders
import DefiStablecoin.System.Deployment
import DefiStablecoin.System.Invariants
import DefiStablecoin.System.Users
import DefiStablecoin.Properties.Supply
import DefiStablecoin.Properties.Custody
import DefiStablecoin.Properties.Health
import DefiStablecoin.Properties.Solvency
import DefiStablecoin.Properties.Repayment
import DefiStablecoin.Properties.Liquidation
import DefiStablecoin.Properties.Oracle
import DefiStablecoin.Properties.Registry
import DefiStablecoin.System.Reentrancy
import DefiStablecoin.System.Surroundings
import DefiStablecoin.Properties.Reentrancy
import DefiStablecoin.Properties.BadDebt
import DefiStablecoin.Properties.Decimals
import DefiStablecoin.Properties.Splitting
import DefiStablecoin.Properties.Closing
import DefiStablecoin.Properties.Minting
import DefiStablecoin.Properties.RoundTrip
import DefiStablecoin.Properties.Shielding
import DefiStablecoin.Properties.Commutation
import DefiStablecoin.Properties.Conversions
import DefiStablecoin.Properties.DebtBound
import DefiStablecoin.Properties.Monotonicity
import DefiStablecoin.Properties.PriceBand
import DefiStablecoin.Properties.WindDown
import DefiStablecoin.Properties.Guard
import DefiStablecoin.Solidity.Logged
import DefiStablecoin.OpenZeppelin.Events
import DefiStablecoin.Contracts.Events
import DefiStablecoin.Proofs.Erasure
import DefiStablecoin.Proofs.Indexing
import DefiStablecoin.System.Log
import DefiStablecoin.Properties.Replay
import DefiStablecoin.ForgeStd.StdUtils
import DefiStablecoin.Fuzz.Handler
import DefiStablecoin.Fuzz.Campaign
import DefiStablecoin.Properties.Campaign
import DefiStablecoin.OpenZeppelin.Allowances
import DefiStablecoin.Properties.Allowances
import DefiStablecoin.Chainlink.MockV3Aggregator
import DefiStablecoin.System.Network
import DefiStablecoin.Properties.Staleness
import DefiStablecoin.Solidity.Raises
import DefiStablecoin.Proofs.Causes
import DefiStablecoin.Properties.Causes
import DefiStablecoin.System.Circulation
import DefiStablecoin.Properties.Protocol
