import TxHarbor.Nonce.AdminReplay
import TxHarbor.Nonce.Grants
import TxHarbor.Nonce.FrontierRuns
import TxHarbor.Nonce.Divergence
import TxHarbor.Nonce.Evidence
import TxHarbor.Nonce.HoldRelease
import TxHarbor.Indexer.Coverage
import TxHarbor.Indexer.Resume
import TxHarbor.Indexer.Forks
import TxHarbor.Indexer.Leftovers
import TxHarbor.Indexer.Confirmation
import TxHarbor.Indexer.Lease
import TxHarbor.Indexer.Scanner
import TxHarbor.Indexer.Agreement
import TxHarbor.Indexer.CanonicalChain
import TxHarbor.Execution.Fencing
import TxHarbor.Execution.Noninterference
import TxHarbor.Execution.Unresolved
import TxHarbor.Execution.Drivers
import TxHarbor.Execution.Lagging
import TxHarbor.Execution.ReceiptEvents
import TxHarbor.Lifecycle.Freezing
import TxHarbor.Lifecycle.Fees
import TxHarbor.Signer.Binding
import TxHarbor.Reconciliation.Coverage
import TxHarbor.Events.Publisher
import TxHarbor.Events.Loss
import TxHarbor.Reconciliation.Verdicts
import TxHarbor.Reconciliation.Aggregates
import TxHarbor.RateLimit.Limiter
import TxHarbor.Recovery.Evidence
import TxHarbor.Recovery.TargetGuard
import TxHarbor.Events.Retention
import TxHarbor.Events.Operations
import TxHarbor.Withdrawal.Replay
