import GoExchange.DispatcherProgress
import GoExchange.HoldsRun
import GoExchange.EnginePriority
import GoExchange.SettlementPermutation
import GoExchange.RetryWorker
import GoExchange.HoldBatch
import GoExchange.EngineWindows
import GoExchange.DispatcherBroadcasts
import GoExchange.LockWaits
import GoExchange.AverageBuyPrice
import GoExchange.OrderFingerprint
import GoExchange.EngineCancelPhase
import GoExchange.ShardedQueries
import GoExchange.SweepSlices
import GoExchange.Reconciliation
import GoExchange.CancelWorker
import GoExchange.OutboxReplay
import GoExchange.TradeForms
import GoExchange.TransferMoney
import GoExchange.OrderRun
import GoExchange.EngineProgress
