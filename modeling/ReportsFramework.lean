import ReportsFramework.FifoReference
import ReportsFramework.PeriodSplit
import ReportsFramework.Causality
import ReportsFramework.TransactionExclusion
import ReportsFramework.SignInRollback
import ReportsFramework.SqliteMigrations
import ReportsFramework.UpdatableColls
import ReportsFramework.SyncExclusion
import ReportsFramework.SessionConsistency
import ReportsFramework.FrameAlignment
import ReportsFramework.BalanceAtFrames
import ReportsFramework.SubAccountMembership
import ReportsFramework.SubAccountLedgerSums
import ReportsFramework.RateLimit
import ReportsFramework.ProcessJobs
import ReportsFramework.SchedulerFlag
import ReportsFramework.PriceRoundTrip
import ReportsFramework.LotFees
import ReportsFramework.AcquisitionDate
import ReportsFramework.FiniteEntries
import ReportsFramework.PeriodAttribution
import ReportsFramework.MissingPrices
import ReportsFramework.PriceTransparency
import ReportsFramework.TenantIsolation
import ReportsFramework.TempTables
import ReportsFramework.StatusMessages
import ReportsFramework.CandleCoverage
import ReportsFramework.ConsistencyGate
import ReportsFramework.RetryFairness
import ReportsFramework.QueriesInTrans
import ReportsFramework.Pagination
import ReportsFramework.ProgressClimbs
import ReportsFramework.BackupRetention
import ReportsFramework.SeriesMerge
import ReportsFramework.PrevDayBalance
import ReportsFramework.OpenPositions
import ReportsFramework.WeeklyRegroup
import ReportsFramework.ConvertData
import ReportsFramework.CandlePrices
import ReportsFramework.WhereCorrectness
import ReportsFramework.OrderBy
import ReportsFramework.FindPublicTrade
import ReportsFramework.MaxBalance
import ReportsFramework.MaxDrawdown
import ReportsFramework.ProgressErrors
import ReportsFramework.SubUserRequests
import ReportsFramework.SubUserRouting
import ReportsFramework.ConfReconcile
import ReportsFramework.PublicDataPaging
import ReportsFramework.LostRecords
import ReportsFramework.OrphanedJobs
import ReportsFramework.WsDelivery
import ReportsFramework.FinishedRuns
import ReportsFramework.PublicHistory
import ReportsFramework.ConvertCurrencyHook
import ReportsFramework.FeesReport
import ReportsFramework.WinLossReport
import ReportsFramework.TradedVolume
