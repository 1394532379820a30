import Binbot.Properties.CandleOrder
import Binbot.Properties.PhantomOrders
import Binbot.Properties.CrashedPersist
import Binbot.Properties.PositionLimit
import Binbot.Async.Scheduler
import Binbot.Properties.TrackerAgreement
import Binbot.Properties.BusShutdown
import Binbot.Properties.DrawdownSession
import Binbot.Properties.RestartTransparency
import Binbot.Properties.ExitDecisions
import Binbot.Properties.PollAtomicity
import Binbot.Properties.MarginGate
import Binbot.Properties.PositionBook
import Binbot.Properties.HaltGate
import Binbot.Execution.BinanceBroker
import Binbot.Execution.OrderManager
import Binbot.Execution.TradeTracker
import Binbot.Properties.CancelAll
import Binbot.Properties.ReduceOnly
import Binbot.Properties.ClientTraffic
import Binbot.Properties.ClosingLive
import Binbot.Properties.TrackedBook
import Binbot.Properties.BusDelivery
import Binbot.Properties.TerminalOrders
import Binbot.Properties.LotBoundary
import Binbot.Properties.WorkingOrders
import Binbot.Properties.SimulatedOco
import Binbot.Properties.LimitFills
import Binbot.Properties.CheckedTrade
import Binbot.Properties.MarkedEquity
import Binbot.Properties.TrailingLevel
import Binbot.Properties.IbkrIdentity
import Binbot.Properties.StopPrices
import Binbot.Properties.BinanceOco
import Binbot.Properties.EntryLimit
import Binbot.Properties.FillOrKill
import Binbot.Properties.Participation
import Binbot.Properties.TradeStretches
import Binbot.Properties.RoundTrips
import Binbot.Properties.FillAccounting
import Binbot.Properties.MissedFills
import Binbot.Properties.ReducingOrders
import Binbot.Properties.RateLimit
import Binbot.Execution.SymbolSettings
import Binbot.Properties.SymbolSetup
import Binbot.Properties.LeverageInForce
import Binbot.Data.Rounding
import Binbot.Data.Binary64
import Binbot.Data.MergeRuns
import Binbot.Feeds.BarAggregator
import Binbot.Properties.BarPartition
import Binbot.Dashboard.Candles
import Binbot.Properties.Resampling
import Binbot.Feeds.UniverseFeed
import Binbot.Properties.FeedWindows
import Binbot.Server.KpiLoop
import Binbot.Properties.ReportedDrawdown
import Binbot.Properties.DailyLossShown
import Binbot.Server.CloseDesk
import Binbot.Properties.CloseReasonUse
import Binbot.Data.Utf
import Binbot.Server.ControlChannel
import Binbot.Properties.CommandChannel
import Binbot.Data.TextLines
import Binbot.Data.JsonLines
import Binbot.Utils.DailyLog
import Binbot.Properties.DailyHistory
import Binbot.Properties.TornAppends
import Binbot.Utils.SnapshotBytes
import Binbot.Properties.AnySnapshot
import Binbot.Data.Blocks
import Binbot.Data.Peaks
import Binbot.Data.Budget
import Binbot.Data.Newest
import Binbot.Risk.PositionSizing
import Binbot.Dashboard.CandleChart
import Binbot.Server.WorkRules
import Binbot.Server.DashboardTabs
import Binbot.Server.TradeRules
import Binbot.Properties.DrawdownStatistics
import Binbot.Properties.PositionSizes
import Binbot.Properties.ChartRendering
import Binbot.Properties.LateTabs
import Binbot.Data.SortCut
import Binbot.Properties.ReplayCausality
import Binbot.Properties.ReplayHalt
import Binbot.Properties.TradingCosts
import Binbot.Properties.AccountSwitch
import Binbot.Execution.Slippage
import Binbot.Properties.Shortfall
import Binbot.Data.Origins
import Binbot.Properties.JustifiedOrders
import Binbot.Data.Pacing
import Binbot.Properties.EagerRate
import Binbot.Properties.SymbolsApart
import Binbot.Data.DictMap
import Binbot.Properties.MirroredTrades
import Binbot.Data.CatchUp
import Binbot.Properties.ManagedFills
import Binbot.Properties.FillsCatchUp
import Binbot.Properties.FlattenAll
import Binbot.Data.Bursts
import Binbot.Feeds.Backfill
import Binbot.Properties.BackfillPace
import Binbot.Properties.SeededFeed
import Binbot.Properties.BackfillEnds
import Binbot.Properties.RestartHistory
import Binbot.Execution.Reconnect
import Binbot.Properties.ReconnectPace
