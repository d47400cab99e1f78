import KANet.Broadcast.BetRows
import KANet.Broadcast.MarketRows
import KANet.Broadcast.Reassembly
import KANet.Broadcast.SignRequests
import KANet.Broker.ConvoLock
import KANet.Broker.OrderState
import KANet.Broker.PaymentsRun
import KANet.Broker.RefundRun
import KANet.Covenant.Claims
import KANet.Covenant.Folding
import KANet.Covenant.PayoutShardV2
import KANet.Covenant.PayoutShardV2Run
import KANet.Covenant.RootRun
import KANet.Covenant.WinningsPool
import KANet.Covenant.ZkMarketRun
import KANet.Payout.BetOrder
import KANet.Payout.FeeRulesText
import KANet.Payout.Payability
import KANet.Payout.Proofs
import KANet.Predict.CustodialPayout
import KANet.Predict.DisputeSettle
import KANet.Predict.Escrow
import KANet.Predict.OracleVotes
import KANet.Predict.TxSign
import KANet.Register.LeafServed
import KANet.Register.ShardAccounts
import KANet.Relay.EndBlock
import KANet.Relay.HandshakeRun
import KANet.Relay.InputChoice
import KANet.Relay.LockDaa
import KANet.Relay.TxIndex
import KANet.Relay.WalletRun
import KANet.Settle.BetReaders
import KANet.Settle.BettorSet
import KANet.Settle.ChunkPlan
import KANet.Settle.ChunkSpine
import KANet.Settle.Chunks
import KANet.Settle.ClaimLoop
import KANet.Settle.ClaimResume
import KANet.Settle.ClaimThread
import KANet.Settle.CloseVotes
import KANet.Settle.CommitteeLists
import KANet.Settle.CommitteeSampler
import KANet.Settle.Consensus
import KANet.Settle.DriverPlan
import KANet.Settle.Encodings
import KANet.Settle.FeeRecipients
import KANet.Settle.FoldTree
import KANet.Settle.MarketKinds
import KANet.Settle.Metadata
import KANet.Settle.NativeVote
import KANet.Settle.OracleMembership
import KANet.Settle.Parimutuel
import KANet.Settle.PoolAnchor
import KANet.Settle.PoolPayouts
import KANet.Settle.PoolSpine
import KANet.Settle.Predicate
import KANet.Settle.PresetFees
import KANet.Settle.ProveWorker
import KANet.Settle.RefundPlan
import KANet.Settle.Resume
import KANet.Settle.ResumePlan
import KANet.Settle.RowOrder
import KANet.Settle.SportsCard
import KANet.Settle.Unreachable
import KANet.Settle.ZkEnqueue
import KANet.Trade.ActionQueue
import KANet.Trade.AutoPay
import KANet.Trade.Cover
import KANet.Trade.CrossChainVerify
import KANet.Trade.DeliveryTargets
import KANet.Trade.ExchangeDelivery
import KANet.Trade.ExchangeDispute
import KANet.Trade.HedgeRun
import KANet.Trade.OrderMessages
import KANet.Trade.PaidOrders
import KANet.Zk.Agreement
import KANet.Zk.ClaimTick
import KANet.Zk.CompactTree
import KANet.Zk.Continuation
