import WeNode.Lib.UndoStack
import WeNode.Lib.KeyedFold
import WeNode.Lib.Table
import WeNode.Lib.Runs
import WeNode.Lib.Triples
import WeNode.Lib.ShiftRegister
import WeNode.Lib.OrderStatistics
import WeNode.Lib.Forest
import WeNode.Fork.ForkDatabase
import WeNode.Fork.Items
import WeNode.Fork.Branches
import WeNode.Fork.Database
import WeNode.Fork.Apply
import WeNode.Fork.Switch
import WeNode.Fork.Reorganize
import WeNode.Fork.Push
import WeNode.Fork.Runs
import WeNode.Fork.Atomicity
import WeNode.Fork.Finality
import WeNode.Fork.HeadAgreement
import WeNode.Fork.ForkChoice
import WeNode.Fork.LogAgreement
import WeNode.Chainbase.GenericIndex
import WeNode.Chainbase.Undo
import WeNode.Chainbase.Sessions
import WeNode.Chainbase.UniqueKeys
import WeNode.Chainbase.Revisions
import WeNode.Chain.Arithmetic
import WeNode.Chain.Config
import WeNode.Chain.Asset
import WeNode.Chain.Objects
import WeNode.Chain.Reward
import WeNode.Chain.State
import WeNode.Chain.Votes
import WeNode.Chain.Balances
import WeNode.Chain.Market
import WeNode.Chain.Content
import WeNode.Chain.Funds
import WeNode.Chain.Maintenance
import WeNode.Chain.Schedule
import WeNode.Chain.Hardforks
import WeNode.Chain.Operations
import WeNode.Chain.Validate
import WeNode.Chain.Authorities
import WeNode.Chain.Transfers
import WeNode.Chain.Accounts
import WeNode.Chain.Discussion
import WeNode.Chain.Block
import WeNode.Chain.BlockSteps
import WeNode.Chain.Replay
import WeNode.Chain.Specs
import WeNode.Chain.Core
import WeNode.Chain.CoreFunds
import WeNode.Chain.CoreHardforks
import WeNode.Chain.CoreOperations
import WeNode.Chain.CoreBlocks
import WeNode.Chain.Duplicates
import WeNode.Chain.Witnesses
import WeNode.Chain.Slots
import WeNode.Chain.Irreversible
import WeNode.Chain.HardforkVotes
import WeNode.Lib.FileStream
import WeNode.Log.BlockLog
import WeNode.Log.Records
import WeNode.Log.EmptyBlock
import WeNode.Log.Serving
import WeNode.Log.Opening
import WeNode.Chain.EscrowLife
import WeNode.Chain.Escrows
import WeNode.Chain.EscrowBlocks
import WeNode.Chain.CommentTree
import WeNode.Chain.CommentBlocks
import WeNode.Chain.SquareRoot
import WeNode.Chain.CommentVotes
import WeNode.Chain.VoteChanges
import WeNode.Chain.VoteLedger
import WeNode.Chain.VoteBlocks
import WeNode.Protocol.FixedString
import WeNode.Chain.MedianFeed
import WeNode.Chain.DebtCap
import WeNode.Chain.Routes
import WeNode.Chain.RouteBlocks
import WeNode.Chain.BlockSize
import WeNode.Chain.Matching
import WeNode.Chain.Orders
import WeNode.Lib.Events
import WeNode.Lib.Parts
import WeNode.Net.Node
import WeNode.Net.SyncRequests
import WeNode.Net.AcceptedIds
import WeNode.Chain.Conversion
import WeNode.Chain.ClaimDecay
import WeNode.Chain.CommentEdits
import WeNode.Lib.Decimal
import WeNode.Chain.AssetText
import WeNode.Chain.AssetFaithful
import WeNode.Fork.CommonAncestor
import WeNode.Lib.Quorum
import WeNode.Chain.AuthorityCheck
import WeNode.Chainbase.DatabaseSession
import WeNode.Chain.CustomOperations
import WeNode.Lib.Pruning
import WeNode.Chain.RequiredSignatures
import WeNode.Chain.AuthorityWalk
import WeNode.Chain.MinimalSignatures
import WeNode.Chain.Rounds
import WeNode.Protocol.AccountName
import WeNode.Lib.HashTree
import WeNode.Protocol.MerkleRoot
import WeNode.Net.Framing
import WeNode.Lib.ByteOrder
import WeNode.Protocol.StringStorage
import WeNode.Net.Inactivity
import WeNode.Net.Backlog
import WeNode.Chain.MiningQueue
import WeNode.Lib.TicketQueue
import WeNode.Chain.OperationRuns
import WeNode.Chain.AccountRecovery
import WeNode.Lib.KeyedRows
import WeNode.Plugins.Follow
import WeNode.Net.MessageIds
import WeNode.Net.SyncOffers
import WeNode.Net.IdLists
import WeNode.Net.Synopsis
import WeNode.Net.ItemRequests
import WeNode.Plugins.Bandwidth
import WeNode.Chain.VoteCasts
import WeNode.Plugins.Reputation
import WeNode.Lib.NumberedRows
import WeNode.Plugins.Feeds
import WeNode.Lib.Attempts
import WeNode.Plugins.Tags
import WeNode.Chain.RewardCurves
import WeNode.Lib.FlatMap
import WeNode.Plugins.AccountHistory
import WeNode.Plugins.MarketHistory
import WeNode.Chain.AccountKeys
import WeNode.Plugins.AccountByKey
import WeNode.Chain.SupplyBlocks
