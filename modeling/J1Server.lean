import J1Server.Lib.Prog
import J1Server.Lib.Runs
import J1Server.Lib.Store
import J1Server.Lib.Table
import J1Server.Lib.Isolation
import J1Server.Lib.Transaction
import J1Server.Lib.Pool
import J1Server.Lib.Timer
import J1Server.Lib.Pacing
import J1Server.Auction.Data
import J1Server.Auction.Service
import J1Server.Auction.Market
import J1Server.Auction.Attempt
import J1Server.Auction.Purchase
import J1Server.Auction.Atomicity
import J1Server.Auction.Conservation
import J1Server.Auction.Workers
import J1Server.Auction.Stock
import J1Server.Auction.Prices
import J1Server.Auction.Amounts
import J1Server.Auction.Durability
import J1Server.Core.Packet
import J1Server.Core.Receive
import J1Server.Core.Framing
import J1Server.Core.Dispatch
import J1Server.Core.SendQueue
import J1Server.Core.SendStream
import J1Server.Game.Relay
import J1Server.Game.Cache
import J1Server.Game.ListPacket
import J1Server.Game.NotFound
import J1Server.Game.MyList
import J1Server.Game.Room
import J1Server.Game.Refusal
import J1Server.Game.Agreement
import J1Server.Game.Leave
import J1Server.Game.Refresh
import J1Server.Game.RefreshOrder
import J1Server.Game.RefreshGap
import J1Server.Lib.Chain
import J1Server.Auction.Rows
import J1Server.Game.Reject
import J1Server.Auction.WorkerPool
import J1Server.Auction.WorkerStop
import J1Server.Auction.WorkerOrder
import J1Server.Auction.Answers
import J1Server.Lobby.Data
import J1Server.Lobby.Handlers
import J1Server.Lib.Failures
import J1Server.Lib.Play
import J1Server.Lobby.Survival
import J1Server.Lobby.SignIn
import J1Server.Lobby.Handshake
import J1Server.Lobby.CharacterTables
import J1Server.Lobby.CharacterRequests
import J1Server.Lobby.Characters
import J1Server.Lobby.CharacterRuns
import J1Server.Lobby.Roster
import J1Server.Game.Elements
import J1Server.Auction.WorkerLeases
import J1Server.Game.SnapshotIndex
import J1Server.Game.Coalescing
import J1Server.Auction.Ledger
import J1Server.Lib.Books
import J1Server.Auction.Settled
import J1Server.Core.Lending
import J1Server.Core.Link
import J1Server.Core.Requests
import J1Server.Game.SessionLife
import J1Server.Game.Chat
import J1Server.Game.Responses
import J1Server.Game.PurchasePath
import J1Server.Lib.Autocommit
import J1Server.Lobby.Rules
import J1Server.Lobby.Directory
import J1Server.Lobby.Joins
import J1Server.Lobby.Acceptance
import J1Server.Game.Staleness
