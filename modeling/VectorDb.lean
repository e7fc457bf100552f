import VectorDb.Lib.Text
import VectorDb.Lib.Json
import VectorDb.Lib.Roaring
import VectorDb.Lib.Run
import VectorDb.Lib.LastWriter
import VectorDb.Lib.SeqLog
import VectorDb.Lib.Nearest
import VectorDb.Lib.PriorityQueue
import VectorDb.Lib.Paging
import VectorDb.Lib.Occurs
import VectorDb.Lib.BestFirst
import VectorDb.Lib.Claims
import VectorDb.Lib.FlushQueue
import VectorDb.Basic
import VectorDb.FilterIndex
import VectorDb.FilterFormat
import VectorDb.LogStore
import VectorDb.Persistence
import VectorDb.Indexes
import VectorDb.Upsert
import VectorDb.StaleFilter
import VectorDb.VectorDatabase
import VectorDb.StateMachine
import VectorDb.HttpServer
import VectorDb.Acknowledged
import VectorDb.VectorEntries
import VectorDb.Search
import VectorDb.HybridSearch
import VectorDb.Interference
import VectorDb.WalRoundTrip
import VectorDb.LogWal
import VectorDb.LogReplay
import VectorDb.LogRefine
import VectorDb.LogPack
import VectorDb.Replay
import VectorDb.Node
import VectorDb.SnapshotCutoff
import VectorDb.LogNode
import VectorDb.Recovery
import VectorDb.VectorRestart
import VectorDb.Reload
import VectorDb.FilterRestart
import VectorDb.TornTail
import VectorDb.FilterMap
import VectorDb.FilterCompleteness
import VectorDb.Idempotence
import VectorDb.CommitFailure
import VectorDb.Validation
import VectorDb.Similarity
import VectorDb.SearchResponse
import VectorDb.ScanPage
import VectorDb.WalCalls
import VectorDb.AnnoyIndex
import VectorDb.AnnoyCalls
import VectorDb.AnnoyRestart
import VectorDb.AnnoySearch
import VectorDb.AnnoyDistance
import VectorDb.AnnoyTree
import VectorDb.AnnoyBuild
import VectorDb.AnnoyReach
import VectorDb.AnnoyForest
import VectorDb.AnnoyFile
import VectorDb.AnnoyAnswers
import VectorDb.AnnoyEnds
import VectorDb.Query
import VectorDb.Cluster
import VectorDb.LoggerNames
import VectorDb.LoggerFiles
import VectorDb.LoggerLine
import VectorDb.Logger
import VectorDb.LoggerRuns
import VectorDb.LoggerOrder
