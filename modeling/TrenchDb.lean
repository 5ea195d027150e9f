import TrenchDb.Cli.Attempts
import TrenchDb.Cli.Client
import TrenchDb.Cli.Commands
import TrenchDb.Cli.Lossy
import TrenchDb.Cli.Repl
import TrenchDb.Cli.Session
import TrenchDb.Ewal.Audit
import TrenchDb.Ewal.Batches
import TrenchDb.Ewal.Manager
import TrenchDb.Ewal.Position
import TrenchDb.Ewal.Text
import TrenchDb.Ewal.Writer
import TrenchDb.Identity.Files
import TrenchDb.Identity.Restarts
import TrenchDb.Identity.Settings
import TrenchDb.Identity.Starts
import TrenchDb.Identity.Vault
import TrenchDb.Lib.Batch
import TrenchDb.Lib.BigEndian
import TrenchDb.Lib.Channels
import TrenchDb.Lib.Checksum
import TrenchDb.Lib.Delimited
import TrenchDb.Lib.Follow
import TrenchDb.Lib.Format
import TrenchDb.Lib.Incremental
import TrenchDb.Lib.Linearize
import TrenchDb.Lib.Lts
import TrenchDb.Lib.Overwrite
import TrenchDb.Lib.Records
import TrenchDb.Lib.Retry
import TrenchDb.Lib.ShiftRegister
import TrenchDb.Lib.Slots
import TrenchDb.Lib.Stopping
import TrenchDb.Lib.Words
import TrenchDb.Rpc.Answers
import TrenchDb.Rpc.Client
import TrenchDb.Rpc.Completion
import TrenchDb.Rpc.Conversation
import TrenchDb.Rpc.Encoding
import TrenchDb.Rpc.Envelope
import TrenchDb.Rpc.Interference
import TrenchDb.Rpc.Matching
import TrenchDb.Rpc.Pipeline
import TrenchDb.Rpc.Reuse
import TrenchDb.Rpc.Round
import TrenchDb.Rpc.Rounds
import TrenchDb.Rpc.Server
import TrenchDb.Rpc.Stopped
import TrenchDb.Storage.Accounts
import TrenchDb.Storage.Acknowledged
import TrenchDb.Storage.Api
import TrenchDb.Storage.Concurrent
import TrenchDb.Storage.Connections
import TrenchDb.Storage.Encoding
import TrenchDb.Storage.EventText
import TrenchDb.Storage.Events
import TrenchDb.Storage.GracefulStop
import TrenchDb.Storage.Handlers
import TrenchDb.Storage.Identity
import TrenchDb.Storage.Linearizable
import TrenchDb.Storage.LogOrder
import TrenchDb.Storage.PutGet
import TrenchDb.Storage.Queue
import TrenchDb.Storage.Requests
import TrenchDb.Storage.Resend
import TrenchDb.Storage.Reserved
import TrenchDb.Storage.Shutdown
import TrenchDb.Storage.Stops
import TrenchDb.Storage.Store
import TrenchDb.Storage.Supervisor
import TrenchDb.Storage.Tables
import TrenchDb.Storage.Threads
import TrenchDb.Storage.Timeline
import TrenchDb.Storage.Unstopped
import TrenchDb.Storage.Versions
import TrenchDb.Storage.WakeUps
import TrenchDb.Storage.World
import TrenchDb.Transport.Chunks
import TrenchDb.Transport.Codec
import TrenchDb.Transport.Conforming
import TrenchDb.Transport.Connection
import TrenchDb.Transport.Credit
import TrenchDb.Transport.DecodeOrder
import TrenchDb.Transport.Delivery
import TrenchDb.Transport.Determined
import TrenchDb.Transport.Effects
import TrenchDb.Transport.Endpoint
import TrenchDb.Transport.Errors
import TrenchDb.Transport.Failed
import TrenchDb.Transport.Faults
import TrenchDb.Transport.Finality
import TrenchDb.Transport.Flow
import TrenchDb.Transport.Frame
import TrenchDb.Transport.GracefulClose
import TrenchDb.Transport.Grammar
import TrenchDb.Transport.Guarantees
import TrenchDb.Transport.Handshake
import TrenchDb.Transport.Ids
import TrenchDb.Transport.Invariant
import TrenchDb.Transport.Limits
import TrenchDb.Transport.Link
import TrenchDb.Transport.Manager
import TrenchDb.Transport.Mirrored
import TrenchDb.Transport.Reopen
import TrenchDb.Transport.Sending
import TrenchDb.Transport.Session
import TrenchDb.Transport.Settling
import TrenchDb.Transport.Solo
import TrenchDb.Transport.Stream
import TrenchDb.Transport.Talk
import TrenchDb.Transport.Wire
import TrenchDb.Wal.Agreement
import TrenchDb.Wal.Bitwise
import TrenchDb.Wal.Broken
import TrenchDb.Wal.Checksum
import TrenchDb.Wal.Crash
import TrenchDb.Wal.Detection
import TrenchDb.Wal.Entry
import TrenchDb.Wal.Longest
import TrenchDb.Wal.Pieces
import TrenchDb.Wal.ReadOn
import TrenchDb.Wal.Reader
import TrenchDb.Wal.Recovery
import TrenchDb.Wal.Replay
import TrenchDb.Wal.Silent
import TrenchDb.Wal.Writer
