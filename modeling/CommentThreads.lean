import CommentThreads.Client.Dialogue
import CommentThreads.Client.Exchange
import CommentThreads.Command.Basic
import CommentThreads.Command.Parser
import CommentThreads.Command.Tokens
import CommentThreads.CommandLine.Invocation
import CommentThreads.CommandLine.Loop
import CommentThreads.CommandLine.Options
import CommentThreads.CommandLine.Style
import CommentThreads.CommandLine.Usage
import CommentThreads.Entries
import CommentThreads.Http.Message
import CommentThreads.Http.Target
import CommentThreads.Json.Basic
import CommentThreads.Json.Bytes
import CommentThreads.Json.Display
import CommentThreads.Json.Printer
import CommentThreads.Json.Reader
import CommentThreads.Main
import CommentThreads.Number.Binary64
import CommentThreads.Number.Power
import CommentThreads.Number.Shortest
import CommentThreads.Password.Blowfish
import CommentThreads.Password.Hash
import CommentThreads.Password.PiDigits
import CommentThreads.Record.Change
import CommentThreads.Record.Comment
import CommentThreads.Record.Listing
import CommentThreads.Server.Access
import CommentThreads.Server.Complaints
import CommentThreads.Server.Input
import CommentThreads.Server.Route
import CommentThreads.Server.Service
import CommentThreads.Settings
import CommentThreads.StateFile.Basic
import CommentThreads.StateFile.Section
import CommentThreads.Store.Backend
import CommentThreads.Store.Call
import CommentThreads.Store.Comments
import CommentThreads.Store.Documents
import CommentThreads.Store.Memory
import CommentThreads.Store.Program
import CommentThreads.Terminal.Commands
import CommentThreads.Terminal.Feed
import CommentThreads.Terminal.Help
import CommentThreads.Terminal.Prompt
import CommentThreads.Terminal.Session
import CommentThreads.Text.Blank
import CommentThreads.Text.Digits
import CommentThreads.Text.Lines
import CommentThreads.Text.Percent
import CommentThreads.Text.Printable
import CommentThreads.Text.Quoted
import CommentThreads.Text.Raw
import CommentThreads.Text.Similarity
import CommentThreads.Text.Utf8
import CommentThreads.Text.Words
import CommentThreads.Time.Calendar
import CommentThreads.Time.DateTime
import CommentThreads.Time.LogDate
import CommentThreads.Time.Reader
import CommentThreads.Validation
import CommentThreads.Proofs.Text.Digits
import CommentThreads.Proofs.Time.Calendar
import CommentThreads.Proofs.Time.Stamp
import CommentThreads.Proofs.Time.LogDate
import CommentThreads.Proofs.Text.Raw
import CommentThreads.Proofs.Text.Lines
import CommentThreads.Proofs.Record.Stored
import CommentThreads.Proofs.Password.Salt
import CommentThreads.Proofs.Store.Outcome
import CommentThreads.Proofs.Store.Ledger
import CommentThreads.Proofs.Store.Refinement
import CommentThreads.Proofs.Store.Run
import CommentThreads.Proofs.Store.History
import CommentThreads.Proofs.Store.Consistency
import CommentThreads.Proofs.Store.Access
import CommentThreads.Proofs.Store.Frame
import CommentThreads.Proofs.Store.Permanence
import CommentThreads.Proofs.Store.Failure
import CommentThreads.Proofs.Store.Removal
import CommentThreads.Proofs.Store.Turn
import CommentThreads.Proofs.Store.Threads
import CommentThreads.Proofs.Store.Arrangement
import CommentThreads.Proofs.Text.Utf8
import CommentThreads.Proofs.Text.Percent
import CommentThreads.Proofs.Store.Interchange
import CommentThreads.Proofs.Entries
import CommentThreads.Proofs.Json.Scalars
import CommentThreads.Proofs.Json.Numerals
import CommentThreads.Proofs.Json.RoundTrip
import CommentThreads.Proofs.Json.FileForm
import CommentThreads.Proofs.Json.Keys
import CommentThreads.Proofs.Record.Wire
import CommentThreads.Proofs.Server.Requests
import CommentThreads.Proofs.Client.Exchange
import CommentThreads.Proofs.Server.Failure
import CommentThreads.Proofs.Client.Agreement
import CommentThreads.Proofs.Server.Internal
import CommentThreads.Proofs.Server.Records
import CommentThreads.Proofs.StateFile.Updates
import CommentThreads.Proofs.StateFile.Loading
import CommentThreads.Proofs.StateFile.Reload
import CommentThreads.Proofs.Terminal.Session
import CommentThreads.Proofs.Text.Blank
import CommentThreads.Proofs.Command.Tokens
import CommentThreads.Proofs.Command.Parser
import CommentThreads.Proofs.Command.Cuts
import CommentThreads.Proofs.Command.Segments
import CommentThreads.Proofs.Terminal.Commands
import CommentThreads.Proofs.Terminal.Prompts
import CommentThreads.Proofs.Terminal.Commit
import CommentThreads.Proofs.Client.Endings
import CommentThreads.Proofs.Http.Target
import CommentThreads.Proofs.Client.LookUp
import CommentThreads.Proofs.Terminal.Effects
import CommentThreads.Proofs.Terminal.Service
import CommentThreads.Proofs.Terminal.Faults
import CommentThreads.Proofs.Terminal.Reflog
import CommentThreads.Proofs.Terminal.Recall
import CommentThreads.Proofs.Terminal.Show
import CommentThreads.Proofs.Terminal.Log
import CommentThreads.Proofs.Terminal.Oneline
import CommentThreads.Proofs.Store.Calls
import CommentThreads.Proofs.Store.Coherence
import CommentThreads.Proofs.Store.Crash
import CommentThreads.Proofs.Store.Tidy
import CommentThreads.Proofs.Store.Interleaving
import CommentThreads.Proofs.Store.Serializability
import CommentThreads.Proofs.Store.Reliance
import CommentThreads.Proofs.Store.LateEdit
import CommentThreads.Proofs.Store.Reissue
import CommentThreads.Proofs.Store.Verdict
import CommentThreads.Proofs.Store.Hashes
import CommentThreads.Proofs.Server.Verdict
import CommentThreads.Proofs.Server.Hashes
import CommentThreads.Proofs.Client.Passwords
import CommentThreads.Proofs.Client.Answers
import CommentThreads.Proofs.Terminal.Secrets
import CommentThreads.Proofs.Client.Credentials
import CommentThreads.Proofs.Terminal.Elsewhere
import CommentThreads.Proofs.Terminal.ShortHash
import CommentThreads.Proofs.Command.Lines
import CommentThreads.Proofs.CommandLine.Loop
import CommentThreads.Proofs.Store.Rereading
import CommentThreads.Proofs.Time.LogReading
