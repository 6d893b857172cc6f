import EternalTerminal.Library.ByteRange
import EternalTerminal.Library.Base128
import EternalTerminal.Library.LastWrite
import EternalTerminal.Library.History
import EternalTerminal.Library.LittleEndian
import EternalTerminal.Library.Progress
import EternalTerminal.Library.RetainedLog
import EternalTerminal.Library.Search
import EternalTerminal.Library.Separator
import EternalTerminal.Library.Transducer
import EternalTerminal.Backed.Reader
import EternalTerminal.Proto.Message
import EternalTerminal.Connection.Client
import EternalTerminal.Proof.Framing
import EternalTerminal.Proof.Keystream
import EternalTerminal.Proof.ReaderRun
import EternalTerminal.Proof.BackupCost
import EternalTerminal.Proof.CatchupSize
import EternalTerminal.Proof.Chunking
import EternalTerminal.Proof.Link
import EternalTerminal.Proof.Allocation
import EternalTerminal.Proof.Position
import EternalTerminal.Proof.Consistency
import EternalTerminal.Proof.Resumption
import EternalTerminal.Proof.Acceptance
import EternalTerminal.Proof.WireRecord
import EternalTerminal.Proof.RoundTrip
import EternalTerminal.Proof.UnknownField
import EternalTerminal.Proof.BacklogBound
import EternalTerminal.Proof.Eviction
import EternalTerminal.Host
import EternalTerminal.SshSetup
import EternalTerminal.Proof.Destination
import EternalTerminal.Session.RunLoop
import EternalTerminal.CommandLine
import EternalTerminal.Proof.Precedence
import EternalTerminal.Proof.Coalescing
import EternalTerminal.Proof.Keepalive
import EternalTerminal.Session.LiveSession
import EternalTerminal.Proof.Severed
import EternalTerminal.Proof.CatchupQueue
import EternalTerminal.Proof.Delivery
import EternalTerminal.Proof.Allowance
import EternalTerminal.Proof.Credentials
import EternalTerminal.Proof.WaitReconnect
import EternalTerminal.Library.Succession
import EternalTerminal.Proof.Connections
import EternalTerminal.Proof.Shutdown
import EternalTerminal.Library.Changes
import EternalTerminal.Library.Journal
import EternalTerminal.Proof.CallLog
import EternalTerminal.Proof.Conversation
import EternalTerminal.Proof.LocalConsole
import EternalTerminal.Proof.LiveLog
import EternalTerminal.Connection.Blocking
import EternalTerminal.Connection.Attempt
import EternalTerminal.Proof.Handshake
import EternalTerminal.Proof.DeadPeer
import EternalTerminal.Library.Setting
import EternalTerminal.Terminal.RawMode
import EternalTerminal.Proof.ConsoleModes
import EternalTerminal.Terminal.ConsoleInput
import EternalTerminal.Proof.ConsolePoll
import EternalTerminal.Connection.Connect
import EternalTerminal.Startup
import EternalTerminal.Proof.Startup
import EternalTerminal.Program
import EternalTerminal.Proof.Program
import EternalTerminal.Session.ServedSession
import EternalTerminal.Proof.Display
import EternalTerminal.Proof.Hearing
import EternalTerminal.Session.HeardSession
import EternalTerminal.Proof.Heard
