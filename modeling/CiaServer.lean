import CiaServer.Interleave.Fifo
import CiaServer.Interleave.Linearizable
import CiaServer.Interleave.Monitor
import CiaServer.Interleave.Noted
import CiaServer.Interleave.Objects
import CiaServer.Interleave.Program
import CiaServer.Interleave.Rounds
import CiaServer.Interleave.Routine
import CiaServer.Interleave.Runs
import CiaServer.Interleave.Selected
import CiaServer.Interleave.Simulation
import CiaServer.Interleave.Star
import CiaServer.Interleave.Tokens
import CiaServer.Machine.Answers
import CiaServer.Machine.Decimal
import CiaServer.Machine.Integers
import CiaServer.Machine.Masks
import CiaServer.Machine.ToString
import CiaServer.Wire.Bytes
import CiaServer.Wire.Frames
import CiaServer.Wire.SkipField
import CiaServer.Wire.Varint
import CiaServer.CiaDef
import CiaServer.Tools.BlockingQueue
import CiaServer.Tools.ConfigServer
import CiaServer.Tools.Startup
import CiaServer.Tools.ThreadSafeQueue
import CiaServer.Cti.Accounts
import CiaServer.Cti.BusyClient
import CiaServer.Cti.Callback
import CiaServer.Cti.Callout
import CiaServer.Cti.CardQueues
import CiaServer.Cti.ChannelInv
import CiaServer.Cti.Dialling
import CiaServer.Cti.FalseSuccess
import CiaServer.Cti.Guard
import CiaServer.Cti.HangUp
import CiaServer.Cti.History
import CiaServer.Cti.LockInv
import CiaServer.Cti.LostSuccess
import CiaServer.Cti.NothingLost
import CiaServer.Cti.Progress
import CiaServer.Cti.RequestInv
import CiaServer.Cti.RetryChain
import CiaServer.Cti.RetrySpacing
import CiaServer.Cti.Routines
import CiaServer.Cti.SleepInv
import CiaServer.Cti.SleepTime
import CiaServer.Cti.Steps
import CiaServer.Cti.TimeoutScan
import CiaServer.Cti.Trunk
import CiaServer.Cti.VoiceCard
import CiaServer.Net.BufferInv
import CiaServer.Net.BufferPool
import CiaServer.Net.CallRequests
import CiaServer.Net.CallResponse
import CiaServer.Net.ChatMessage
import CiaServer.Net.CiaMessage
import CiaServer.Net.CodedStream
import CiaServer.Net.Draining
import CiaServer.Net.GeneratedMessage
import CiaServer.Net.Handlers
import CiaServer.Net.Heartbeat
import CiaServer.Net.IdolChannelTimer
import CiaServer.Net.Inactivity
import CiaServer.Net.InactivityCheck
import CiaServer.Net.IoThreads
import CiaServer.Net.Login
import CiaServer.Net.MessageClass
import CiaServer.Net.Reader
import CiaServer.Net.ReaderInv
import CiaServer.Net.Reencode
import CiaServer.Net.RoundTrip
import CiaServer.Net.Sending
import CiaServer.Net.Server
import CiaServer.Net.ServerInv
import CiaServer.Net.Session
import CiaServer.Net.Writer
import CiaServer.TestAll
import CiaServer.Delivery
