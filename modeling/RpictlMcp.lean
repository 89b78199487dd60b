import RpictlMcp.Kernel.StampedLog
import RpictlMcp.Kernel.Interaction
import RpictlMcp.Kernel.TraceLogic
import RpictlMcp.Kernel.Transcript
import RpictlMcp.Kernel.ThreadPool
import RpictlMcp.Kernel.Occurrence
import RpictlMcp.Kernel.Utf8Lossy
import RpictlMcp.SerialRing
import RpictlMcp.SerialRingLog
import RpictlMcp.SerialSnapshot
import RpictlMcp.SerialGeneration
import RpictlMcp.Error
import RpictlMcp.BoardLease
import RpictlMcp.Config
import RpictlMcp.RelayIdentity
import RpictlMcp.StateDetector
import RpictlMcp.Board
import RpictlMcp.Power
import RpictlMcp.Operations
import RpictlMcp.Requests
import RpictlMcp.BoardTrace
import RpictlMcp.PowerTrace
import RpictlMcp.OperationTrace
import RpictlMcp.PowerOperations
import RpictlMcp.UbootTrace
import RpictlMcp.RequestTrace
import RpictlMcp.System
import RpictlMcp.ServiceTrace
import RpictlMcp.Schedules
import RpictlMcp.LeaseDiscipline
import RpictlMcp.PowerCycle
import RpictlMcp.StateWait
import RpictlMcp.StateWindow
import RpictlMcp.PowerOnUboot
import RpictlMcp.LeaseTenure
import RpictlMcp.GracefulShutdown
import RpictlMcp.EnterUboot
import RpictlMcp.PowerOnFreshness
import RpictlMcp.VerifiedSwitching
import RpictlMcp.LateRejection
import RpictlMcp.Bench
import RpictlMcp.UbootEntries
import RpictlMcp.UbootTimeline
import RpictlMcp.ConsoleSession
import RpictlMcp.ConsoleTyping
import RpictlMcp.ConsoleFrames
import RpictlMcp.ConsoleThreads
import RpictlMcp.RemoteBackend
import RpictlMcp.RemoteTools
import RpictlMcp.StateAgreement
import RpictlMcp.SerialCapture
import RpictlMcp.IdentityGrammar
import RpictlMcp.PowerCommand
import RpictlMcp.PowerCommandRuns
import RpictlMcp.HardwareAddress
import RpictlMcp.IdentityCheck
import RpictlMcp.Registry
import RpictlMcp.Kernel.BoundedChannel
import RpictlMcp.Subscribers
import RpictlMcp.CommandOutcome
import RpictlMcp.Kernel.Utf8Text
import RpictlMcp.StateLocality
import RpictlMcp.PatternShadowing
import RpictlMcp.SerialTruncation
import RpictlMcp.CommandLine
import RpictlMcp.SerialPaging
import RpictlMcp.PrimarySocket
import RpictlMcp.PrimaryElection
import RpictlMcp.Kernel.Utf8Search
import RpictlMcp.StateBytes
import RpictlMcp.PollPositions
import RpictlMcp.Kernel.Completion
import RpictlMcp.RequestProgress
import RpictlMcp.RequestCompletion
import RpictlMcp.WriterMutex
import RpictlMcp.RequestLiveness
import RpictlMcp.SessionInput
import RpictlMcp.HandshakeLines
import RpictlMcp.ConnectionReplies
import RpictlMcp.PowerClient
