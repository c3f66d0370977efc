import Mcproc.Lib.Machine
import Mcproc.Lib.Runs
import Mcproc.Common.Validation
import Mcproc.Process.Launcher
import Mcproc.Process.Quoting
import Mcproc.Process.Registry
import Mcproc.Process.Manager
import Mcproc.Process.ManagerFrame
import Mcproc.Lib.Ownership
import Mcproc.Lib.PosixShell
import Mcproc.Process.NameTokens
import Mcproc.Process.Stopping
import Mcproc.Process.Orphans
import Mcproc.Api.ProcessHandlers
import Mcproc.Lib.Lines
import Mcproc.Process.HyperLog
import Mcproc.Lib.Utf8
import Mcproc.Log.LineReader
import Mcproc.Api.Grep
import Mcproc.Lib.UnixPath
import Mcproc.Log.Cleaner
import Mcproc.Process.ProjectNames
import Mcproc.Api.CleanProject
import Mcproc.Process.ReadyChannel
import Mcproc.Process.ReadyRelease
import Mcproc.Process.ReadyResult
import Mcproc.Daemon.PidLock
import Mcproc.Daemon.SingleDaemon
import Mcproc.Lib.Sequences
import Mcproc.Log.Follow
import Mcproc.Log.FollowComplete
import Mcproc.Log.BatchWriter
import Mcproc.Log.BatchAppend
import Mcproc.Log.Legible
import Mcproc.Process.LiveStream
import Mcproc.Process.ExitFinal
import Mcproc.Process.PidReuse
import Mcproc.Daemon.Shutdown
import Mcproc.Rpc.Types
import Mcproc.Rpc.Protocol
import Mcproc.Rpc.Answers
import Mcproc.Rpc.Decode
import Mcproc.Rpc.Shapes
import Mcproc.Rpc.Requests
import Mcproc.Rpc.Server
import Mcproc.Rpc.Encode
import Mcproc.Rpc.Stdio
import Mcproc.Rpc.Session
import Mcproc.Rpc.Notifications
import Mcproc.Api.LogSources
import Mcproc.Api.CleanRuns
import Mcproc.Api.Isolation
import Mcproc.Lib.ShellCommands
import Mcproc.Process.ExecPrefix
import Mcproc.Process.StopAnswers
import Mcproc.Api.StartFrame
import Mcproc.Api.StartTool
import Mcproc.Lib.Distinct
import Mcproc.Lib.Tails
import Mcproc.Api.SourceSelection
import Mcproc.Api.GetLogs
import Mcproc.Api.LogText
import Mcproc.Api.StderrTail
import Mcproc.Lib.Worklist
import Mcproc.Process.PortDetector
import Mcproc.Lib.Words
import Mcproc.Process.PortListing
import Mcproc.Lib.ByteIndex
import Mcproc.Api.TimeFilters
import Mcproc.Lib.Timed
import Mcproc.Process.Deadlines
import Mcproc.Api.ToolResults
import Mcproc.Log.Pipeline
import Mcproc.Log.Capture
import Mcproc.Log.Backpressure
import Mcproc.Lib.Broadcast
import Mcproc.Api.LogStream
import Mcproc.Process.Lifecycle
import Mcproc.Process.Provenance
import Mcproc.Process.NameRecovery
import Mcproc.Daemon.PidFile
import Mcproc.Api.CleanExact
import Mcproc.Api.OutputSearch
import Mcproc.Api.LogAnswers
