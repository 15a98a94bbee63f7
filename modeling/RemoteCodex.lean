import RemoteCodex.Agent.AtMostOnce
import RemoteCodex.Agent.Auth
import RemoteCodex.Agent.AuthBounds
import RemoteCodex.Agent.AuthCases
import RemoteCodex.Agent.AuthRuns
import RemoteCodex.Agent.Control
import RemoteCodex.Agent.ControlReplies
import RemoteCodex.Agent.ControlRuns
import RemoteCodex.Agent.ControlSessions
import RemoteCodex.Agent.Credentials
import RemoteCodex.Agent.Delivery
import RemoteCodex.Agent.InputKeys
import RemoteCodex.Agent.Interrupts
import RemoteCodex.Agent.JobWrites
import RemoteCodex.Agent.Lifecycle
import RemoteCodex.Agent.Media
import RemoteCodex.Agent.MediaControl
import RemoteCodex.Agent.MediaLoop
import RemoteCodex.Agent.MediaTurns
import RemoteCodex.Agent.OutputFrames
import RemoteCodex.Agent.PasteFences
import RemoteCodex.Agent.PerfAccounting
import RemoteCodex.Agent.PerfQuantiles
import RemoteCodex.Agent.PerfTrace
import RemoteCodex.Agent.Preview
import RemoteCodex.Agent.PreviewAccess
import RemoteCodex.Agent.PreviewCookies
import RemoteCodex.Agent.PreviewHeaders
import RemoteCodex.Agent.PreviewOrigins
import RemoteCodex.Agent.PreviewRuns
import RemoteCodex.Agent.Principal
import RemoteCodex.Agent.PublicOrigin
import RemoteCodex.Agent.ReadableProjection
import RemoteCodex.Agent.Rename
import RemoteCodex.Agent.ResizeCalls
import RemoteCodex.Agent.Restarts
import RemoteCodex.Agent.Revocation
import RemoteCodex.Agent.ScopeCases
import RemoteCodex.Agent.ScopeGrants
import RemoteCodex.Agent.SessionFrames
import RemoteCodex.Agent.SessionInput
import RemoteCodex.Agent.SessionOutput
import RemoteCodex.Agent.SessionWriter
import RemoteCodex.Agent.Snapshot
import RemoteCodex.Agent.SnapshotCursor
import RemoteCodex.Agent.SnapshotItems
import RemoteCodex.Agent.SnapshotModes
import RemoteCodex.Agent.SnapshotPaint
import RemoteCodex.Agent.SnapshotTail
import RemoteCodex.Agent.Store
import RemoteCodex.Agent.StreamSafety
import RemoteCodex.Agent.TerminalGrid
import RemoteCodex.Agent.TerminalSettings
import RemoteCodex.Agent.TerminalStream
import RemoteCodex.Agent.TraceWriter
import RemoteCodex.Agent.Withdrawal
import RemoteCodex.Agent.WriterReplies
import RemoteCodex.Agent.WriterStops
import RemoteCodex.Client.Attempts
import RemoteCodex.Client.Candidates
import RemoteCodex.Client.Controller
import RemoteCodex.Client.FrameCodec
import RemoteCodex.Client.GateFreshness
import RemoteCodex.Client.GuardLanguage
import RemoteCodex.Client.Inputs
import RemoteCodex.Client.ListFreshness
import RemoteCodex.Client.MediaClient
import RemoteCodex.Client.MediaIntent
import RemoteCodex.Client.PasteGate
import RemoteCodex.Client.ReadableOutput
import RemoteCodex.Client.Reloads
import RemoteCodex.Client.SessionList
import RemoteCodex.Client.StreamGuard
import RemoteCodex.Client.UuidText
import RemoteCodex.Client.Viewer
import RemoteCodex.Core.CandidateLine
import RemoteCodex.Core.Frame
import RemoteCodex.Core.FrameCodec
import RemoteCodex.Core.Input
import RemoteCodex.Core.InputRuns
import RemoteCodex.Core.JsonLines
import RemoteCodex.Core.Lease
import RemoteCodex.Core.LeaseRuns
import RemoteCodex.Core.MediaWire
import RemoteCodex.Core.Protocol
import RemoteCodex.Core.Ring
import RemoteCodex.Core.SanitizedSdp
import RemoteCodex.Core.TailnetAddress
import RemoteCodex.Core.VtFence
import RemoteCodex.Core.VtFenceGrammar
import RemoteCodex.Core.VtFenceSafety
import RemoteCodex.Core.VtFenceSequences
import RemoteCodex.Core.VtFenceText
import RemoteCodex.Core.VtFenceTokens
import RemoteCodex.Desktop.Autostart
import RemoteCodex.Desktop.GeneratedConfig
import RemoteCodex.Desktop.MediaSettings
import RemoteCodex.Desktop.Serve
import RemoteCodex.Desktop.ServeCommands
import RemoteCodex.Desktop.ServeJournal
import RemoteCodex.Desktop.ServeRules
import RemoteCodex.Desktop.Tailscale
import RemoteCodex.Desktop.Uninstall
import RemoteCodex.Helper.FreshProofs
import RemoteCodex.Helper.Native
import RemoteCodex.Lib.Buffered
import RemoteCodex.Lib.Crash
import RemoteCodex.Lib.Decimal
import RemoteCodex.Lib.Fallible
import RemoteCodex.Lib.History
import RemoteCodex.Lib.Ipv4
import RemoteCodex.Lib.Js
import RemoteCodex.Lib.JsText
import RemoteCodex.Lib.Ledger
import RemoteCodex.Lib.Marker
import RemoteCodex.Lib.Mealy
import RemoteCodex.Lib.Newlines
import RemoteCodex.Lib.Numbered
import RemoteCodex.Lib.Outcome
import RemoteCodex.Lib.Records
import RemoteCodex.Lib.Slices
import RemoteCodex.Lib.Table
import RemoteCodex.Lib.Ticks
import RemoteCodex.Lib.Toml
import RemoteCodex.Lib.Trace
import RemoteCodex.Lib.Utf8
import RemoteCodex.Lib.Vt
import RemoteCodex.Lib.VtPrint
import RemoteCodex.Lib.VtTerminal
import RemoteCodex.Lib.Wide
import RemoteCodex.Lib.Window
import RemoteCodex.Lib.Words
import RemoteCodex.Lib.WriteOnce
import RemoteCodex.Platform.GuiArming
import RemoteCodex.Platform.GuiInput
import RemoteCodex.Platform.GuiSession
import RemoteCodex.Platform.HeldKeys
import RemoteCodex.Platform.InputCalls
import RemoteCodex.System.CandidateFilters
import RemoteCodex.System.GuardFeed
import RemoteCodex.System.HelperPipe
import RemoteCodex.System.InputOrder
import RemoteCodex.System.LinkSafety
import RemoteCodex.System.MediaChain
import RemoteCodex.System.PointerMapping
import RemoteCodex.System.ReadableScreen
import RemoteCodex.System.RenderFlow
import RemoteCodex.System.SnapshotJson
import RemoteCodex.System.TerminalLink
import RemoteCodex.System.VideoFit
