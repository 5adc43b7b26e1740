import Pan.Library.History
import Pan.Library.Effects
import Pan.Library.Machine
import Pan.Library.Simulation
import Pan.Library.SortedMap
import Pan.Plugins
import Pan.Abandonment
import Pan.Termination
import Pan.ContinueLaw
import Pan.Revisions
import Pan.Minds
import Pan.Conversation
import Pan.Server
import Pan.WireOrder
import Pan.ReadLoop
import Pan.Handshake
import Pan.JsonText
import Pan.Codec
import Pan.RoundTrip
import Pan.ByteLines
import Pan.Verdicts
import Pan.PathRules
import Pan.HostRules
import Pan.Toolbox
import Pan.Agents
import Pan.Delegation
import Pan.DelegatedGrants
import Pan.DispatchPaths
import Pan.Routing
import Pan.DelegationDepth
import Pan.Lifecycle
import Pan.Discovery
import Pan.PluginManager
import Pan.PluginHistory
import Pan.Reloading
import Pan.DirectoryOrder
import Pan.Library.Collect
import Pan.Library.Fallible
import Pan.FileSystem
import Pan.Snapshots
import Pan.FileCaps
import Pan.StateCaps
import Pan.SchemaAgreement
import Pan.AuditTrail
import Pan.StateWrites
import Pan.DurableState
import Pan.EventStream
import Pan.Brackets
import Pan.Transcript
import Pan.OpenAi
import Pan.Anthropic
import Pan.ToolNames
import Pan.Replay
import Pan.Rounds
import Pan.Faithfulness
import Pan.Tui
import Pan.LiveSpans
import Pan.Authority
import Pan.Gateway
import Pan.Locations
import Pan.Confinement
import Pan.ManifestFiles
import Pan.Library.Glob
import Pan.Globs
import Pan.Trees
import Pan.SnapshotFiles
import Pan.Disk
import Pan.Undo
import Pan.Isolation
import Pan.Library.Selection
import Pan.Compaction
import Pan.Evaluation
import Pan.Clipping
import Pan.Library.Pattern
import Pan.Responses
import Pan.Library.Retry
import Pan.Requests
import Pan.Retries
import Pan.Urls
import Pan.Redirects
import Pan.Library.Http
import Pan.HttpRequests
import Pan.Library.Shell
import Pan.Formatting
import Pan.Library.Window
import Pan.Library.Interleaving
import Pan.Library.Template
import Pan.Toml
import Pan.RollingHistory
import Pan.SessionFiles
import Pan.RuleFiles
import Pan.ChatHistory
import Pan.VetoChannel
import Pan.Expansion
import Pan.Assembly
import Pan.ContextAssemblers
import Pan.Precedence
import Pan.Library.Calendar
import Pan.Stalling
import Pan.Registration
import Pan.Dates
import Pan.Markdown
import Pan.SpokenLines
import Pan.Versions
import Pan.Skills
import Pan.SkillClient
import Pan.Library.Scheduling
import Pan.SkillTalks
import Pan.SkillPhases
import Pan.Commands
import Pan.Repl
import Pan.Library.Family
import Pan.Connections
import Pan.AgentPools
import Pan.SkillStore
import Pan.TokenBudget
import Pan.Updates
import Pan.InferenceMind
import Pan.Remembering
import Pan.Reflexes
import Pan.ConfigFiles
import Pan.Acceptance
import Pan.Conformance
