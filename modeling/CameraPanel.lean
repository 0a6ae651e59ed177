import CameraPanel.Cell
import CameraPanel.Config.Disk
import CameraPanel.Config.Environment
import CameraPanel.Config.Extract
import CameraPanel.Config.Layers
import CameraPanel.Config.Load
import CameraPanel.Config.Options
import CameraPanel.Config.Value
import CameraPanel.Field
import CameraPanel.FieldSet
import CameraPanel.Host
import CameraPanel.Host.Keyboard
import CameraPanel.Host.Line
import CameraPanel.Json.Fault
import CameraPanel.Json.Numeral
import CameraPanel.Json.Offsets
import CameraPanel.Json.Reader
import CameraPanel.Json.Strings
import CameraPanel.Json.Value
import CameraPanel.Notice
import CameraPanel.Number.Binary
import CameraPanel.Number.Decimal
import CameraPanel.Number.Literal
import CameraPanel.Proofs.Digest
import CameraPanel.Proofs.Panel
import CameraPanel.Proofs.Quiet
import CameraPanel.Proofs.Steps
import CameraPanel.Remote.Command
import CameraPanel.Remote.Engine
import CameraPanel.Remote.Error
import CameraPanel.Remote.Reading
import CameraPanel.Remote.Reply
import CameraPanel.Remote.Script
import CameraPanel.Remote.Side
import CameraPanel.Remote.Store
import CameraPanel.Settings
import CameraPanel.Sync.Component
import CameraPanel.Sync.Pool
import CameraPanel.Sync.Session
import CameraPanel.Text.Blank
import CameraPanel.Text.Escape
import CameraPanel.Text.Hex
import CameraPanel.Text.Hidden
import CameraPanel.Text.Quoted
import CameraPanel.Toml.Gap
import CameraPanel.Toml.Reader
import CameraPanel.Toml.Scalar
import CameraPanel.Toml.Strings
import CameraPanel.Toml.Tables
import CameraPanel.Watchers
import CameraPanel.Proofs.WriteTrace
import CameraPanel.Proofs.Attribution
import CameraPanel.Proofs.Answers
import CameraPanel.Proofs.Agreement
import CameraPanel.Proofs.Reset
import CameraPanel.Proofs.Independence
import CameraPanel.Proofs.Ranks
import CameraPanel.Proofs.PlainText
import CameraPanel.Proofs.Chunks
import CameraPanel.Proofs.EngineSide
import CameraPanel.Proofs.TwoStores
import CameraPanel.Proofs.HostSession
import CameraPanel.Proofs.HostHistory
import CameraPanel.Proofs.LiteralGrammar
import CameraPanel.Proofs.ChunkGrammar
import CameraPanel.Proofs.ChunkRoundTrip
import CameraPanel.Proofs.Rounding
import CameraPanel.Proofs.ShortestDigits
import CameraPanel.Proofs.Numerals
import CameraPanel.Proofs.ReplyNumbers
import CameraPanel.Proofs.EngineHydration
import CameraPanel.Proofs.HostHydration
import CameraPanel.Proofs.StringGrammar
import CameraPanel.Proofs.ReplyGrammar
import CameraPanel.Proofs.EngineRuns
import CameraPanel.Proofs.RoundingError
import CameraPanel.Proofs.Nudging
import CameraPanel.Proofs.NudgeRange
import CameraPanel.Proofs.Handles
import CameraPanel.Proofs.ReadAccount
import CameraPanel.Proofs.ReadOrder
import CameraPanel.Proofs.Replay
import CameraPanel.Proofs.HiddenPanel
import CameraPanel.Proofs.PanelLine
import CameraPanel.Proofs.OptionLeaves
import CameraPanel.Proofs.EnvironmentTable
import CameraPanel.Proofs.Precedence
import CameraPanel.Proofs.SeedVariables
import CameraPanel.Proofs.ChangeChain
