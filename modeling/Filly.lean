import Filly.Accessibility
import Filly.Animation
import Filly.AnimationFrames
import Filly.AnimationLifecycle
import Filly.AnimationTiming
import Filly.Answers
import Filly.Arena
import Filly.Base64
import Filly.BigEndian
import Filly.BuilderApp
import Filly.BuilderEdits
import Filly.BumpAllocation
import Filly.CJson
import Filly.CJsonNumbers
import Filly.CJsonPrint
import Filly.CJsonRoundTrip
import Filly.CJsonStrings
import Filly.CLiterals
import Filly.Calendar
import Filly.Canvas
import Filly.CanvasDrags
import Filly.CanvasLocks
import Filly.CanvasSelection
import Filly.Checklist
import Filly.Checkpoint
import Filly.Clicks
import Filly.Client
import Filly.ClientChunks
import Filly.ClientStream
import Filly.Clipboard
import Filly.Codegen
import Filly.CommandAllowList
import Filly.Connections
import Filly.Descent
import Filly.DirectoryTrees
import Filly.DiskTable
import Filly.Dispatch
import Filly.DisplayBuffers
import Filly.EditorBlocks
import Filly.EditorFiles
import Filly.EditorText
import Filly.ErrorTermWalk
import Filly.EventRecords
import Filly.Fil
import Filly.FilBlocks
import Filly.FilConditionals
import Filly.FilExpressions
import Filly.FilFailure
import Filly.FilLexer
import Filly.FilLoops
import Filly.FilNesting
import Filly.FilProgress
import Filly.FilTokens
import Filly.FilValues
import Filly.FilePicker
import Filly.FilteredSelection
import Filly.Focus
import Filly.FocusSearch
import Filly.FrameDelta
import Filly.Framing
import Filly.GeneratedC
import Filly.GeneratedFil
import Filly.GraphEditor
import Filly.GridSnapping
import Filly.GrowingBuffers
import Filly.HeadlessQueue
import Filly.Hub
import Filly.HubAnswers
import Filly.HubIndices
import Filly.InputLine
import Filly.KeyAgreement
import Filly.KeyBindings
import Filly.KeyedList
import Filly.Keymap
import Filly.Layout
import Filly.LayoutCalls
import Filly.LayoutFlex
import Filly.LayoutFlow
import Filly.LayoutFrames
import Filly.LayoutGrid
import Filly.LerpBetween
import Filly.LinkedChain
import Filly.LinkedStack
import Filly.Markdown
import Filly.MeasuredHeight
import Filly.MsgPack
import Filly.MsgPackRoundTrip
import Filly.NestedWidgets
import Filly.Notifications
import Filly.Numerals
import Filly.Outlines
import Filly.Overlays
import Filly.PathContours
import Filly.PathReading
import Filly.PixelCanvas
import Filly.PixelClipping
import Filly.PixelRenderer
import Filly.PluginTrust
import Filly.Positions
import Filly.ProgressStages
import Filly.Project
import Filly.ProjectFile
import Filly.ProjectHistory
import Filly.ProjectLinks
import Filly.PropertyEdits
import Filly.RangeSlider
import Filly.RateLimit
import Filly.Recordings
import Filly.Rectangles
import Filly.RelaySession
import Filly.Rendering
import Filly.Requests
import Filly.Response
import Filly.ResponseMsgPack
import Filly.RingBuffer
import Filly.Runs
import Filly.Schema
import Filly.SchemaMeaning
import Filly.ScriptBuffer
import Filly.SessionLoop
import Filly.SessionStore
import Filly.SessionTable
import Filly.Shaper
import Filly.Singles
import Filly.StepReader
import Filly.StoreHistory
import Filly.StyleLerp
import Filly.Subscriptions
import Filly.SvgPath
import Filly.TerminalRenderer
import Filly.TextWidgets
import Filly.ThemeCascade
import Filly.ThemeColors
import Filly.ThemeFiles
import Filly.ThemeLayers
import Filly.ThemeStyle
import Filly.ThemeVariables
import Filly.Traversals
import Filly.TreeRows
import Filly.TruncatedMessages
import Filly.TtyKeys
import Filly.TypedText
import Filly.Undo
import Filly.UndoHistory
import Filly.UnsavedWork
import Filly.UntrustedFiles
import Filly.Validator
import Filly.Visits
import Filly.WhileLoops
import Filly.WidgetBuilder
import Filly.WidgetFactories
import Filly.WidgetRegistry
import Filly.WireEdges
import Filly.WrappedText
