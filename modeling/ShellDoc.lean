import ShellDoc.Command.Arguments
import ShellDoc.Command.Execute
import ShellDoc.Command.Footprint
import ShellDoc.Command.Invocation
import ShellDoc.Command.Table
import ShellDoc.Command.Usage
import ShellDoc.Decimal.Binary64
import ShellDoc.Decimal.Numeral
import ShellDoc.Decimal.Shortest
import ShellDoc.DocBlock.Basic
import ShellDoc.DocBlock.Body
import ShellDoc.DocBlock.Inspection
import ShellDoc.DocBlock.Recognizer
import ShellDoc.Fields
import ShellDoc.Files.Access
import ShellDoc.Files.Changes
import ShellDoc.Files.Tree
import ShellDoc.Json.Reader
import ShellDoc.Json.Writer
import ShellDoc.Log.Event
import ShellDoc.Log.Journal
import ShellDoc.Log.Layout
import ShellDoc.Log.Level
import ShellDoc.Log.Operation
import ShellDoc.Log.Record
import ShellDoc.Log.Template
import ShellDoc.Main
import ShellDoc.Page.Frame
import ShellDoc.Page.Section
import ShellDoc.Page.Writer
import ShellDoc.Path.Basic
import ShellDoc.Path.NaturalOrder
import ShellDoc.Path.Relative
import ShellDoc.Proofs.BodyReading
import ShellDoc.Proofs.DirectoryRun
import ShellDoc.Proofs.Discovery
import ShellDoc.Proofs.FileAccess
import ShellDoc.Proofs.Keyed
import ShellDoc.Proofs.Overwriting
import ShellDoc.Proofs.PageStream
import ShellDoc.Proofs.RunSteps
import ShellDoc.Proofs.Segmentation
import ShellDoc.Run.Directory
import ShellDoc.Run.Naming
import ShellDoc.Run.Narration
import ShellDoc.Run.Outcome
import ShellDoc.Run.PageFile
import ShellDoc.Run.Report
import ShellDoc.Script.Content
import ShellDoc.Script.Dialect
import ShellDoc.Script.Line
import ShellDoc.Session
import ShellDoc.Settings.Basic
import ShellDoc.Settings.Override
import ShellDoc.Settings.Reader
import ShellDoc.Settings.Store
import ShellDoc.Text.Basic
import ShellDoc.Text.Blank
import ShellDoc.Text.Case
import ShellDoc.Text.Case.Context
import ShellDoc.Text.Case.Mapping
import ShellDoc.Text.Digit
import ShellDoc.Text.Lines
import ShellDoc.Text.Printable
import ShellDoc.Text.Quoted
import ShellDoc.Text.Utf8
import ShellDoc.Value.Basic
import ShellDoc.Value.Literal
import ShellDoc.Yaml.Cursor
import ShellDoc.Yaml.Fault
import ShellDoc.Yaml.Node
import ShellDoc.Yaml.Plain
import ShellDoc.Yaml.Reader
import ShellDoc.Yaml.Scalar
import ShellDoc.Yaml.Token
import ShellDoc.Yaml.Token.Lexer
import ShellDoc.Yaml.Writer
import ShellDoc.Proofs.Layout
import ShellDoc.Proofs.RefusedRun
import ShellDoc.Proofs.LooseRecognizer
import ShellDoc.Proofs.RecognizerHistory
import ShellDoc.Proofs.ScriptRun
import ShellDoc.Proofs.PageNames
import ShellDoc.Proofs.RepeatedWrites
import ShellDoc.Proofs.RepeatedRun
import ShellDoc.Proofs.JsonReading
import ShellDoc.Proofs.SavedSettings
import ShellDoc.Proofs.SettingsFaults
import ShellDoc.Proofs.NameRuns
import ShellDoc.Proofs.NaturalKeys
import ShellDoc.Proofs.ScriptListing
import ShellDoc.Proofs.ContentsLinks
import ShellDoc.Proofs.BlockEntries
import ShellDoc.Proofs.PageTitles
import ShellDoc.Proofs.SectionGrammar
import ShellDoc.Proofs.ParameterTable
import ShellDoc.Proofs.TextParts
import ShellDoc.Proofs.CleanText
import ShellDoc.Proofs.InterpreterLines
import ShellDoc.Proofs.WholeBlocks
import ShellDoc.Proofs.LogRecords
import ShellDoc.Proofs.NearestNumber
import ShellDoc.Proofs.ShortestDigits
import ShellDoc.Proofs.JsonNumbers
import ShellDoc.Proofs.JsonValues
import ShellDoc.Proofs.StructuredLines
import ShellDoc.Proofs.EffectiveSettings
import ShellDoc.Proofs.SettingsObjects
import ShellDoc.Proofs.TableColumns
import ShellDoc.Proofs.NormalLines
import ShellDoc.Proofs.CommaLists
import ShellDoc.Proofs.JournalSetup
import ShellDoc.Proofs.LogContext
