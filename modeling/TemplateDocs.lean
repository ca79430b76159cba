import TemplateDocs.Block
import TemplateDocs.Capture
import TemplateDocs.Cli.Arguments
import TemplateDocs.Cli.Program
import TemplateDocs.Command
import TemplateDocs.Config
import TemplateDocs.DataFile
import TemplateDocs.Decimal.Double
import TemplateDocs.Decimal.Shortest
import TemplateDocs.Diagnostic
import TemplateDocs.Document
import TemplateDocs.Engine
import TemplateDocs.Error
import TemplateDocs.Files.Collect
import TemplateDocs.Files.Fault
import TemplateDocs.Files.Ignore
import TemplateDocs.Files.Path
import TemplateDocs.Files.Pattern
import TemplateDocs.Files.Tree
import TemplateDocs.Generate
import TemplateDocs.Jinja.Engine
import TemplateDocs.Jinja.Eval
import TemplateDocs.Jinja.Fault
import TemplateDocs.Jinja.Reader
import TemplateDocs.Jinja.Token
import TemplateDocs.Jinja.Tree
import TemplateDocs.Jinja.Value
import TemplateDocs.Json.Reader
import TemplateDocs.Json.Token
import TemplateDocs.Json.Value
import TemplateDocs.Json.Writer
import TemplateDocs.Lines
import TemplateDocs.Main
import TemplateDocs.Metadata.Basic
import TemplateDocs.Metadata.Decode
import TemplateDocs.Metadata.ParameterLists
import TemplateDocs.Metadata.Record
import TemplateDocs.Mixin
import TemplateDocs.Outline.Fault
import TemplateDocs.Outline.Flow
import TemplateDocs.Outline.Line
import TemplateDocs.Outline.Plain
import TemplateDocs.Outline.Quoted
import TemplateDocs.Outline.Reader
import TemplateDocs.Outline.Scalar
import TemplateDocs.Parameter.Basic
import TemplateDocs.Parameter.Token
import TemplateDocs.Parameter.Type
import TemplateDocs.Power
import TemplateDocs.Render
import TemplateDocs.Run
import TemplateDocs.Shell.Run
import TemplateDocs.Shell.Script
import TemplateDocs.Shell.Word
import TemplateDocs.Text.Basic
import TemplateDocs.Text.Case
import TemplateDocs.Text.Taken
import TemplateDocs.Text.Utf8
import TemplateDocs.Text.Word
import TemplateDocs.Toml.Reader
import TemplateDocs.Toml.Scalar
import TemplateDocs.Toml.Value
import TemplateDocs.Variant
import TemplateDocs.Yaml.Reader
import TemplateDocs.Yaml.Scalar
import TemplateDocs.Yaml.Token
import TemplateDocs.Proofs.Findings
import TemplateDocs.Proofs.Outline.Locality
import TemplateDocs.Proofs.Outline.Entries
import TemplateDocs.Proofs.Text
import TemplateDocs.Proofs.Metadata.Quoting
import TemplateDocs.Proofs.Metadata.Escaping
import TemplateDocs.Proofs.Metadata.Idempotence
import TemplateDocs.Proofs.Capture
import TemplateDocs.Proofs.Metadata.CaptureDirective
import TemplateDocs.Proofs.Metadata.ParameterEntries
import TemplateDocs.Proofs.Outline.Blocks
import TemplateDocs.Proofs.Extraction
import TemplateDocs.Proofs.Canonical
import TemplateDocs.Proofs.Outline.Quoted
import TemplateDocs.Proofs.Outline.Words
import TemplateDocs.Proofs.Outline.CompactJson
import TemplateDocs.Proofs.Outline.Writing
import TemplateDocs.Proofs.Authoring
import TemplateDocs.Proofs.Linking
import TemplateDocs.Proofs.Dependencies
import TemplateDocs.Proofs.Rendering
import TemplateDocs.Proofs.Pool
import TemplateDocs.Proofs.Runs
import TemplateDocs.Proofs.Outline.Renumbering
import TemplateDocs.Proofs.Displacement
import TemplateDocs.Proofs.Records
import TemplateDocs.Proofs.Metadata.Refusal
import TemplateDocs.Proofs.Metadata.Lossless
import TemplateDocs.Proofs.Parameter.TypeExpression
import TemplateDocs.Proofs.Parameter.TypeGrammar
import TemplateDocs.Proofs.Outline.FlowReading
import TemplateDocs.Proofs.Outline.Wholeness
import TemplateDocs.Proofs.Outline.Values
import TemplateDocs.Proofs.Metadata.Tidiness
import TemplateDocs.Proofs.Locals
import TemplateDocs.Proofs.Files.Relisting
import TemplateDocs.Proofs.Files.Trails
import TemplateDocs.Proofs.Files.Collection
import TemplateDocs.Proofs.Json.Reading
import TemplateDocs.Proofs.Output
import TemplateDocs.Proofs.Examples
import TemplateDocs.Proofs.Outline.Literals
import TemplateDocs.Proofs.Outline.Stopping
import TemplateDocs.Proofs.Outline.Insertion
import TemplateDocs.Proofs.Parameter.WrittenEntries
import TemplateDocs.Proofs.Parameter.WholeTypeMarks
import TemplateDocs.Proofs.Parameter.BracketedDefaults
import TemplateDocs.Proofs.CapturedCode
import TemplateDocs.Proofs.MixinTable
import TemplateDocs.Proofs.CommentedMixins
import TemplateDocs.Proofs.FaultLines
import TemplateDocs.Proofs.Files.Ending
import TemplateDocs.Proofs.Files.Exactness
import TemplateDocs.Proofs.LineEnds
import TemplateDocs.Proofs.Outline.Folding
