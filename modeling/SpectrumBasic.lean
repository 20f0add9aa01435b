import SpectrumBasic.Attempt
import SpectrumBasic.Bytes
import SpectrumBasic.Codec
import SpectrumBasic.Command.Arguments
import SpectrumBasic.Command.Basic
import SpectrumBasic.Command.Convert
import SpectrumBasic.Command.Inspect
import SpectrumBasic.Command.Report
import SpectrumBasic.Command.Run
import SpectrumBasic.Command.Script
import SpectrumBasic.Diagnostic
import SpectrumBasic.Directory
import SpectrumBasic.DiskHeader
import SpectrumBasic.Failure
import SpectrumBasic.Host
import SpectrumBasic.Keyword.Match
import SpectrumBasic.Keyword.Standard
import SpectrumBasic.Keyword.Table
import SpectrumBasic.LineRecord
import SpectrumBasic.Listing
import SpectrumBasic.Main
import SpectrumBasic.Notice
import SpectrumBasic.Number.Basic
import SpectrumBasic.Number.Binary64
import SpectrumBasic.Number.Hidden
import SpectrumBasic.Number.Literal
import SpectrumBasic.Number.Packing
import SpectrumBasic.Number.Shortest
import SpectrumBasic.Program
import SpectrumBasic.Program.Parse
import SpectrumBasic.Proofs.AutostartDirectives
import SpectrumBasic.Proofs.Characters
import SpectrumBasic.Proofs.Clashes
import SpectrumBasic.Proofs.CleanFiles
import SpectrumBasic.Proofs.DefaultSettings
import SpectrumBasic.Proofs.EncodedLines
import SpectrumBasic.Proofs.EncodedOutput
import SpectrumBasic.Proofs.EncoderSessions
import SpectrumBasic.Proofs.EncodingRuns
import SpectrumBasic.Proofs.FaultLocations
import SpectrumBasic.Proofs.HeaderChecksums
import SpectrumBasic.Proofs.HeaderFields
import SpectrumBasic.Proofs.HeaderImages
import SpectrumBasic.Proofs.HiddenNumbers
import SpectrumBasic.Proofs.InertLines
import SpectrumBasic.Proofs.Inspection
import SpectrumBasic.Proofs.KeywordLookup
import SpectrumBasic.Proofs.KeywordReading
import SpectrumBasic.Proofs.LetterCase
import SpectrumBasic.Proofs.LineListing
import SpectrumBasic.Proofs.LineNumbering
import SpectrumBasic.Proofs.ListedOutput
import SpectrumBasic.Proofs.ListedText
import SpectrumBasic.Proofs.ListedWording
import SpectrumBasic.Proofs.ListingFiles
import SpectrumBasic.Proofs.LiteralValues
import SpectrumBasic.Proofs.LongestSpelling
import SpectrumBasic.Proofs.MarkerSegments
import SpectrumBasic.Proofs.PrintedLines
import SpectrumBasic.Proofs.ProgramFile
import SpectrumBasic.Proofs.RecordStream
import SpectrumBasic.Proofs.Reencoding
import SpectrumBasic.Proofs.RelistedNumbers
import SpectrumBasic.Proofs.Relisting
import SpectrumBasic.Proofs.Scanning
import SpectrumBasic.Proofs.ScriptRuns
import SpectrumBasic.Proofs.SeparateStatements
import SpectrumBasic.Proofs.ShortForms
import SpectrumBasic.Proofs.ShownNumbers
import SpectrumBasic.Proofs.SourceComplaints
import SpectrumBasic.Proofs.SourceLines
import SpectrumBasic.Proofs.StandardKeywords
import SpectrumBasic.Proofs.StoredText
import SpectrumBasic.Proofs.StrictEncoding
import SpectrumBasic.Proofs.WholeRounding
import SpectrumBasic.Session
import SpectrumBasic.Settings
import SpectrumBasic.Source.Encoder
import SpectrumBasic.Source.Line
import SpectrumBasic.Statement.Lexeme
import SpectrumBasic.Statement.Payload
import SpectrumBasic.Storage
import SpectrumBasic.Text.Basic
import SpectrumBasic.Text.ControlSequence
import SpectrumBasic.Text.DecimalDigit
import SpectrumBasic.Text.Encoding
import SpectrumBasic.Text.Integer
import SpectrumBasic.Text.Lines
import SpectrumBasic.Text.Printable
import SpectrumBasic.Text.Quoted
import SpectrumBasic.Text.Space
import SpectrumBasic.Validation
