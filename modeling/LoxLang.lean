import LoxLang.CommandLine
import LoxLang.CommandLine.Flag
import LoxLang.CommandLine.Prompt
import LoxLang.CommandLine.Settings
import LoxLang.Config.Document
import LoxLang.Config.Load
import LoxLang.Diagnostic
import LoxLang.Diagnostic.Report
import LoxLang.File
import LoxLang.Main
import LoxLang.Number.Binary64
import LoxLang.Number.Decimal
import LoxLang.Number.Display
import LoxLang.Number.Integer
import LoxLang.Number.Shortest
import LoxLang.Options
import LoxLang.Parse
import LoxLang.Parse.Basic
import LoxLang.Parse.Expression
import LoxLang.Parse.Parser
import LoxLang.Parse.Statement
import LoxLang.Placement
import LoxLang.Proofs.Grammar
import LoxLang.Proofs.Lexical
import LoxLang.Run.Basic
import LoxLang.Run.Evaluate
import LoxLang.Run.Fault
import LoxLang.Run.Object
import LoxLang.Run.Operator
import LoxLang.Session
import LoxLang.Store
import LoxLang.Store.Bindings
import LoxLang.Text.Printable
import LoxLang.Text.Quoted
import LoxLang.Text.Utf8
import LoxLang.Token
import LoxLang.Token.Character
import LoxLang.Token.Scan
import LoxLang.Tree
import LoxLang.Tree.Dump
import LoxLang.Value
import LoxLang.Yaml.Character
import LoxLang.Yaml.Cursor
import LoxLang.Yaml.Lexeme
import LoxLang.Yaml.Lexeme.Block
import LoxLang.Yaml.Lexeme.Plain
import LoxLang.Yaml.Lexeme.Property
import LoxLang.Yaml.Lexeme.Quoted
import LoxLang.Yaml.Node
import LoxLang.Yaml.Parse
import LoxLang.Yaml.Scalar
import LoxLang.Yaml.Scan
import LoxLang.Yaml.Timestamp
import LoxLang.Proofs.Parse.Sound
import LoxLang.Proofs.Parse.Complete
import LoxLang.Proofs.Parse
import LoxLang.Proofs.Run.Course
import LoxLang.Proofs.CallStack
import LoxLang.Proofs.Run.Discipline
import LoxLang.Proofs.Tree.Alike
import LoxLang.Proofs.Parse.Alike
import LoxLang.Proofs.Compile
import LoxLang.Proofs.Placement.Store
import LoxLang.Proofs.Placement.Run
import LoxLang.Proofs.Placement
import LoxLang.Proofs.Scan.Pieces
import LoxLang.Proofs.Scan.Lexer
import LoxLang.Proofs.Scan.Counters
import LoxLang.Proofs.Scan.Kinds
import LoxLang.Proofs.Joining
import LoxLang.Proofs.Store.Alike
import LoxLang.Proofs.Scan
import LoxLang.Proofs.Run.Quiet
import LoxLang.Proofs.Hygiene
import LoxLang.Proofs.Parse.Cursor
import LoxLang.Proofs.Parse.Descent
import LoxLang.Proofs.Run.History
import LoxLang.Proofs.Resolution.Store
import LoxLang.Proofs.Resolution
import LoxLang.Proofs.Parse.Data
import LoxLang.Proofs.Store.Founded
import LoxLang.Proofs.Run.Founded
import LoxLang.Proofs.Founded
import LoxLang.Proofs.Run.Prompt
import LoxLang.Proofs.Termination
import LoxLang.Proofs.Limits
import LoxLang.Proofs.Store.Spread
import LoxLang.Proofs.Run.Spread
import LoxLang.Proofs.Lowering
import LoxLang.Proofs.Trace
import LoxLang.Proofs.Refusal
import LoxLang.Proofs.Layout
import LoxLang.Proofs.Run.Provenance
import LoxLang.Proofs.Location
import LoxLang.Proofs.Parse.Whole
import LoxLang.Proofs.Continuation
import LoxLang.Proofs.Recovery
import LoxLang.Proofs.Complaints
import LoxLang.Proofs.Placement.Walk
import LoxLang.Proofs.Placement.Nodes
import LoxLang.Proofs.Offences
import LoxLang.Proofs.Scan.Respaced
import LoxLang.Proofs.Scan.Lines
import LoxLang.Proofs.Store.Writes
import LoxLang.Proofs.Text.Quoted
import LoxLang.Proofs.Number.Display
import LoxLang.Proofs.Parse.Literals
import LoxLang.Proofs.Tree.Form
import LoxLang.Proofs.Tree.Readable
import LoxLang.Proofs.Tree.Legible
import LoxLang.Proofs.Tree.Reading
import LoxLang.Proofs.Unambiguous
import LoxLang.Proofs.Settings
import LoxLang.Proofs.Numbers
import LoxLang.Proofs.Initializers.Run
import LoxLang.Proofs.Initializers
import LoxLang.Proofs.Parse.Failure
import LoxLang.Proofs.Resumption
