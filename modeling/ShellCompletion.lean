import ShellCompletion.Command.Basic
import ShellCompletion.Command.FromJson
import ShellCompletion.Command.FromYaml
import ShellCompletion.Command.Load
import ShellCompletion.Command.Printer
import ShellCompletion.Command.Validation
import ShellCompletion.CommandLine.Arguments
import ShellCompletion.CommandLine.Invocation
import ShellCompletion.CommandLine.Number
import ShellCompletion.CommandLine.Run
import ShellCompletion.CommandLine.Usage
import ShellCompletion.Completion.Context
import ShellCompletion.Completion.Line
import ShellCompletion.Completion.Paths
import ShellCompletion.FileSystem.Access
import ShellCompletion.FileSystem.Basic
import ShellCompletion.FileSystem.Error
import ShellCompletion.FileSystem.Path
import ShellCompletion.Json.Basic
import ShellCompletion.Json.Printer
import ShellCompletion.Json.Quoted
import ShellCompletion.Json.Reader
import ShellCompletion.Json.Token
import ShellCompletion.Main
import ShellCompletion.Matching.Matcher
import ShellCompletion.Matching.Memo
import ShellCompletion.Matching.Score
import ShellCompletion.Model.Basic
import ShellCompletion.Model.Collect
import ShellCompletion.Model.ContextPath
import ShellCompletion.Model.Walk
import ShellCompletion.Script.Bash.Frame
import ShellCompletion.Script.Bash.Render
import ShellCompletion.Script.Bash.Word
import ShellCompletion.Script.BufferPool
import ShellCompletion.Script.Generate
import ShellCompletion.Script.Identifier
import ShellCompletion.Script.PowerShell.Frame
import ShellCompletion.Script.PowerShell.Literal
import ShellCompletion.Script.PowerShell.Render
import ShellCompletion.Script.Shell
import ShellCompletion.Script.Template
import ShellCompletion.Text.Blank
import ShellCompletion.Text.Lines
import ShellCompletion.Text.Lowercase
import ShellCompletion.Text.Lowercase.Table
import ShellCompletion.Text.Search
import ShellCompletion.Tunables.Basic
import ShellCompletion.Tunables.File
import ShellCompletion.Yaml.Cursor
import ShellCompletion.Yaml.Decode
import ShellCompletion.Yaml.Document
import ShellCompletion.Yaml.Event.Basic
import ShellCompletion.Yaml.Event.Grammar
import ShellCompletion.Yaml.Token.Basic
import ShellCompletion.Yaml.Token.Block
import ShellCompletion.Yaml.Token.Directive
import ShellCompletion.Yaml.Token.Fold
import ShellCompletion.Yaml.Token.Plain
import ShellCompletion.Yaml.Token.Quoted
import ShellCompletion.Yaml.Token.Scanner
import ShellCompletion.Yaml.Token.Tag
import ShellCompletion.Proofs.Matching.Ranking
import ShellCompletion.Proofs.Matching.Tiers
import ShellCompletion.Proofs.Model.Chain
import ShellCompletion.Proofs.Model.Contexts
import ShellCompletion.Proofs.Command.Siblings
import ShellCompletion.Proofs.Command.Ways
import ShellCompletion.Proofs.Command.WellFormed
import ShellCompletion.Proofs.Completion.Descent
import ShellCompletion.Proofs.Command.FlagNames
import ShellCompletion.Proofs.Command.Names
import ShellCompletion.Proofs.Completion.Typing
import ShellCompletion.Proofs.Model.OneNode
import ShellCompletion.Proofs.Model.Levels
import ShellCompletion.Proofs.Model.WalkOrder
import ShellCompletion.Proofs.Model.FlagRecords
import ShellCompletion.Proofs.Script.Bash.Quoting
import ShellCompletion.Proofs.Script.Bash.Keys
import ShellCompletion.Proofs.Completion.FlagValue
import ShellCompletion.Proofs.Text.FinalSigma
import ShellCompletion.Proofs.Matching.FullScore
import ShellCompletion.Proofs.Script.Template
import ShellCompletion.Proofs.Script.PowerShell.Reading
import ShellCompletion.Proofs.Script.Identifiers
import ShellCompletion.Proofs.Text.Joined
import ShellCompletion.Proofs.Script.PowerShell.Rows
import ShellCompletion.Proofs.Script.PowerShell.Tables
import ShellCompletion.Proofs.Script.Bash.Arithmetic
import ShellCompletion.Proofs.Script.Bash.Settings
import ShellCompletion.Proofs.Json.ReadBack
import ShellCompletion.Proofs.FileSystem.Writing
import ShellCompletion.Proofs.Command.TreeText
import ShellCompletion.Proofs.Script.Bash.Declarations
import ShellCompletion.Proofs.Script.Bash.Splitting
import ShellCompletion.Proofs.Script.Bash.Tables
import ShellCompletion.Proofs.Script.Bash.FrameLines
import ShellCompletion.Proofs.Matching.Formula
import ShellCompletion.Proofs.Script.BufferPool
import ShellCompletion.Proofs.CommandLine.Generate
import ShellCompletion.Proofs.Yaml.PlainLines
import ShellCompletion.Proofs.Yaml.PlainMapping
import ShellCompletion.Proofs.Yaml.Decode
import ShellCompletion.Proofs.Tunables.File
import ShellCompletion.Proofs.Script.Bash.Words
import ShellCompletion.Proofs.Matching.ScoreGap
import ShellCompletion.Proofs.Matching.Offers
import ShellCompletion.Proofs.Matching.Subsequences
import ShellCompletion.Proofs.Matching.Comparison
import ShellCompletion.Proofs.Model.WalkLength
import ShellCompletion.Proofs.Completion.Candidates
import ShellCompletion.Proofs.Matching.MemoContents
import ShellCompletion.Proofs.Completion.PathListing
import ShellCompletion.Proofs.Script.Substitution
import ShellCompletion.Proofs.Script.Fragments
