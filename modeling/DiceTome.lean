import DiceTome.Arena
import DiceTome.Arena.Parse
import DiceTome.Builtin
import DiceTome.CommandLine
import DiceTome.CommandLine.Word
import DiceTome.Decimal.Dyadic
import DiceTome.Decimal.Read
import DiceTome.Decimal.Shortest
import DiceTome.Decimal.Text
import DiceTome.Decimal.Total
import DiceTome.Diagnostic
import DiceTome.Dice.Scripted
import DiceTome.Dice.Twister
import DiceTome.Error
import DiceTome.EvalError
import DiceTome.Evaluate
import DiceTome.Expr
import DiceTome.Expr.Printer
import DiceTome.File.Inflow
import DiceTome.File.Path
import DiceTome.File.Tree
import DiceTome.Index
import DiceTome.Journal
import DiceTome.Location
import DiceTome.Main
import DiceTome.Operator
import DiceTome.Outcome
import DiceTome.Proofs.Climb
import DiceTome.Proofs.Plant
import DiceTome.Report
import DiceTome.Roll
import DiceTome.SaveTarget
import DiceTome.Scope
import DiceTome.Session
import DiceTome.Settings
import DiceTome.Settings.BlockText
import DiceTome.Settings.Cursor
import DiceTome.Settings.Datum
import DiceTome.Settings.Document
import DiceTome.Settings.Document.Error
import DiceTome.Settings.Document.Node
import DiceTome.Settings.Document.Scan
import DiceTome.Settings.Document.Token
import DiceTome.Settings.Layout
import DiceTome.Settings.Moment
import DiceTome.Settings.Quotation
import DiceTome.Settings.Scalar
import DiceTome.Step
import DiceTome.Text.Blank
import DiceTome.Text.Digit
import DiceTome.Text.Integer
import DiceTome.Text.Letter
import DiceTome.Text.Lines
import DiceTome.Text.Printable
import DiceTome.Text.Quoted
import DiceTome.Text.Ranges
import DiceTome.Text.Uppercase
import DiceTome.Text.Utf8
import DiceTome.Text.Words
import DiceTome.Token
import DiceTome.Token.Scan
import DiceTome.Tome
import DiceTome.Value
import DiceTome.World
import DiceTome.Proofs.StackParser
import DiceTome.Proofs.PrintedTokens
import DiceTome.Proofs.ScannedKinds
import DiceTome.Proofs.PrintedText
import DiceTome.Proofs.RoundTrip
import DiceTome.Proofs.SoundTokens
import DiceTome.Proofs.Clashes
import DiceTome.Proofs.DanglingElse
import DiceTome.Proofs.Steps
import DiceTome.Proofs.Tomes
import DiceTome.Proofs.TomeLines
import DiceTome.Proofs.Bindings
import DiceTome.Proofs.NeatText
import DiceTome.Proofs.DecimalSigns
import DiceTome.Proofs.ValueText
import DiceTome.Proofs.Grammar
import DiceTome.Proofs.Coupling
import DiceTome.Proofs.ScopeTree
import DiceTome.Proofs.Calls
import DiceTome.Proofs.LexicalScope
import DiceTome.Proofs.Reachable
import DiceTome.Proofs.ReadValues
import DiceTome.Proofs.Restore
import DiceTome.Proofs.Reload
import DiceTome.Proofs.SimilarDice
import DiceTome.Proofs.DiceLog
import DiceTome.Proofs.LiteralValues
import DiceTome.Proofs.StackBalance
import DiceTome.Proofs.Segments
import DiceTome.Proofs.Failures
import DiceTome.Proofs.OpenScopes
import DiceTome.Proofs.Listings
import DiceTome.Proofs.ArenaWalks
import DiceTome.Proofs.FinalStacks
import DiceTome.Proofs.EarliestErrors
import DiceTome.Proofs.CallDepth
import DiceTome.Proofs.Diagnoses
import DiceTome.Proofs.Tiling
import DiceTome.Proofs.RollSuffixes
import DiceTome.Proofs.Newlines
import DiceTome.Proofs.Leaving
import DiceTome.Proofs.LineByLine
import DiceTome.Proofs.RootHistory
import DiceTome.Proofs.DumpOrder
import DiceTome.Proofs.Deeds
import DiceTome.Proofs.FileTrees
import DiceTome.Proofs.Unreported
import DiceTome.Proofs.Returns
import DiceTome.Proofs.Declarations
import DiceTome.Proofs.SaveAndLoad
import DiceTome.Proofs.Exits
import DiceTome.Proofs.RememberedTome
import DiceTome.Proofs.SavedPaths
import DiceTome.Proofs.DeepThrows
import DiceTome.Proofs.FailedThrows
import DiceTome.Proofs.QuotedLines
import DiceTome.Proofs.UnrolledValues
import DiceTome.Proofs.KeptFaces
import DiceTome.Proofs.ThrownRolls
import DiceTome.Proofs.Extremes
import DiceTome.Proofs.DigitTexts
import DiceTome.Proofs.FreeNames
import DiceTome.Proofs.Advances
import DiceTome.Proofs.ReportedErrors
