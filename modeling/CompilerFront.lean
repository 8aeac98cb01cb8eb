import CompilerFront.Text.Basic
import CompilerFront.Text.Edit
import CompilerFront.Text.Utf8
import CompilerFront.Platform
import CompilerFront.Path
import CompilerFront.Language
import CompilerFront.Diagnostic
import CompilerFront.Child
import CompilerFront.Simplify.Fragment
import CompilerFront.Simplify.Line
import CompilerFront.Terminal
import CompilerFront.Formatter
import CompilerFront.Config
import CompilerFront.Command
import CompilerFront.Options.Basic
import CompilerFront.Options.Usage
import CompilerFront.Options.Parse
import CompilerFront.Task
import CompilerFront.Session
import CompilerFront.Build
import CompilerFront.Program
import CompilerFront.Main
import CompilerFront.Proofs.Session
import CompilerFront.Proofs.Path.FileName
import CompilerFront.Proofs.Path.NewExtension
import CompilerFront.Proofs.Build.LexerSources
import CompilerFront.Proofs.Build.LexerRuns
import CompilerFront.Proofs.Build.Stages
import CompilerFront.Proofs.Child.InterruptRuns
import CompilerFront.Proofs.Options.Arrangement
import CompilerFront.Proofs.Text.Trim
import CompilerFront.Proofs.Text.Occurrence
import CompilerFront.Proofs.Build.Presentation
import CompilerFront.Proofs.Diagnostic.Quotation
import CompilerFront.Proofs.Diagnostic.Segments
import CompilerFront.Proofs.Diagnostic.Printed
import CompilerFront.Proofs.Diagnostic.Respaced
import CompilerFront.Proofs.Simplify.Quotations
import CompilerFront.Proofs.Options.ProgramArguments
import CompilerFront.Proofs.Options.DefaultDestination
import CompilerFront.Proofs.Program.ExitStatus
import CompilerFront.Proofs.Simplify.HeaderLocations
import CompilerFront.Proofs.Simplify.PlainCode
import CompilerFront.Proofs.Simplify.IncludeChain
import CompilerFront.Proofs.Simplify.Fill
import CompilerFront.Proofs.Simplify.HeaderDiagnostics
import CompilerFront.Proofs.Simplify.IdentifierTokens
import CompilerFront.Proofs.Simplify.Arguments
import CompilerFront.Proofs.Simplify.ClauseBindings
import CompilerFront.Proofs.Simplify.RaisedLevel
import CompilerFront.Proofs.Simplify.FullNames
import CompilerFront.Proofs.Simplify.ClosedBrackets
import CompilerFront.Proofs.Simplify.GreedyFill
import CompilerFront.Proofs.Simplify.ContainerSearch
import CompilerFront.Proofs.Simplify.SequenceTypes
import CompilerFront.Proofs.Simplify.PrintedTypes
import CompilerFront.Proofs.Simplify.NestedContainers
import CompilerFront.Proofs.Simplify.Adaptors
import CompilerFront.Proofs.Build.SharedOutputs
import CompilerFront.Proofs.Formatter.Unchanged
import CompilerFront.Proofs.Formatter.Painted
import CompilerFront.Proofs.Formatter.LineByLine
import CompilerFront.Proofs.Build.PackageWords
import CompilerFront.Proofs.Build.Perceived
import CompilerFront.Proofs.Text.Utf8Sequences
import CompilerFront.Proofs.Platform.Decoding
import CompilerFront.Proofs.Build.Launch
import CompilerFront.Proofs.Language.SharedLanguage
import CompilerFront.Proofs.Text.Slice
import CompilerFront.Proofs.Diagnostic.Sliced
import CompilerFront.Proofs.Simplify.SlicedClauses
import CompilerFront.Proofs.Simplify.SlicedCode
import CompilerFront.Proofs.Simplify.SlicedLine
