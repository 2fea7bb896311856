import NoteFormula.Text.Lowercase
import NoteFormula.Text.Blank
import NoteFormula.Text.Quoted
import NoteFormula.Decimal.Layout
import NoteFormula.Decimal.Numeral
import NoteFormula.Decimal.NoteText
import NoteFormula.Value.Equality
import NoteFormula.Json.Compact
import NoteFormula.Frontmatter
import NoteFormula.Token.Lexer
import NoteFormula.Formula.Parser
import NoteFormula.Formula.Evaluate
import NoteFormula.Formula.Source
import NoteFormula.Formula.Metrics
import NoteFormula.Formula.Record
import NoteFormula.Json.Spaced
import NoteFormula.Json.Document
import NoteFormula.Arguments.Session
import NoteFormula.Arguments.Report
import NoteFormula.Formula.Form
import NoteFormula.Yaml.Writer
import NoteFormula.Yaml.ScalarText
import NoteFormula.Yaml.TokenStream
import NoteFormula.Yaml.Document
import NoteFormula.Yaml.Content
import NoteFormula.Proofs.Acceptance
import NoteFormula.Proofs.AnswerTotality
import NoteFormula.Proofs.Answers
import NoteFormula.Proofs.CanonicalSource
import NoteFormula.Proofs.CompleteFormulas
import NoteFormula.Proofs.DecimalValues
import NoteFormula.Proofs.DoublePatterns
import NoteFormula.Proofs.EvaluationSteps
import NoteFormula.Proofs.Grammar
import NoteFormula.Proofs.IntegerRange
import NoteFormula.Proofs.LexicalTokens
import NoteFormula.Proofs.OverflowingFormulas
import NoteFormula.Proofs.ReadingComplete
import NoteFormula.Proofs.ReadingSound
import NoteFormula.Proofs.ReadingSteps
import NoteFormula.Proofs.ReportedKeys
import NoteFormula.Proofs.ScannedPieces
import NoteFormula.Proofs.WrittenNumbers
import NoteFormula.Proofs.NumberLayouts
import NoteFormula.Main
import NoteFormula.Proofs.LexicalRules
import NoteFormula.Proofs.MaximalMunch
import NoteFormula.Proofs.JsonTexts
import NoteFormula.Proofs.RecursiveEvaluation
import NoteFormula.Proofs.SortedKeys
import NoteFormula.Proofs.JsonNumbers
import NoteFormula.Proofs.JsonDocuments
import NoteFormula.Proofs.RestoredRecords
import NoteFormula.Proofs.RestoredFormulas
import NoteFormula.Proofs.ReadFormulas
import NoteFormula.Proofs.ReportedFormulas
import NoteFormula.Proofs.NormalizedArguments
import NoteFormula.Proofs.ComparedReadings
import NoteFormula.Proofs.NestingLimits
import NoteFormula.Proofs.RepeatedCalls
import NoteFormula.Proofs.ViablePrefixes
import NoteFormula.Proofs.ParseErrors
import NoteFormula.Proofs.ArgumentClasses
import NoteFormula.Proofs.ReferenceOrder
import NoteFormula.Proofs.KeptAnswers
import NoteFormula.Proofs.LoweredTexts
import NoteFormula.Proofs.LeadingNumbers
import NoteFormula.Proofs.LooseEquality
import NoteFormula.Proofs.ContainedTexts
import NoteFormula.Proofs.NumberTexts
import NoteFormula.Proofs.OwnTexts
import NoteFormula.Proofs.NumberFormulas
import NoteFormula.Proofs.OpenCalls
import NoteFormula.Proofs.ReadPaths
import NoteFormula.Proofs.LogicalChains
import NoteFormula.Proofs.FoldedConstants
import NoteFormula.Proofs.AcceptedRecords
import NoteFormula.Proofs.DottedPaths
import NoteFormula.Proofs.LongestNumbers
import NoteFormula.Proofs.JsonGrammar
import NoteFormula.Proofs.CompactDocuments
import NoteFormula.Proofs.SeparatedTexts
import NoteFormula.Proofs.StackWalks
import NoteFormula.Proofs.BatchAnswers
