import Presence.Formula.Family
import Presence.Formula.Valuation
import Presence.Expression.Dialect
import Presence.Expression.Dialect.Table
import Presence.Expression.Parser
import Presence.ClauseForm.InPlace
import Presence.ClauseForm.Numbering
import Presence.FeatureModel
import Presence.Checker.Basic
import Presence.Listing
import Presence.CommandLine.Run
import Presence.ConfigText
import Presence.Search
import Presence.Main
import Presence.Proofs.Formula.Walk
import Presence.Proofs.Formula.PreOrder
import Presence.Proofs.Formula.Meaning
import Presence.Proofs.Formula.TruthTable
import Presence.Proofs.Formula.Pigeons
import Presence.Proofs.Expression.RootOperator
import Presence.Proofs.Expression.Outline
import Presence.Proofs.Expression.PlainSyntax
import Presence.Proofs.Expression.Lexer
import Presence.Proofs.Expression.CanonicalTokens
import Presence.Proofs.Expression.CanonicalText
import Presence.Proofs.Expression.Depth
import Presence.Proofs.Expression.Lexemes
import Presence.Proofs.Expression.Spelling
import Presence.Proofs.Expression.Levels
import Presence.Proofs.Expression.EqualsSigns
import Presence.Proofs.Expression.Layout
import Presence.Proofs.Expression.Rereading
import Presence.Proofs.Expression.Calls
import Presence.Proofs.Expression.Brackets
import Presence.Proofs.Interner
import Presence.Proofs.Text.Utf8
import Presence.Proofs.Text.Fields
import Presence.Proofs.Dimacs.Chunks
import Presence.Proofs.Dimacs.Lines
import Presence.Proofs.Dimacs.RoundTrip
import Presence.Proofs.Dimacs.UsedNumbers
import Presence.Proofs.Dimacs.Reparse
import Presence.Proofs.Dimacs.ClauseText
import Presence.Proofs.Dimacs.Refusals
import Presence.Proofs.Dimacs.FaultLines
import Presence.Proofs.Dimacs.Layout
import Presence.Proofs.NameTable.Changes
import Presence.Proofs.ClauseForm.Conversion
import Presence.Proofs.ClauseForm.Equisatisfiable
import Presence.Proofs.ClauseForm.Limits
import Presence.Proofs.ClauseForm.InPlace
import Presence.Proofs.ClauseForm.Growth
import Presence.Proofs.ClauseForm.Freshness
import Presence.Proofs.ClauseForm.Numbering
import Presence.Proofs.ClauseForm.Allocation
import Presence.Proofs.ClauseForm.Literals
import Presence.Proofs.ClauseForm.Policies
import Presence.Proofs.ClauseForm.Tries
import Presence.Proofs.ClauseForm.Renaming
import Presence.Proofs.ClauseForm.Chains
import Presence.Proofs.Cnf
import Presence.Proofs.Search
import Presence.Proofs.Checker.Satisfiable
import Presence.Proofs.Checker.Encoding
import Presence.Proofs.Listing.Pruning
import Presence.Proofs.Listing.Limits
import Presence.Proofs.Listing.Reading
