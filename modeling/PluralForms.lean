import PluralForms.Check
import PluralForms.Classification
import PluralForms.CommandLine.Outcome
import PluralForms.Diagnostic
import PluralForms.Folder
import PluralForms.Main
import PluralForms.Proofs.Classification.Dependence
import PluralForms.Proofs.Classification.Explanation
import PluralForms.Proofs.Clause.Faults
import PluralForms.Proofs.CommandLine.Check
import PluralForms.Proofs.CommandLine.Classify
import PluralForms.Proofs.Condition.FailClosed
import PluralForms.Proofs.Diagnostic.Clauses
import PluralForms.Proofs.Diagnostic.Samples
import PluralForms.Proofs.Diagnostic.Spans
import PluralForms.Proofs.Numeral.Outcomes
import PluralForms.Proofs.Operands.Coherent
import PluralForms.Proofs.Operands.Integers
import PluralForms.Proofs.Operands.Written
import PluralForms.Proofs.Operands.WrittenZeros
import PluralForms.Proofs.Relation.Fractions
import PluralForms.Proofs.Relation.Ranges
import PluralForms.Proofs.Rule.Rereading
import PluralForms.Proofs.Rule.RoundTrip
import PluralForms.Proofs.RuleSet.Flaws
import PluralForms.Proofs.Sample.Accounting
import PluralForms.Proofs.Store.History
import PluralForms.Proofs.Store.Refinement
import PluralForms.Proofs.Store.Reload
import PluralForms.Proofs.Table.Fallback
import PluralForms.Proofs.Table.Mapping
import PluralForms.Proofs.Table.Nearest
import PluralForms.Proofs.Table.OwnName
import PluralForms.Proofs.Verification.Samples
import PluralForms.Proofs.Word.Ranges
import PluralForms.SampleSheet
import PluralForms.Store
import PluralForms.Table.Lookup
import PluralForms.Table.Suggestion
import PluralForms.Verification
