import MixedInteger.Session.Vocabulary
import MixedInteger.Proofs.Reformulation.Sequence
import MixedInteger.Proofs.Document.RowNames
import MixedInteger.Proofs.Document.ForeignTerms
import MixedInteger.Proofs.Document.SameText
import MixedInteger.Proofs.Document.Feasibility
import MixedInteger.Proofs.Engine.Lifetime
import MixedInteger.Proofs.Engine.Cleanup
import MixedInteger.Proofs.Session.Coherence
import MixedInteger.Proofs.Reformulation.TruthCompletion
import MixedInteger.Proofs.Reformulation.SwitchCompletion
import MixedInteger.Proofs.Reformulation.PiecewiseCompletion
import MixedInteger.Proofs.Reformulation.MagnitudeCompletion
import MixedInteger.Proofs.Reformulation.FormulaCompletion
import MixedInteger.Proofs.Reformulation.DivisionCompletion
import MixedInteger.Proofs.Reformulation.RangeCompletion
import MixedInteger.Proofs.Linear.Tightness
import MixedInteger.Proofs.Linear.RoundedBounds
import MixedInteger.Proofs.Value.Calculation
import MixedInteger.Proofs.Value.Summation
import MixedInteger.Proofs.Model.Additions
import MixedInteger.Proofs.Reformulation.Refusal
import MixedInteger.Proofs.Document.GivenNames
import MixedInteger.Proofs.Engine.Reading
import MixedInteger.Proofs.Engine.Described
import MixedInteger.Proofs.Session.ColumnOrder
import MixedInteger.Proofs.Document.NumberText
import MixedInteger.Proofs.Reformulation.FreshNames
