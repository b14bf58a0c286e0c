import RecordQuery.Builder
import RecordQuery.Main
import RecordQuery.Proofs.Reader
import RecordQuery.Proofs.Shape
import RecordQuery.Proofs.Agreement
import RecordQuery.Proofs.BareCondition
import RecordQuery.Proofs.Decoding
import RecordQuery.Proofs.JsonForm
import RecordQuery.Proofs.ConditionRoundTrip
import RecordQuery.Proofs.QueryRoundTrip
import RecordQuery.Proofs.NameTables
import RecordQuery.Proofs.NothingIgnored
import RecordQuery.Proofs.SafetyCeilings
import RecordQuery.Proofs.Tiling
import RecordQuery.Proofs.ReadOnce
import RecordQuery.Proofs.Recasing
import RecordQuery.Proofs.OtherLayouts
import RecordQuery.Proofs.ConditionValue
import RecordQuery.Proofs.TestedValue
import RecordQuery.Proofs.Nesting
import RecordQuery.Proofs.PhraseForest
import RecordQuery.Proofs.Recording
import RecordQuery.Proofs.Covering
import RecordQuery.Proofs.Reducing
import RecordQuery.Proofs.Drawing
import RecordQuery.Proofs.SourceForest
import RecordQuery.Proofs.Company
import RecordQuery.Proofs.ClauseOrder
import RecordQuery.Proofs.Concatenation
import RecordQuery.Proofs.Segments
import RecordQuery.Proofs.ConditionFaults
import RecordQuery.Proofs.ClauseStore
import RecordQuery.Proofs.RememberedAnswers
import RecordQuery.Proofs.OpenedGroups
import RecordQuery.Proofs.BuiltCondition
import RecordQuery.Proofs.BuiltForms
import RecordQuery.Proofs.Registrations
import RecordQuery.Proofs.CaretPlaces
import RecordQuery.Proofs.ReducedConditions
import RecordQuery.Proofs.DecodedNames
import RecordQuery.Proofs.FlatScan
import RecordQuery.Proofs.Placement
import RecordQuery.Proofs.Precedence
import RecordQuery.Proofs.QuotedString
import RecordQuery.Proofs.PatternText
import RecordQuery.Proofs.ReferenceText
import RecordQuery.Proofs.EmptyGroups
import RecordQuery.Proofs.TypedNumbers
import RecordQuery.Proofs.JoinedConditions
import RecordQuery.Proofs.HighlightSpans
import RecordQuery.Proofs.ReportedProblems
