import RecordCoercion.Numeric.Binary
import RecordCoercion.Text.Characters
import RecordCoercion.Numeric.FloatText
import RecordCoercion.Numeric.FloatLiteral
import RecordCoercion.Calendar.Date
import RecordCoercion.Calendar.Week
import RecordCoercion.Temporal.Pattern
import RecordCoercion.Temporal.Render
import RecordCoercion.Temporal.Scan
import RecordCoercion.Temporal.Resolution
import RecordCoercion.Catalog.DeclaredType
import RecordCoercion.Value.Display
import RecordCoercion.Value.Equality
import RecordCoercion.Json.Text
import RecordCoercion.Catalog.Form
import RecordCoercion.Value.Form
import RecordCoercion.Value.Document
import RecordCoercion.Conversion.Basic
import RecordCoercion.Proofs.Conversion.Families
import RecordCoercion.Proofs.Conversion.Scalars
import RecordCoercion.Proofs.Value.Insertion
import RecordCoercion.Proofs.Value.DistinctKeys
import RecordCoercion.Proofs.Conversion.MapToRecord
import RecordCoercion.Proofs.Conversion.Agreement
import RecordCoercion.Proofs.Conversion.Shape
import RecordCoercion.Proofs.Conversion.Location
import RecordCoercion.Proofs.Calendar.DayNumber
import RecordCoercion.Proofs.Temporal.CivilTime
import RecordCoercion.Proofs.Temporal.Completion
import RecordCoercion.Proofs.Temporal.PartialPattern
import RecordCoercion.Proofs.Temporal.Offset
import RecordCoercion.Proofs.Temporal.Specifiers
import RecordCoercion.Proofs.Conversion.Rendering
import RecordCoercion.Proofs.Conversion.Leaves
import RecordCoercion.Proofs.Conversion.Repetition
import RecordCoercion.Proofs.Conversion.FormattedRoundTrip
import RecordCoercion.Proofs.Conversion.TextKeys
import RecordCoercion.Proofs.Conversion.ThroughMap
import RecordCoercion.Proofs.Conversion.Flattening
import RecordCoercion.Proofs.Conversion.EntryOrder
import RecordCoercion.Proofs.Conversion.TextRoundTrip
import RecordCoercion.Proofs.Conversion.WrittenDefaults
import RecordCoercion.Proofs.Conversion.SameTypes
import RecordCoercion.Proofs.Json.WrittenDocuments
import RecordCoercion.Proofs.Value.SameKey
import RecordCoercion.Proofs.Value.LastWrite
import RecordCoercion.Proofs.Catalog.SameType
import RecordCoercion.Proofs.Value.Equality
import RecordCoercion.Proofs.Conversion.NumberKinds
import RecordCoercion.Proofs.Conversion.Reasons
import RecordCoercion.Proofs.Conversion.Narrowing
import RecordCoercion.Proofs.Conversion.Truncation
import RecordCoercion.Proofs.Conversion.IntegerRounding
import RecordCoercion.Proofs.Conversion.WideningPaths
import RecordCoercion.Proofs.Conversion.Literals
import RecordCoercion.Proofs.Conversion.DateTimeRoundTrip
import RecordCoercion.Proofs.Conversion.EpochSeconds
import RecordCoercion.Proofs.Catalog.SchemaConstruction
import RecordCoercion.Proofs.Catalog.WrittenTypes
import RecordCoercion.Proofs.Value.WrittenValues
import RecordCoercion.Proofs.Value.WrittenFloats
import RecordCoercion.Proofs.Json.IntegerLiterals
