import SeriesWire.Batch.Builder
import SeriesWire.Batch.Decoder
import SeriesWire.Cell.Param
import SeriesWire.Cell.Render
import SeriesWire.Filter
import SeriesWire.Message.BatchBind
import SeriesWire.Message.Bind
import SeriesWire.Message.ParameterDescription
import SeriesWire.Payload.View
import SeriesWire.Proofs.Batch.Builder
import SeriesWire.Proofs.Batch.Decoder
import SeriesWire.Proofs.Batch.Grid
import SeriesWire.Proofs.Bitmap
import SeriesWire.Proofs.Block.Expansion
import SeriesWire.Proofs.Block.Store
import SeriesWire.Proofs.Cell.Octets
import SeriesWire.Proofs.Cell.Shown
import SeriesWire.Proofs.Message.BatchBind
import SeriesWire.Proofs.Message.Delivery
import SeriesWire.Proofs.Message.BatchBindFrame
import SeriesWire.Proofs.Message.RowBatch
import SeriesWire.Proofs.Outcomes
import SeriesWire.Proofs.Payload.Content
import SeriesWire.Proofs.Payload.Filling
import SeriesWire.Proofs.Payload.RoundTrip
import SeriesWire.Proofs.Payload.Section
import SeriesWire.Proofs.Text.Utf8
import SeriesWire.Proofs.Wire.Frame
import SeriesWire.Proofs.Wire.Reads
import SeriesWire.Readiness
import SeriesWire.Proofs.Decimal.Interval
import SeriesWire.Proofs.Decimal.Text
import SeriesWire.Proofs.GroupKey.Escape
import SeriesWire.Proofs.GroupKey.Values
import SeriesWire.Proofs.Payload.PrimaryTag
import SeriesWire.Proofs.Payload.Verdict
import SeriesWire.Proofs.Message.Ledger
import SeriesWire.Proofs.Message.TagGroups
import SeriesWire.Proofs.Message.Order
import SeriesWire.Proofs.Payload.Reuse
import SeriesWire.Proofs.Payload.Bounds
import SeriesWire.Proofs.Message.Extent
import SeriesWire.Proofs.Batch.Compressed
import SeriesWire.Proofs.Batch.Narrow
import SeriesWire.Proofs.Message.Sending
import SeriesWire.Proofs.Wire.Exact
import SeriesWire.Proofs.Wire.Inverse
import SeriesWire.Proofs.GroupKey.Control
import SeriesWire.Proofs.Message.Bind
import SeriesWire.Proofs.Message.ParameterDescription
import SeriesWire.Proofs.Message.OneFormat
import SeriesWire.Proofs.Readiness
import SeriesWire.Proofs.Message.Sealing
import SeriesWire.Proofs.Payload.RowsInPlace
import SeriesWire.Proofs.Batch.Inflation
import SeriesWire.Proofs.Cell.Agreement
import SeriesWire.Proofs.Payload.HeaderLengths
import SeriesWire.Proofs.Layout
import SeriesWire.Proofs.Epoch
import SeriesWire.Proofs.Cell.InPlace
import SeriesWire.Proofs.Cell.Text
import SeriesWire.Proofs.Message.BindRow
import SeriesWire.Proofs.Wire.Cursor
import SeriesWire.Proofs.Batch.Display
import SeriesWire.Proofs.Cell.Instants
