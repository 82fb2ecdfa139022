import QioParquet.Lib.Overwrite
import QioParquet.Lib.Slices
import QioParquet.Lib.BinaryFormat
import QioParquet.Lib.OptionalRows
import QioParquet.Read.Values
import QioParquet.Read.Utf8
import QioParquet.Read.Cells
import QioParquet.Read.StringCache
import QioParquet.Read.Decode
import QioParquet.Read.Delivery
import QioParquet.Read.DecoderLaws
import QioParquet.Read.File
import QioParquet.Read.Chunk
import QioParquet.Read.ChunkLaws
import QioParquet.Lib.Interleaving
import QioParquet.Read.Collect
import QioParquet.Read.TaskLaws
import QioParquet.Read.Schedule
import QioParquet.Read.CollectLaws
import QioParquet.Read.Agreement
import QioParquet.Read.TextValidity
import QioParquet.Plan.Convert
import QioParquet.Plan.Apply
import QioParquet.Plan.Collected
import QioParquet.Plan.Bloom
import QioParquet.Plan.BloomLaws
import QioParquet.Write.Prepare
import QioParquet.Read.CacheLaws
import QioParquet.Read.Utf8Exact
import QioParquet.Read.IntegerReads
import QioParquet.Read.FailureLaws
import QioParquet.Plan.Types
import QioParquet.Read.Reentry
import QioParquet.Write.Pack
import QioParquet.Write.RoundTrip
import QioParquet.Write.WrittenText
import QioParquet.Lib.Buffering
import QioParquet.Write.Writer
import QioParquet.Write.RowGroups
import QioParquet.Append.Footer
import QioParquet.Append.Entries
import QioParquet.Lib.Raising
import QioParquet.Write.Output
import QioParquet.Write.Body
import QioParquet.Write.OutputLaws
import QioParquet.Write.Cleanup
import QioParquet.Write.Written
import QioParquet.Write.OnFile
import QioParquet.Write.Appended
import QioParquet.Write.FailedAppend
import QioParquet.Write.Int32Columns
import QioParquet.Lib.BoundedFill
import QioParquet.Lib.Text
import QioParquet.Inspect.Bounds
import QioParquet.Inspect.PageIndex
import QioParquet.Inspect.Statistics
import QioParquet.Plan.LogicalText
import QioParquet.Plan.TextChannel
import QioParquet.Write.Schema
import QioParquet.Write.SchemaLaws
import QioParquet.Write.AppendCheck
import QioParquet.Write.Names
import QioParquet.Lib.Regroup
import QioParquet.Plan.BinaryDecimal
import QioParquet.Read.TextPlace
import QioParquet.Inspect.Validate
import QioParquet.Write.GroupArithmetic
import QioParquet.Read.Utf8Index
import QioParquet.Encoding.Bitpack
import QioParquet.Encoding.BooleanPage
import QioParquet.Encoding.Rle
import QioParquet.Lib.Supply
import QioParquet.Encoding.RleLaws
import QioParquet.Encoding.Packing
import QioParquet.Encoding.RleEncoder
import QioParquet.Encoding.RleReaders
import QioParquet.Page.Levels
import QioParquet.Lib.RingBuffer
import QioParquet.Pool.PoolLaws
import QioParquet.Pool.PoolProgress
import QioParquet.Lib.Paging
import QioParquet.Lib.Prefixed
import QioParquet.Page.TextWriter
import QioParquet.Page.TextReader
import QioParquet.Page.StoredPages
import QioParquet.Page.TextChunks
import QioParquet.Page.ChunkLoading
import QioParquet.Page.ChunkReading
import QioParquet.Page.PlainFormat
import QioParquet.Write.TextFile
