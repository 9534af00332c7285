import Monary.Lib.ByteSeq
import Monary.Lib.Ieee754
import Monary.Bson.Find
import Monary.Bson.Utf8
import Monary.Cmonary.Columns
import Monary.Cmonary.Loaders
import Monary.Cmonary.Transfer
import Monary.Cmonary.Clean
import Monary.Cmonary.Cell
import Monary.Cmonary.Arrays
import Monary.Cmonary.Mask
import Monary.Cmonary.Query
import Monary.Cmonary.Rows
import Monary.Cmonary.RoundTrip
import Monary.Lib.Effect
import Monary.Python.TypeNames
import Monary.Python.Queries
import Monary.Cmonary.Setup
import Monary.Python.World
import Monary.Python.Methods
import Monary.Python.Generators
import Monary.Python.Sessions
import Monary.Lib.Custody
import Monary.Python.Runs
import Monary.Python.Connect
import Monary.System.Actions
import Monary.Python.ColumnSpecs
import Monary.Python.Episodes
import Monary.System.Clients
import Monary.Cmonary.Chars
import Monary.Cmonary.Contract
import Monary.Cmonary.Values
import Monary.Python.Loads
import Monary.Mongoc.Cursor
import Monary.Mongoc.Uri
import Monary.Python.Uris
import Monary.Python.Ready
import Monary.Python.Sizing
import Monary.Python.Objects
import Monary.Lib.Chunks
import Monary.Python.Blocks
import Monary.Python.Partition
import Monary.Python.Agreement
import Monary.Python.Windows
import Monary.Python.Failures
import Monary.Python.History
import Monary.System.Resources
import Monary.Bson.Moved
import Monary.Cmonary.Select
import Monary.Bson.Layout
import Monary.Cmonary.Lengths
import Monary.Cmonary.Writes
import Monary.Lib.FlatMemory
import Monary.Cmonary.Flat
import Monary.Python.Dates
import Monary.Python.Validation
import Monary.Python.Cleanup
import Monary.Python.BadBytes
import Monary.Cmonary.Ownership
import Monary.Lib.OrderedMap
import Monary.Lib.Paths
import Monary.Python.OrderedDict
import Monary.Python.DictInvariant
import Monary.Python.DictRuns
import Monary.Bson.Append
import Monary.Bson.Writer
import Monary.Bson.Written
import Monary.Bson.Contents
import Monary.Bson.ReadBack
import Monary.Cmonary.FieldsList
import Monary.Mongoc.Reply
import Monary.Mongoc.Driver
import Monary.Mongoc.DriverRuns
import Monary.Lib.Pull
import Monary.Mongoc.Served
import Monary.Mongoc.DriverLoads
import Monary.Mongoc.CursorId
import Monary.Cmonary.FlatRuns
import Monary.Mongoc.CommandReply
