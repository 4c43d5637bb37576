import OrderedIndex.Directory.Entry
import OrderedIndex.Directory.PathCounts
import OrderedIndex.Master.Basic
import OrderedIndex.Proofs.Bytes.Cuts
import OrderedIndex.Proofs.Bytes.FixedCodecs
import OrderedIndex.Proofs.Bytes.Reading
import OrderedIndex.Proofs.Bytes.Utf8
import OrderedIndex.Proofs.Codec
import OrderedIndex.Proofs.Computation
import OrderedIndex.Proofs.Cursor.Likeness
import OrderedIndex.Proofs.Cursor.Mirroring
import OrderedIndex.Proofs.Cursor.Position
import OrderedIndex.Proofs.Cursor.Scan
import OrderedIndex.Proofs.Cursor.Simulation
import OrderedIndex.Proofs.Master.Contents
import OrderedIndex.Proofs.Master.Damage
import OrderedIndex.Proofs.Master.Identifiers
import OrderedIndex.Proofs.Master.Reachable
import OrderedIndex.Proofs.Master.Replacement
import OrderedIndex.Proofs.Master.RoundTrip
import OrderedIndex.Proofs.Master.Saving
import OrderedIndex.Proofs.Master.Snapshot
import OrderedIndex.Proofs.Order
import OrderedIndex.Proofs.Reversal
import OrderedIndex.Proofs.Shape.Balance
import OrderedIndex.Proofs.Shape.Renaming
import OrderedIndex.Proofs.Shape.Search
import OrderedIndex.Proofs.Shape.Sequence
import OrderedIndex.Proofs.Shape.Sides
import OrderedIndex.Proofs.SortedList
import OrderedIndex.Proofs.Store.Array
import OrderedIndex.Proofs.Store.Calls
import OrderedIndex.Proofs.Store.Closing
import OrderedIndex.Proofs.Store.Cursor
import OrderedIndex.Proofs.Store.Custody
import OrderedIndex.Proofs.Store.Halving
import OrderedIndex.Proofs.Store.Lifetime
import OrderedIndex.Proofs.Store.PlannedFailures
import OrderedIndex.Proofs.Store.Requests
import OrderedIndex.Proofs.Store.SetBehaviour
import OrderedIndex.Proofs.Store.Sorted
import OrderedIndex.Proofs.Store.Trace
import OrderedIndex.Proofs.Table.Borrowing
import OrderedIndex.Proofs.Table.Change
import OrderedIndex.Proofs.Table.Contents
import OrderedIndex.Proofs.Table.Counts
import OrderedIndex.Proofs.Table.Cursor
import OrderedIndex.Proofs.Table.CursorCalls
import OrderedIndex.Proofs.Table.Custody
import OrderedIndex.Proofs.Table.Duplicates
import OrderedIndex.Proofs.Table.FailedMoves
import OrderedIndex.Proofs.Table.FailedValueMoves
import OrderedIndex.Proofs.Table.Failures
import OrderedIndex.Proofs.Table.Flapping
import OrderedIndex.Proofs.Table.Group
import OrderedIndex.Proofs.Table.GroupCalls
import OrderedIndex.Proofs.Table.GroupChanges
import OrderedIndex.Proofs.Table.GroupCustody
import OrderedIndex.Proofs.Table.GroupLayouts
import OrderedIndex.Proofs.Table.GroupMoves
import OrderedIndex.Proofs.Table.HeldValues
import OrderedIndex.Proofs.Table.Lifetimes
import OrderedIndex.Proofs.Table.MirroredMaps
import OrderedIndex.Proofs.Table.Mirroring
import OrderedIndex.Proofs.Table.Multimap
import OrderedIndex.Proofs.Table.Navigation
import OrderedIndex.Proofs.Table.Opening
import OrderedIndex.Proofs.Table.Partition
import OrderedIndex.Proofs.Table.Questions
import OrderedIndex.Proofs.Table.Refinement
import OrderedIndex.Proofs.Table.Relocations
import OrderedIndex.Proofs.Table.Retrying
import OrderedIndex.Proofs.Table.Stops
import OrderedIndex.Proofs.Table.StoragePolicy
import OrderedIndex.Proofs.Table.Stored
import OrderedIndex.Proofs.Table.Transparency
import OrderedIndex.Proofs.Table.Tuples
import OrderedIndex.Proofs.Table.VacantKeys
import OrderedIndex.Proofs.Table.ValueCursor
import OrderedIndex.Proofs.Table.ValueLayouts
import OrderedIndex.Proofs.Tree.Arena
import OrderedIndex.Proofs.Tree.BothEnds
import OrderedIndex.Proofs.Tree.Chain
import OrderedIndex.Proofs.Tree.Change
import OrderedIndex.Proofs.Tree.Contents
import OrderedIndex.Proofs.Tree.Cursor
import OrderedIndex.Proofs.Tree.Decoding
import OrderedIndex.Proofs.Tree.Encoding
import OrderedIndex.Proofs.Tree.Framing
import OrderedIndex.Proofs.Tree.Iteration
import OrderedIndex.Proofs.Tree.Lifetime
import OrderedIndex.Proofs.Tree.Likeness
import OrderedIndex.Proofs.Tree.LinkTree
import OrderedIndex.Proofs.Tree.Linked.Arena
import OrderedIndex.Proofs.Tree.Linked.Balance
import OrderedIndex.Proofs.Tree.Linked.Change
import OrderedIndex.Proofs.Tree.Linked.Climb
import OrderedIndex.Proofs.Tree.Linked.Faultless
import OrderedIndex.Proofs.Tree.Linked.Heights
import OrderedIndex.Proofs.Tree.Linked.Insert
import OrderedIndex.Proofs.Tree.Linked.Layout
import OrderedIndex.Proofs.Tree.Linked.LinkTable
import OrderedIndex.Proofs.Tree.Linked.Logarithmic
import OrderedIndex.Proofs.Tree.Linked.Memory
import OrderedIndex.Proofs.Tree.Linked.Merge
import OrderedIndex.Proofs.Tree.Linked.Remove
import OrderedIndex.Proofs.Tree.Linked.Restoring
import OrderedIndex.Proofs.Tree.Linked.Search
import OrderedIndex.Proofs.Tree.Linked.Serialize
import OrderedIndex.Proofs.Tree.Linked.Validity
import OrderedIndex.Proofs.Tree.Linked.Walk
import OrderedIndex.Proofs.Tree.Links
import OrderedIndex.Proofs.Tree.Liveness
import OrderedIndex.Proofs.Tree.Navigation
import OrderedIndex.Proofs.Tree.Neighbours
import OrderedIndex.Proofs.Tree.Numbering
import OrderedIndex.Proofs.Tree.Probes
import OrderedIndex.Proofs.Tree.Reachable
import OrderedIndex.Proofs.Tree.Record
import OrderedIndex.Proofs.Tree.Refinement
import OrderedIndex.Proofs.Tree.Represents
import OrderedIndex.Proofs.Tree.Requests
import OrderedIndex.Proofs.Tree.RoundTrip
import OrderedIndex.Proofs.Tree.SingleParents
import OrderedIndex.Proofs.Tree.Spanning
import OrderedIndex.Proofs.Tree.Stability
import OrderedIndex.Proofs.Tree.Validation
import OrderedIndex.Proofs.Tree.Walk
import OrderedIndex.Store.ArrayStore
import OrderedIndex.Tree.Linked.LinkTable
