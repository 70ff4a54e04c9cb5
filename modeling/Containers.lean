import Containers.CircularBuffer.Command
import Containers.Element.Entry
import Containers.Guarded
import Containers.KeyedMap.Command
import Containers.SearchTree.Command
import Containers.Stack
import Containers.Proofs.Traversal
import Containers.Proofs.BinaryTree.Basic
import Containers.Proofs.BinaryTree.Trail
import Containers.Proofs.BinaryTree.Search
import Containers.Proofs.BinaryTree.Ties
import Containers.Proofs.StableSort
import Containers.Proofs.CircularBuffer.Contents
import Containers.Proofs.CircularBuffer.Adding
import Containers.Proofs.CircularBuffer.BoundedList
import Containers.Proofs.CircularBuffer.Restoring
import Containers.Proofs.CircularBuffer.Span
import Containers.Proofs.CircularBuffer.Reachable
import Containers.Proofs.Json.Reading
import Containers.Proofs.Json.Literal
import Containers.Proofs.Json.Number
import Containers.Proofs.Json.Spelling
import Containers.Proofs.Json.Quoted
import Containers.Proofs.Json.Record
import Containers.Proofs.Json.Nesting
import Containers.Proofs.Json.Deepening
import Containers.Proofs.Json.Stored
import Containers.Proofs.Json.Grammar
import Containers.Proofs.Json.Presentation
import Containers.Proofs.Json.Members
import Containers.Proofs.Json.Presentable
import Containers.Proofs.Json.Passing
import Containers.Proofs.Json.Locality
import Containers.Proofs.Json.Truncation
import Containers.Proofs.Json.Severable
import Containers.Proofs.CircularBuffer.Stored
import Containers.Proofs.CircularBuffer.Presentation
import Containers.Proofs.CircularBuffer.Truncation
import Containers.Proofs.CircularBuffer.Validation
import Containers.Proofs.SearchTree.Layout
import Containers.Proofs.SearchTree.Relinking
import Containers.Proofs.SearchTree.Removal
import Containers.Proofs.SearchTree.Growth
import Containers.Proofs.SearchTree.Order
import Containers.Proofs.SearchTree.Rank
import Containers.Proofs.SearchTree.Reachable
import Containers.Proofs.SearchTree.SortedList
import Containers.Proofs.SearchTree.Paths
import Containers.Proofs.SearchTree.Linked
import Containers.Proofs.SearchTree.Links
import Containers.Proofs.SearchTree.Textbook
import Containers.Proofs.SearchTree.Ties
import Containers.Proofs.SearchTree.Distinct
import Containers.Proofs.SearchTree.Bulk
import Containers.Proofs.SearchTree.Undoing
import Containers.Proofs.CircularBuffer.Reports
import Containers.Proofs.CircularBuffer.Slots
import Containers.Proofs.Forms
import Containers.Proofs.Equality
import Containers.Proofs.Guarded.Lock
import Containers.Proofs.Guarded.Grouping
import Containers.Proofs.Guarded.Soundness
import Containers.Proofs.KeyedMap.Dictionary
import Containers.Proofs.KeyedMap.Refinement
import Containers.Proofs.CircularBuffer.Eviction
import Containers.Proofs.SearchTree.Walk
import Containers.Proofs.SearchTree.Consumption
import Containers.Proofs.SearchTree.Addressing
import Containers.Proofs.SearchTree.Relocation
import Containers.Proofs.Words
import Containers.Proofs.CircularBuffer.Narrow
import Containers.Proofs.CircularBuffer.Width
import Containers.Proofs.CircularBuffer.WithinWords
