import HeapLens.Main
import HeapLens.Heap.Draft
import HeapLens.Snapshot.Printer
import HeapLens.Store.Overlay
import HeapLens.Proofs.Graph.Walks
import HeapLens.Proofs.Graph.DepthFirst
import HeapLens.Proofs.Graph.Ranks
import HeapLens.Proofs.Graph.Ancestors
import HeapLens.Proofs.Graph.Settling
import HeapLens.Proofs.Graph.Accumulation
import HeapLens.Proofs.Heap.Hierarchy
import HeapLens.Proofs.Heap.Cycles
import HeapLens.Proofs.Heap.Validation
import HeapLens.Proofs.Heap.Sound
import HeapLens.Proofs.Heap.Dominance
import HeapLens.Proofs.Heap.Retention
import HeapLens.Proofs.Heap.Answers
import HeapLens.Proofs.Outcome
import HeapLens.Proofs.Store.Requests
import HeapLens.Proofs.Store.ClassChain
import HeapLens.Proofs.Store.Contents
import HeapLens.Proofs.Store.Lineage
import HeapLens.Proofs.Store.ChainEnds
import HeapLens.Proofs.Collection.Reading
import HeapLens.Proofs.Collection.Buckets
import HeapLens.Proofs.Collection.KeySearch
import HeapLens.Proofs.Collection.Catalog
import HeapLens.Proofs.Query.Content
import HeapLens.Proofs.Query.Path
import HeapLens.Proofs.Query.Lookup
import HeapLens.Proofs.Text.Utf16
import HeapLens.Proofs.Collection.View
import HeapLens.Proofs.Query.Library
import HeapLens.Proofs.Query.PathText
import HeapLens.Proofs.Query.PathDisplay
import HeapLens.Proofs.Query.PathJoining
import HeapLens.Proofs.Query.Calls
import HeapLens.Proofs.Query.Closed
import HeapLens.Proofs.Query.StringText
import HeapLens.Proofs.Text.Numeral
import HeapLens.Proofs.Query.Literal
import HeapLens.Proofs.Time.Calendar
import HeapLens.Proofs.Time.Epoch
import HeapLens.Proofs.Query.EpochText
import HeapLens.Proofs.Collection.Recognition
import HeapLens.Proofs.Query.Elements
import HeapLens.Proofs.Query.ClassObjects
import HeapLens.Proofs.Collection.Registration
import HeapLens.Proofs.Query.Agreement
import HeapLens.Proofs.CommandLine.NodeNames
import HeapLens.Proofs.Number.Layout
import HeapLens.Proofs.Query.BoxText
import HeapLens.Proofs.Json.Scanning
import HeapLens.Proofs.Json.RoundTrip
import HeapLens.Proofs.Snapshot.RoundTrip
import HeapLens.Proofs.Graph.Meeting
import HeapLens.Proofs.Graph.Traversal
import HeapLens.Proofs.Graph.Raising
import HeapLens.Proofs.Heap.Drafting
