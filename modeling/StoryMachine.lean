import StoryMachine.Bytes
import StoryMachine.Code.Assembler
import StoryMachine.Code.Decode
import StoryMachine.Code.Decoder
import StoryMachine.Code.Instr
import StoryMachine.Code.Method
import StoryMachine.Code.Op
import StoryMachine.CommandLine
import StoryMachine.CommandLine.Options
import StoryMachine.Decimal.Arithmetic
import StoryMachine.Decimal.Binary
import StoryMachine.Decimal.Reading
import StoryMachine.Decimal.Shortest
import StoryMachine.Dependency
import StoryMachine.Digest.Sha256
import StoryMachine.Failure.Code
import StoryMachine.Failure.Message
import StoryMachine.Heap.Basic
import StoryMachine.Heap.Collect
import StoryMachine.Heap.Counts
import StoryMachine.Heap.Mutation
import StoryMachine.Heap.Restore
import StoryMachine.Heap.Savepoint
import StoryMachine.Heap.Undo
import StoryMachine.Host
import StoryMachine.Image.Block
import StoryMachine.Image.Draft
import StoryMachine.Image.Loader
import StoryMachine.Intrinsic
import StoryMachine.Machine.Basic
import StoryMachine.Machine.Exceptions
import StoryMachine.Machine.Frames
import StoryMachine.Machine.Intrinsics
import StoryMachine.Machine.Native
import StoryMachine.Machine.Operators
import StoryMachine.Machine.Run
import StoryMachine.Machine.Step
import StoryMachine.Machine.Values
import StoryMachine.Main
import StoryMachine.Metaclass.Data
import StoryMachine.Metaclass.Method
import StoryMachine.Metaclass.Table
import StoryMachine.Object.Body
import StoryMachine.Object.Inheritance
import StoryMachine.Object.PropTable
import StoryMachine.Pool
import StoryMachine.Pool.Basic
import StoryMachine.Pool.Memory
import StoryMachine.Pool.Paged
import StoryMachine.SavedState
import StoryMachine.SavedState.Format
import StoryMachine.Stack
import StoryMachine.Text.Blank
import StoryMachine.Text.Case
import StoryMachine.Text.CaseData
import StoryMachine.Text.Lossy
import StoryMachine.Text.Quoted
import StoryMachine.Text.Search
import StoryMachine.Text.Unprintable
import StoryMachine.Value
import StoryMachine.Value.Portable
import StoryMachine.Proofs.Bytes
import StoryMachine.Proofs.Code.Decoder
import StoryMachine.Proofs.Code.Framing
import StoryMachine.Proofs.Code.Listing
import StoryMachine.Proofs.Heap.Ages
import StoryMachine.Proofs.Heap.Alike
import StoryMachine.Proofs.Heap.Clear
import StoryMachine.Proofs.Heap.Collect
import StoryMachine.Proofs.Heap.Garbage
import StoryMachine.Proofs.Heap.Held
import StoryMachine.Proofs.Heap.Eviction
import StoryMachine.Proofs.Heap.Log
import StoryMachine.Proofs.Heap.Names
import StoryMachine.Proofs.Heap.Occupancy
import StoryMachine.Proofs.Heap.Operation
import StoryMachine.Proofs.Heap.Rename
import StoryMachine.Proofs.Heap.Requests
import StoryMachine.Proofs.Heap.Restored
import StoryMachine.Proofs.Heap.Revival
import StoryMachine.Proofs.Heap.Rewind
import StoryMachine.Proofs.Heap.Survivors
import StoryMachine.Proofs.Heap.Touch
import StoryMachine.Proofs.Heap.Twins
import StoryMachine.Proofs.Image.Accepted
import StoryMachine.Proofs.Image.Adds
import StoryMachine.Proofs.Image.Calls
import StoryMachine.Proofs.Image.Loader
import StoryMachine.Proofs.Image.Paging
import StoryMachine.Proofs.Image.RoundTrip
import StoryMachine.Proofs.Image.Step
import StoryMachine.Proofs.Image.Written
import StoryMachine.Proofs.Machine.Aside
import StoryMachine.Proofs.Machine.Calls
import StoryMachine.Proofs.Machine.Creation
import StoryMachine.Proofs.Machine.Denotation
import StoryMachine.Proofs.Machine.Enumeration
import StoryMachine.Proofs.Machine.Equality
import StoryMachine.Proofs.Machine.Exceptions
import StoryMachine.Proofs.Machine.Isolation
import StoryMachine.Proofs.Machine.Kinds
import StoryMachine.Proofs.Machine.Layout
import StoryMachine.Proofs.Machine.Leavings
import StoryMachine.Proofs.Machine.Life
import StoryMachine.Proofs.Machine.Moments
import StoryMachine.Proofs.Machine.Nesting
import StoryMachine.Proofs.Machine.Offsets
import StoryMachine.Proofs.Machine.Outcome
import StoryMachine.Proofs.Machine.Pinned
import StoryMachine.Proofs.Machine.Restart
import StoryMachine.Proofs.Machine.Restarted
import StoryMachine.Proofs.Machine.Run
import StoryMachine.Proofs.Machine.Session
import StoryMachine.Proofs.Machine.Stays
import StoryMachine.Proofs.Machine.Tables
import StoryMachine.Proofs.Machine.Unwind
import StoryMachine.Proofs.Object.Inheritance
import StoryMachine.Proofs.Object.PropertyMap
import StoryMachine.Proofs.Pool.Bounds
import StoryMachine.Proofs.Pool.Calls
import StoryMachine.Proofs.Pool.Eviction
import StoryMachine.Proofs.Pool.Paged
import StoryMachine.Proofs.Pool.Pages
import StoryMachine.Proofs.Pool.Pins
import StoryMachine.Proofs.Pool.Recency
import StoryMachine.Proofs.SavedState.Accepted
import StoryMachine.Proofs.SavedState.Format
import StoryMachine.Proofs.SavedState.Metaclasses
import StoryMachine.Proofs.SavedState.Restore
import StoryMachine.Proofs.SavedState.RoundTrip
import StoryMachine.Proofs.SavedState.Save
import StoryMachine.Proofs.SavedState.Tables
import StoryMachine.Proofs.Table.History
import StoryMachine.Proofs.Table.Ledger
import StoryMachine.Proofs.Table.Operations
import StoryMachine.Proofs.Table.Requests
import StoryMachine.Proofs.Text.Cut
import StoryMachine.Proofs.Metaclass.Data
import StoryMachine.Proofs.Image.Front
import StoryMachine.Proofs.Image.Stream
import StoryMachine.Proofs.Image.Constants
import StoryMachine.Proofs.Image.Objects
import StoryMachine.Proofs.Heap.Filling
import StoryMachine.Proofs.Heap.Scan
import StoryMachine.Proofs.Image.Elsewhere
import StoryMachine.Proofs.Image.Exchange
import StoryMachine.Proofs.Image.Insertion
import StoryMachine.Proofs.Image.Parts
import StoryMachine.Proofs.Pool.Moved
import StoryMachine.Proofs.Pool.Order
import StoryMachine.Proofs.Text.Search
import StoryMachine.Proofs.Machine.Substring
import StoryMachine.Proofs.Text.Name
import StoryMachine.Proofs.Image.Names
import StoryMachine.Proofs.Metaclass.Required
