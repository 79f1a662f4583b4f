import CountedHeap.Ref
import CountedHeap.Object
import CountedHeap.Error
import CountedHeap.Word
import CountedHeap.Operator
import CountedHeap.Handler
import CountedHeap.Descriptor
import CountedHeap.Registry
import CountedHeap.Budget
import CountedHeap.Ledger
import CountedHeap.Store
import CountedHeap.Event
import CountedHeap.Config
import CountedHeap.Interned
import CountedHeap.Code
import CountedHeap.Request
import CountedHeap.Heap
import CountedHeap.Heap.Release
import CountedHeap.Heap.Allocate
import CountedHeap.Builtin.Short
import CountedHeap.Builtin.Tuple
import CountedHeap.Fib
import CountedHeap.Dispatch
import CountedHeap.Snapshot
import CountedHeap.Json
import CountedHeap.Json.Scanner
import CountedHeap.Json.Reader
import CountedHeap.Json.Printer
import CountedHeap.Config.Document
import CountedHeap.Config.Setting
import CountedHeap.Stock
import CountedHeap.Session.Command
import CountedHeap.Session.Desk
import CountedHeap.Session.Execute
import CountedHeap.Session
import CountedHeap.Proofs.Ends
import CountedHeap.Proofs.Slots
import CountedHeap.Proofs.Change
import CountedHeap.Proofs.Arena
import CountedHeap.Proofs.WellFormed
import CountedHeap.Proofs.Evolution
import CountedHeap.Proofs.Inventory
import CountedHeap.Proofs.Books
import CountedHeap.Proofs.Discipline
import CountedHeap.Proofs.Trades
import CountedHeap.Proofs.Requests
import CountedHeap.Proofs.Balance
import CountedHeap.Proofs.Reachability
import CountedHeap.Proofs.Meaning
import CountedHeap.Proofs.Accounts
import CountedHeap.Proofs.Failure
import CountedHeap.Proofs.Replay
import CountedHeap.Proofs.Renaming
import CountedHeap.Proofs.Uniform
import CountedHeap.Proofs.Twins
import CountedHeap.Proofs.Lockstep
import CountedHeap.Proofs.Pooling
import CountedHeap.Proofs.HighWater
import CountedHeap.Proofs.Interning
import CountedHeap.Proofs.Shorts
import CountedHeap.Proofs.Fibonacci
import CountedHeap.Proofs.Likeness
import CountedHeap.Proofs.Tracing
import CountedHeap.Proofs.Metering
import CountedHeap.Proofs.Cascade
import CountedHeap.Proofs.ReleaseOrder
import CountedHeap.Proofs.Data
import CountedHeap.Proofs.Denotation
import CountedHeap.Proofs.Operators
import CountedHeap.Proofs.ReleaseExact
import CountedHeap.Proofs.Equality
import CountedHeap.Proofs.Remains
import CountedHeap.Proofs.Residue
import CountedHeap.Proofs.RoundTrip
import CountedHeap.Proofs.PartialDocuments
import CountedHeap.Proofs.Words
import CountedHeap.Proofs.Arithmetic
import CountedHeap.Proofs.Rationing
import CountedHeap.Proofs.Powers
import CountedHeap.Proofs.Sequences
import CountedHeap.Proofs.Precedence
import CountedHeap.Proofs.ByteOrder
import CountedHeap.Proofs.Differences
