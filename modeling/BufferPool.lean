import BufferPool.Disk.File
import BufferPool.Disk.Memory
import BufferPool.Disk.Faulty
import BufferPool.Guard
import BufferPool.Proofs.Pool.Partition
import BufferPool.Proofs.Session.Basic
import BufferPool.Proofs.Session.Move
import BufferPool.Proofs.Pool.Flush
import BufferPool.Proofs.Session.Valid
import BufferPool.Proofs.Session.Calls
import BufferPool.Proofs.Session.Window
import BufferPool.Proofs.Guard.Transparent
import BufferPool.Proofs.Disk.File
import BufferPool.Proofs.Disk.Memory
import BufferPool.Proofs.Disk.Service
import BufferPool.Proofs.Log.Frames
import BufferPool.Proofs.Session.Unbalanced
import BufferPool.Proofs.Disk.Reopened
import BufferPool.Proofs.Session.Unsaved
import BufferPool.Proofs.Guard.Journal
import BufferPool.Proofs.Guard.Reopened
import BufferPool.Proofs.Log.Crash
import BufferPool.Proofs.Log.Corruption
import BufferPool.Proofs.Log.Numbers
import BufferPool.Proofs.Pool.Ledger
import BufferPool.Proofs.Session.Allocation
import BufferPool.Proofs.Session.Order
import BufferPool.Proofs.Replacement.Accesses
import BufferPool.Proofs.Disk.Spared
import BufferPool.Proofs.Pool.Accesses
import BufferPool.Proofs.Pool.Answers
import BufferPool.Proofs.Session.Accesses
import BufferPool.Proofs.Session.Policy
import BufferPool.Proofs.Session.Service
import BufferPool.Proofs.Disk.Alike
import BufferPool.Proofs.Session.Statistics
import BufferPool.Proofs.Session.Marks
import BufferPool.Proofs.Session.Condemned
import BufferPool.Proofs.Session.Refused
import BufferPool.Proofs.Session.RolledBack
import BufferPool.Proofs.Pool.Flushed
import BufferPool.Proofs.Session.FlushAll
import BufferPool.Proofs.Replacement.UnpinOrder
import BufferPool.Proofs.Replacement.AccessOrder
import BufferPool.Proofs.Disk.Homes
import BufferPool.Proofs.Disk.Survival
import BufferPool.Proofs.Disk.History
import BufferPool.Proofs.Replacement.Arithmetic
import BufferPool.Proofs.Session.Recycling
