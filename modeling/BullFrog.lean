import BullFrog.Lib.Machine
import BullFrog.Lib.Chain
import BullFrog.Lib.Tally
import BullFrog.Lib.Latch
import BullFrog.Bitmap
import BullFrog.Packed
import BullFrog.Xact
import BullFrog.Protocol.Session
import BullFrog.Protocol.System
import BullFrog.Protocol.Ownership
import BullFrog.Protocol.Barrier
import BullFrog.Protocol.Waiting
import BullFrog.Protocol.Schedule
import BullFrog.Protocol.ExactlyOnce
import BullFrog.Protocol.Words
import BullFrog.Protocol.Failure
import BullFrog.LWLocks
import BullFrog.Frontend.Messages
import BullFrog.Frontend.Mode
import BullFrog.Executor.Scan
import BullFrog.Executor.Drain
import BullFrog.Executor.Filter
import BullFrog.Executor.Emission
import BullFrog.Executor.Numbering
import BullFrog.Executor.Abort
import BullFrog.Nodes.List
import BullFrog.Nodes.Calls
import BullFrog.Nodes.WaitLoop
import BullFrog.Protocol.Sequential
import BullFrog.Lmgr.Word
import BullFrog.Lmgr.LWLock
import BullFrog.Lmgr.Owners
import BullFrog.Lmgr.Spot
import BullFrog.Lmgr.Queue
import BullFrog.Lmgr.Ledger
import BullFrog.Lmgr.Flags
import BullFrog.Lmgr.Wakeup
import BullFrog.Lmgr.Variable
import BullFrog.Lmgr.Confined
import BullFrog.Lmgr.Solo
import BullFrog.Protocol.Linked
import BullFrog.Protocol.Linearize
import BullFrog.Protocol.Progress
import BullFrog.Ssi.Predicate
import BullFrog.Ssi.Server
import BullFrog.Ssi.Marks
import BullFrog.Ssi.Numbers
import BullFrog.Ssi.Doomed
import BullFrog.Ssi.Cleanup
import BullFrog.Ssi.Horizon
import BullFrog.Ssi.Cancel
