/-
# `BullFrog.Xact` — transaction blocks and the ways out of a statement

The block states of `xact.c` without subtransactions and two-phase commit, and
the five functions that move between them.  What the rest of the development
needs to know is what becomes of the transaction's work when
`CommitTransactionCommand` or `AbortCurrentTransaction` is done: it stays
pending, it is committed, or it is discarded.

The exits of a statement by `ereport(ERROR)` are listed here as well, because
the one thing that tells them apart for the migration is a line of
`predicate.c`: exactly one of them calls `txn_error_handling` first.
-/
import Mathlib.Logic.Function.Basic

namespace BullFrog

/-- `TBlockState`: `TBLOCK_DEFAULT`, `TBLOCK_STARTED`, ... -/
inductive TBlock where
  | default
  | started
  | begin_
  | inprogress
  | end_
  | abort
  | abortEnd
  | abortPending
  deriving DecidableEq, Repr

/-- What the end of a command does to the work of the transaction. -/
inductive Fate where
  | pending
  | committed
  | discarded
  deriving DecidableEq, Repr

/-- The transaction commands a statement can be. -/
inductive XactStmt where
  | begin_
  | commit
  | rollback
  deriving DecidableEq, Repr

namespace TBlock

/-- `StartTransactionCommand`. -/
def startTransactionCommand : TBlock → TBlock
  | default => started
  | x => x

/-- `BeginTransactionBlock`: a warning and nothing else inside a block. -/
def beginTransactionBlock : TBlock → TBlock
  | started => begin_
  | x => x

/-- `EndTransactionBlock`: `COMMIT` outside a block warns and stays `started`. -/
def endTransactionBlock : TBlock → TBlock
  | inprogress => end_
  | abort => abortEnd
  | x => x

/-- `UserAbortTransactionBlock`. -/
def userAbortTransactionBlock : TBlock → TBlock
  | inprogress => abortPending
  | abort => abortEnd
  | started => abortPending
  | x => x

/-- The utility command a portal runs, before `finish_xact_command`. -/
def runXactStmt (x : TBlock) : Option XactStmt → TBlock
  | none => x
  | some .begin_ => x.beginTransactionBlock
  | some .commit => x.endTransactionBlock
  | some .rollback => x.userAbortTransactionBlock

/-- `CommitTransactionCommand`, called through `finish_xact_command`, which
does nothing while no command is started. -/
def commitTransactionCommand : TBlock → TBlock × Fate
  | default => (default, .pending)
  | started => (default, .committed)
  | begin_ => (inprogress, .pending)
  | inprogress => (inprogress, .pending)
  | end_ => (default, .committed)
  | abort => (abort, .pending)
  | abortEnd => (default, .discarded)
  | abortPending => (default, .discarded)

/-- `AbortCurrentTransaction`: the work is discarded in every state, and only
a block in progress is left waiting for its `ROLLBACK`. -/
def abortCurrentTransaction : TBlock → TBlock
  | inprogress => abort
  | abort => abort
  | _ => default

/-- A transaction is open: started and neither ended nor already aborted. -/
def isOpen : TBlock → Bool
  | default => false
  | abort => false
  | abortEnd => false
  | _ => true

/-- `IsAbortedTransactionBlockState`. -/
def isAborted : TBlock → Bool
  | abort => true
  | _ => false

end TBlock

/-- The ways out of a statement by `ereport(ERROR)` once `exec_bind_message`
has recognised it. -/
inductive ErrorExit where
  /-- a check of a message handler outside `PortalRun` -/
  | bindCheck
  /-- any error of the scan or the insert inside `PortalRun` -/
  | execution
  /-- a cancel taken at `CHECK_FOR_INTERRUPTS` -/
  | queryCancel
  /-- `CheckForSerializableConflictOut`, `SxactIsDoomed(MySerializableXact)` -/
  | conflictOutDoomed
  /-- `CheckForSerializableConflictOut`, the three old-pivot exits -/
  | conflictOutOldPivot
  /-- `CheckForSerializableConflictIn`, `SxactIsDoomed(MySerializableXact)` -/
  | conflictInDoomed
  /-- `OnConflict_CheckForSerializationFailure`, this backend is the writer -/
  | onConflictWriter
  /-- `OnConflict_CheckForSerializationFailure`, the writer is prepared -/
  | onConflictReader
  /-- `PreCommit_CheckForSerializationFailure` -/
  | preCommit
  deriving DecidableEq, Repr

/-- Whether `txn_error_handling` runs before the `ereport`. -/
def ErrorExit.callsTxnErrorHandling : ErrorExit → Bool
  | .onConflictWriter => true
  | _ => false

end BullFrog
