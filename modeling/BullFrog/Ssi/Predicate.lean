/-
# `BullFrog.Ssi.Predicate` — serializable transactions and their rw-conflicts

`predicate.c` keeps, for every serializable transaction that can still matter, a
`SERIALIZABLEXACT`, and an `RWConflict` for a pair of them of which the first could not see a
write of the second.  All of it is protected by `SerializableXactHashLock`: a function below is
what the C function does while it holds that lock once.

    reader ──rw──▶ writer        outConflicts of the reader, inConflicts of the writer

A `SERIALIZABLEXACT` is known by a number that is never used again, where the source knows it
by its address in a pool.  Transaction ids do not wrap around, sequence numbers do not overflow
and the pools do not run out.
-/
import BullFrog.Executor.Abort

namespace BullFrog.Ssi

/-! ## The data -/

/-- `InvalidTransactionId`; the first id a transaction gets is `FirstNormalTransactionId`. -/
def invalidTransactionId : Nat := 0

def firstNormalTransactionId : Nat := 3

def invalidSerCommitSeqNo : Nat := 18446744073709551615

def firstNormalSerCommitSeqNo : Nat := 2

/-- `PREDICATELOCKTARGETTAG` with its three granularities. -/
inductive TargetTag where
  | relation (db rel : Nat)
  | page (db rel blk : Nat)
  | tuple (db rel blk off : Nat)
  deriving DecidableEq, Repr

/-- `GET_PREDICATELOCKTARGETTAG_OFFSET` is valid. -/
def TargetTag.isTuple : TargetTag → Bool
  | .tuple .. => true
  | _ => false

/-- `SERIALIZABLEXACT`.  The bits of `flags` come first.  `seqNo` is the union `SeqNo`: the
`lastCommitBeforeSnapshot` of a transaction until it commits with a conflict out, and its
`earliestOutConflictCommit` from then on.  A predicate lock carries the `commitSeqNo` that only
summarized locks use. -/
structure SerializableXact where
  committed : Bool := false
  prepared : Bool := false
  rolledBack : Bool := false
  doomed : Bool := false
  conflictOut : Bool := false
  readOnly : Bool := false
  deferrableWaiting : Bool := false
  roSafe : Bool := false
  roUnsafe : Bool := false
  summaryConflictIn : Bool := false
  summaryConflictOut : Bool := false
  prepareSeqNo : Nat := invalidSerCommitSeqNo
  commitSeqNo : Nat := invalidSerCommitSeqNo
  seqNo : Nat := 0
  predicateLocks : List (TargetTag × Nat) := []
  topXid : Nat := invalidTransactionId
  finishedBefore : Nat := invalidTransactionId
  xmin : Nat := invalidTransactionId

/-- `SnapshotData`. -/
structure Snapshot where
  xmin : Nat
  xmax : Nat
  xip : List Nat

/-- A slot of the `pg_serial` SLRU. -/
inductive OldSerXidValue where
  /-- 0, as a page is initialised -/
  | zero
  /-- `InvalidSerCommitSeqNo` -/
  | invalid
  | seqNo (n : Nat)
  deriving DecidableEq, Repr

/-- `PredXactList`, the conflict pool, the list of finished transactions, `SerializableXidHash`
and the control data of the SLRU.  An element of `conflicts` is an `RWConflict` in use, as the
pair of its `sxactOut` and its `sxactIn`; a list of conflicts of one transaction is the part of
`conflicts` with that end, in the same order.  `possibleUnsafe` is the same for the conflicts
that record a possibly unsafe snapshot. -/
structure PredXact where
  sxact : Nat → SerializableXact
  activeList : List Nat
  finished : List Nat
  conflicts : List (Nat × Nat)
  possibleUnsafe : List (Nat × Nat)
  sxidHash : Nat → Option Nat
  sxactGlobalXmin : Nat
  sxactGlobalXminCount : Nat
  writableSxactCount : Nat
  lastSxactCommitSeqNo : Nat
  canPartialClearThrough : Nat
  havePartialClearedThrough : Nat
  headXid : Nat
  tailXid : Nat
  oldSerXid : Nat → OldSerXidValue
  /-- who was sent a signal by `ProcSendSignal` -/
  signals : List Nat

/-- The dummy transaction that stands for the summarized ones. -/
def oldCommittedSxact : Nat := 0

/-- `InitPredicateLocks`. -/
def initPredicateLocks : PredXact where
  sxact := Function.update (fun _ => {}) oldCommittedSxact
    { committed := true, prepareSeqNo := 0, commitSeqNo := 0 }
  activeList := [oldCommittedSxact]
  finished := []
  conflicts := []
  possibleUnsafe := []
  sxidHash := fun _ => none
  sxactGlobalXmin := invalidTransactionId
  sxactGlobalXminCount := 0
  writableSxactCount := 0
  lastSxactCommitSeqNo := firstNormalSerCommitSeqNo - 1
  canPartialClearThrough := 0
  havePartialClearedThrough := 0
  headXid := invalidTransactionId
  tailXid := invalidTransactionId
  oldSerXid := fun _ => .zero
  signals := []

/-- Why a transaction is cancelled, with the reason code of the error's detail. -/
inductive Failure where
  /-- Canceled on identification as a pivot, during write. -/
  | pivotDuringWrite
  /-- Canceled on conflict out to pivot %u, during read. -/
  | conflictOutToPivot (xid : Nat)
  /-- Canceled on identification as a pivot, during commit attempt. -/
  | pivotDuringCommitAttempt
  /-- Canceled on commit attempt with conflict in from prepared pivot. -/
  | commitWithPreparedPivot
  /-- Canceled on identification as a pivot, during conflict out checking. -/
  | pivotDuringConflictOut
  /-- Canceled on identification as a pivot, during conflict in checking. -/
  | pivotDuringConflictIn
  /-- Canceled on conflict out to old pivot %u. -/
  | conflictOutToOldPivotXid (xid : Nat)
  /-- Canceled on identification as a pivot, with conflict out to old committed transaction %u. -/
  | pivotWithOldConflictOut (xid : Nat)
  /-- Canceled on conflict out to old pivot. -/
  | conflictOutToOldPivot
  deriving DecidableEq, Repr

/-- `ereport(ERROR)`: the failure, and what has been done to the migration variables of the
backend by then. -/
structure Cancel where
  failure : Failure
  cleanup : Globals → Globals

namespace PredXact

variable (s : PredXact)

/-- Change one `SERIALIZABLEXACT`. -/
def modify (i : Nat) (f : SerializableXact → SerializableXact) : PredXact :=
  { s with sxact := Function.update s.sxact i (f (s.sxact i)) }

/-- The `sxactIn`s of `i`'s `outConflicts`. -/
def outConflicts (i : Nat) : List Nat :=
  (s.conflicts.filter fun c => c.1 == i).map Prod.snd

/-- The `sxactOut`s of `i`'s `inConflicts`. -/
def inConflicts (i : Nat) : List Nat :=
  (s.conflicts.filter fun c => c.2 == i).map Prod.fst

/-- `SXACT_FLAG_DOOMED` is set. -/
def doom (i : Nat) : PredXact :=
  s.modify i fun x => { x with doomed := true }

/-! ## Conflicts -/

/-- `RWConflictExists`. -/
def rwConflictExists (reader writer : Nat) : Bool :=
  if (s.sxact reader).doomed || (s.sxact writer).doomed ||
      (s.outConflicts reader).isEmpty || (s.inConflicts writer).isEmpty then
    false
  else
    (s.outConflicts reader).contains writer

/-- `SetRWConflict`. -/
def setRWConflict (reader writer : Nat) : PredXact :=
  { s with conflicts := s.conflicts ++ [(reader, writer)] }

/-- The writer has become a pivot: a transaction it has a conflict out to is prepared, and may
have committed before the reader, before the writer and, for a reader that is read only,
before the reader's snapshot. -/
def writerIsPivot (reader writer : Nat) : Bool :=
  (s.sxact writer).summaryConflictOut ||
    (s.outConflicts writer).any fun t2 =>
      (s.sxact t2).prepared
        && (!(s.sxact reader).committed
          || (s.sxact t2).prepareSeqNo ≤ (s.sxact reader).commitSeqNo)
        && (!(s.sxact writer).committed
          || (s.sxact t2).prepareSeqNo ≤ (s.sxact writer).commitSeqNo)
        && (!(s.sxact reader).readOnly
          || (s.sxact t2).prepareSeqNo ≤ (s.sxact reader).seqNo)

/-- The reader has become a pivot, with the prepared writer on its far side. -/
def readerIsPivot (reader writer : Nat) : Bool :=
  (s.sxact writer).prepared && !(s.sxact reader).readOnly &&
    ((s.sxact reader).summaryConflictIn ||
      (s.inConflicts reader).any fun t0 =>
        !(s.sxact t0).doomed
          && (!(s.sxact t0).committed
            || (s.sxact t0).commitSeqNo ≥ (s.sxact writer).prepareSeqNo)
          && (!(s.sxact t0).readOnly
            || (s.sxact t0).seqNo ≥ (s.sxact writer).prepareSeqNo))

/-- The value of `failure` after the three checks of
`OnConflict_CheckForSerializationFailure`. -/
def onConflictFailure (reader writer : Nat) : Bool :=
  ((s.sxact writer).committed
      && ((s.sxact writer).conflictOut || (s.sxact writer).summaryConflictOut))
    || s.writerIsPivot reader writer
    || s.readerIsPivot reader writer

/-- `OnConflict_CheckForSerializationFailure`, called by the transaction `me`. -/
def onConflictCheckForSerializationFailure (me reader writer : Nat) : Except Cancel PredXact :=
  if s.onConflictFailure reader writer then
    if me = writer then
      .error ⟨.pivotDuringWrite, Globals.txnErrorHandling⟩
    else if (s.sxact writer).prepared then
      .error ⟨.conflictOutToPivot (s.sxact writer).topXid, id⟩
    else
      .ok (s.doom writer)
  else
    .ok s

/-- `FlagRWConflict`. -/
def flagRWConflict (me reader writer : Nat) : Except Cancel PredXact :=
  (s.onConflictCheckForSerializationFailure me reader writer).map fun s =>
    if reader = oldCommittedSxact then
      s.modify writer fun x => { x with summaryConflictIn := true }
    else if writer = oldCommittedSxact then
      s.modify reader fun x => { x with summaryConflictOut := true }
    else
      s.setRWConflict reader writer

/-! ## The SLRU of the summarized transactions

Its pages are left out: the value of an id is kept until it is written again. -/

/-- `OldSerXidAdd`. -/
def oldSerXidAdd (xid : Nat) (v : OldSerXidValue) : PredXact :=
  { s with
    headXid :=
      if s.headXid = invalidTransactionId ∨ s.headXid < xid then xid else s.headXid
    oldSerXid := Function.update s.oldSerXid xid v }

/-- `OldSerXidGetMinConflictCommitSeqNo`. -/
def oldSerXidGetMinConflictCommitSeqNo (xid : Nat) : OldSerXidValue :=
  if s.headXid = invalidTransactionId then .zero
  else if xid < s.tailXid ∨ s.headXid < xid then .zero
  else s.oldSerXid xid

/-- `OldSerXidSetActiveSerXmin`. -/
def oldSerXidSetActiveSerXmin (xid : Nat) : PredXact :=
  if xid = invalidTransactionId then
    { s with tailXid := invalidTransactionId, headXid := invalidTransactionId }
  else
    { s with tailXid := xid }

/-! ## The beginning of a transaction -/

/-- The part of `GetSerializableTransactionSnapshotInt` that maintains the global xmin. -/
def noteXmin (xmin : Nat) : PredXact :=
  if s.sxactGlobalXmin = invalidTransactionId then
    { s with sxactGlobalXmin := xmin, sxactGlobalXminCount := 1 }.oldSerXidSetActiveSerXmin xmin
  else if xmin = s.sxactGlobalXmin then
    { s with sxactGlobalXminCount := s.sxactGlobalXminCount + 1 }
  else
    s

/-- The concurrent r/w transactions that are registered as possible conflicts. -/
def possiblyUnsafe (j : Nat) : Bool :=
  !(s.sxact j).committed && !(s.sxact j).doomed && !(s.sxact j).readOnly

/-- `GetSerializableTransactionSnapshotInt` with the snapshot `snap`, taken or adopted.  `none` is
the way out for a read-only transaction that no writable one can disturb. -/
def getSerializableTransactionSnapshotInt (i : Nat) (snap : Snapshot) (xactReadOnly : Bool)
    (topXid : Nat) : Option PredXact :=
  if xactReadOnly ∧ s.writableSxactCount = 0 then
    none
  else
    let s := s.noteXmin snap.xmin
    let s := { s with
      activeList := s.activeList ++ [i]
      sxact := Function.update s.sxact i
        { seqNo := s.lastSxactCommitSeqNo, topXid := topXid, xmin := snap.xmin,
          readOnly := xactReadOnly } }
    if xactReadOnly then
      some { s with
        possibleUnsafe := s.possibleUnsafe ++
          (s.activeList.filter s.possiblyUnsafe).map fun j => (j, i) }
    else
      some { s with writableSxactCount := s.writableSxactCount + 1 }

/-- `RegisterPredicateLockingXid`. -/
def registerPredicateLockingXid (me xid : Nat) : PredXact :=
  { s.modify me (fun x => { x with topXid := xid }) with
    sxidHash := Function.update s.sxidHash xid (some me) }

/-! ## Reading and writing -/

/-- `i` has a predicate lock on `t`. -/
def holdsLock (i : Nat) (t : TargetTag) : Bool :=
  (s.sxact i).predicateLocks.any fun l => l.1 == t

/-- `CreatePredicateLock`. -/
def createPredicateLock (i : Nat) (t : TargetTag) : PredXact :=
  if s.holdsLock i t then s
  else
    s.modify i fun x =>
      { x with predicateLocks := x.predicateLocks ++ [(t, invalidSerCommitSeqNo)] }

/-- `CheckForSerializableConflictIn` before it comes to its targets. -/
def checkForSerializableConflictIn (me : Nat) : Except Cancel Unit :=
  if (s.sxact me).doomed then .error ⟨.pivotDuringConflictIn, id⟩ else .ok ()

/-- The removal of the caller's own lock on a tuple it writes, in `CheckTargetForConflictsIn`. -/
def removeOwnLock (me : Nat) (t : TargetTag) : PredXact :=
  s.modify me fun x => { x with predicateLocks := x.predicateLocks.filter fun l => l.1 != t }

/-- One turn of the loop of `CheckTargetForConflictsIn`, for the lock of another transaction. -/
def checkLockForConflictIn (me : Nat) (snap : Snapshot) (holder : Nat) : Except Cancel PredXact :=
  if !(s.sxact holder).doomed
      && (!(s.sxact holder).committed || snap.xmin < (s.sxact holder).finishedBefore)
      && !s.rwConflictExists holder me then
    s.flagRWConflict me holder me
  else
    .ok s

/-- One turn of the loop of `CheckTableForSerializableConflictIn`. -/
def checkLockForTableConflictIn (me holder : Nat) : Except Cancel PredXact :=
  if !s.rwConflictExists holder me then s.flagRWConflict me holder me else .ok s

end PredXact

/-- `HTSV_Result`. -/
inductive HTSVResult where
  | dead | live | recentlyDead | insertInProgress | deleteInProgress
  deriving DecidableEq, Repr

/-- What `CheckForSerializableConflictOut` learns about a tuple: its `xmin`, its update xid and
what `HeapTupleSatisfiesVacuum` says. -/
structure HeapTuple where
  xmin : Nat
  updateXid : Nat
  htsv : HTSVResult

/-- The transaction that wrote what the reader did not see; the `switch` of
`CheckForSerializableConflictOut`. -/
def HeapTuple.conflictXid (t : HeapTuple) (visible : Bool) : Option Nat :=
  match t.htsv with
  | .live => if visible then none else some t.xmin
  | .recentlyDead => if visible then some t.updateXid else none
  | .deleteInProgress => some t.updateXid
  | .insertInProgress => some t.xmin
  | .dead => none

/-- `XidIsConcurrent`. -/
def Snapshot.xidIsConcurrent (snap : Snapshot) (xid : Nat) : Bool :=
  if xid < snap.xmin then false
  else if snap.xmax ≤ xid then true
  else snap.xip.contains xid

namespace PredXact

variable (s : PredXact)

/-- `CheckForSerializableConflictOut` where the writer is not in `SerializableXidHash`. -/
def checkOldConflictOut (me xid : Nat) : Except Cancel PredXact :=
  let pivot : Except Cancel PredXact :=
    if (s.sxact me).summaryConflictIn || !(s.inConflicts me).isEmpty then
      .error ⟨.pivotWithOldConflictOut xid, id⟩
    else
      .ok (s.modify me fun x => { x with summaryConflictOut := true })
  match s.oldSerXidGetMinConflictCommitSeqNo xid with
  | .zero => .ok s
  | .invalid => pivot
  | .seqNo n =>
      if !(s.sxact me).readOnly || n ≤ (s.sxact me).seqNo then
        .error ⟨.conflictOutToOldPivotXid xid, id⟩
      else
        pivot

/-- `CheckForSerializableConflictOut` where the writer is `w`. -/
def checkSxactConflictOut (me : Nat) (snap : Snapshot) (xid w : Nat) : Except Cancel PredXact :=
  if w = me || (s.sxact w).doomed then
    .ok s
  else if (s.sxact w).summaryConflictOut then
    if !(s.sxact w).prepared then .ok (s.doom w) else .error ⟨.conflictOutToOldPivot, id⟩
  else if (s.sxact me).readOnly && (s.sxact w).committed && !(s.sxact w).summaryConflictOut
      && (!(s.sxact w).conflictOut || (s.sxact me).seqNo < (s.sxact w).seqNo) then
    .ok s
  else if !snap.xidIsConcurrent xid then
    .ok s
  else if s.rwConflictExists me w then
    .ok s
  else
    s.flagRWConflict me me w

/-- `CheckForSerializableConflictOut` past `SerializationNeededForRead`. -/
def checkForSerializableConflictOut (me : Nat) (snap : Snapshot) (visible : Bool)
    (t : HeapTuple) : Except Cancel PredXact :=
  if (s.sxact me).doomed then
    .error ⟨.pivotDuringConflictOut, id⟩
  else
    match t.conflictXid visible with
    | none => .ok s
    | some xid =>
        if xid = (s.sxact me).topXid then .ok s
        else if xid < snap.xmin then .ok s
        else
          match s.sxidHash xid with
          | none => s.checkOldConflictOut me xid
          | some w => s.checkSxactConflictOut me snap xid w

/-! ## The end of a transaction -/

/-- The inner loop of `PreCommit_CheckForSerializationFailure`: `near` has a conflict in that
makes it a pivot if `me` commits. -/
def hasFarConflict (me near : Nat) : Bool :=
  (s.inConflicts near).any fun far =>
    far == me ||
      (!(s.sxact far).committed && !(s.sxact far).readOnly && !(s.sxact far).doomed)

/-- Its outer loop.  The transactions doomed before it fails stay doomed. -/
def checkNearConflicts (me : Nat) : List Nat → PredXact → PredXact × Option Cancel
  | [], s => (s, none)
  | near :: rest, s =>
      if !(s.sxact near).committed && !(s.sxact near).doomed && s.hasFarConflict me near then
        if (s.sxact near).prepared then (s, some ⟨.commitWithPreparedPivot, id⟩)
        else checkNearConflicts me rest (s.doom near)
      else
        checkNearConflicts me rest s

/-- Its end. -/
def setPrepared (me : Nat) : PredXact :=
  { s.modify me (fun x =>
      { x with prepareSeqNo := s.lastSxactCommitSeqNo + 1, prepared := true }) with
    lastSxactCommitSeqNo := s.lastSxactCommitSeqNo + 1 }

/-- `PreCommit_CheckForSerializationFailure`. -/
def preCommitCheckForSerializationFailure (me : Nat) : PredXact × Option Cancel :=
  if (s.sxact me).doomed then
    (s, some ⟨.pivotDuringCommitAttempt, id⟩)
  else
    match checkNearConflicts me (s.inConflicts me) s with
    | (s, some e) => (s, some e)
    | (s, none) => (s.setPrepared me, none)

/-- `ReleasePredicateLocks`, the flags of a commit. -/
def markCommitted (me : Nat) (didWrite : Bool) : PredXact :=
  { s.modify me (fun x =>
      { x with
        committed := true
        commitSeqNo := s.lastSxactCommitSeqNo + 1
        readOnly := x.readOnly || !didWrite }) with
    lastSxactCommitSeqNo := s.lastSxactCommitSeqNo + 1 }

/-- `ReleasePredicateLocks`, the flags of a rollback. -/
def markRolledBack (me : Nat) : PredXact :=
  s.modify me fun x => { x with doomed := true, rolledBack := true, prepared := false }

/-- One writable transaction fewer; with the last one, conflicts in can be dropped. -/
def dropWritable : PredXact :=
  { s with
    writableSxactCount := s.writableSxactCount - 1
    canPartialClearThrough :=
      if s.writableSxactCount - 1 = 0 then s.lastSxactCommitSeqNo else s.canPartialClearThrough }

/-- A conflict out of a committing transaction to a committed one is remembered. -/
def noteConflictOut (me : Nat) (prepareSeqNo : Nat) : PredXact :=
  s.modify me fun x =>
    { x with
      conflictOut := true
      seqNo := if !x.conflictOut || prepareSeqNo < x.seqNo then prepareSeqNo else x.seqNo }

/-- The conflict out to a summarized transaction that committed. -/
def noteSummaryConflictOut (me : Nat) (isCommit : Bool) : PredXact :=
  if isCommit && !(s.sxact me).readOnly && (s.sxact me).summaryConflictOut then
    s.modify me fun x => { x with conflictOut := true, seqNo := firstNormalSerCommitSeqNo }
  else
    s

/-- The loop over the `outConflicts`: what it notes. -/
def noteOutConflicts (me : Nat) (isCommit : Bool) : List Nat → PredXact → PredXact
  | [], s => s
  | w :: rest, s =>
      noteOutConflicts me isCommit rest
        (if isCommit && !(s.sxact me).readOnly && (s.sxact w).committed then
          s.noteConflictOut me (s.sxact w).prepareSeqNo
        else s)

/-- The loop over the `outConflicts`: what it releases. -/
def releaseOutConflicts (me : Nat) (isCommit : Bool) : PredXact :=
  { s with
    conflicts := s.conflicts.filter fun c =>
      !(c.1 == me &&
        (!isCommit || (s.sxact c.2).committed || s.lastSxactCommitSeqNo ≤ (s.sxact c.2).seqNo)) }

/-- The loop over the `inConflicts`. -/
def releaseInConflicts (me : Nat) (isCommit : Bool) : PredXact :=
  { s with
    conflicts := s.conflicts.filter fun c =>
      !(c.2 == me && (!isCommit || (s.sxact c.1).committed || (s.sxact c.1).readOnly)) }

/-- `FlagSxactUnsafe`. -/
def flagSxactUnsafe (i : Nat) : PredXact :=
  { s.modify i (fun x => { x with roUnsafe := true }) with
    possibleUnsafe := s.possibleUnsafe.filter fun c => c.2 != i }

/-- A read-only transaction is found to be unsafe, or has one possible conflict fewer; without
any it is safe. -/
def judgeRoXact (me : Nat) (isCommit didWrite : Bool) (ro : Nat) : PredXact :=
  if isCommit && didWrite && (s.sxact me).conflictOut
      && (s.sxact me).seqNo ≤ (s.sxact ro).seqNo then
    s.flagSxactUnsafe ro
  else
    let s := { s with possibleUnsafe := s.possibleUnsafe.filter fun c => c != (me, ro) }
    if s.possibleUnsafe.all fun c => c.2 != ro then
      s.modify ro fun x => { x with roSafe := true }
    else s

/-- A waiting `DEFERRABLE` transaction that is known to be one or the other is woken. -/
def wakeRoXact (ro : Nat) : PredXact :=
  if (s.sxact ro).deferrableWaiting && ((s.sxact ro).roUnsafe || (s.sxact ro).roSafe) then
    { s with signals := s.signals ++ [ro] }
  else s

/-- One turn of the loop over a writable transaction's `possibleUnsafeConflicts`. -/
def settlePossibleUnsafe (me : Nat) (isCommit didWrite : Bool) (ro : Nat) : PredXact :=
  (s.judgeRoXact me isCommit didWrite ro).wakeRoXact ro

/-- `SetNewSxactGlobalXmin`. -/
def setNewSxactGlobalXmin : PredXact :=
  let xmins := (s.activeList.filter fun i =>
    !(s.sxact i).rolledBack && !(s.sxact i).committed && i != oldCommittedSxact).map
      fun i => (s.sxact i).xmin
  let xmin := xmins.min?.getD invalidTransactionId
  { s with
    sxactGlobalXmin := xmin
    sxactGlobalXminCount := xmins.count xmin }.oldSerXidSetActiveSerXmin xmin

/-- The part of `ReleasePredicateLocks` that maintains the global xmin. -/
def dropXmin (me : Nat) : PredXact :=
  if (s.sxact me).xmin = s.sxactGlobalXmin then
    let s := { s with sxactGlobalXminCount := s.sxactGlobalXminCount - 1 }
    if s.sxactGlobalXminCount = 0 then s.setNewSxactGlobalXmin else s
  else
    s

/-- `ReleasePredicateLocks` up to the release of `SerializableXactHashLock`. -/
def releasePredicateLocks (me : Nat) (isCommit didWrite : Bool) (nextXid : Nat) : PredXact :=
  let topLevelIsDeclaredReadOnly := (s.sxact me).readOnly
  let s := s.modify me fun x => { x with finishedBefore := nextXid }
  let s := if isCommit then s.markCommitted me didWrite else s.markRolledBack me
  let s :=
    if !topLevelIsDeclaredReadOnly then s.dropWritable
    else { s with possibleUnsafe := s.possibleUnsafe.filter fun c => c.2 != me }
  let s := s.noteSummaryConflictOut me isCommit
  let s := noteOutConflicts me isCommit (s.outConflicts me) s
  let s := s.releaseOutConflicts me isCommit
  let s := s.releaseInConflicts me isCommit
  let s :=
    if !topLevelIsDeclaredReadOnly then
      ((s.possibleUnsafe.filter fun c => c.1 == me).map Prod.snd).foldl
        (fun s ro => s.settlePossibleUnsafe me isCommit didWrite ro) s
    else s
  s.dropXmin me

/-! ## Cleaning up -/

/-- A lock of a summarized transaction becomes one of the dummy transaction. -/
def foldLock (commitSeqNo : Nat) (locks : List (TargetTag × Nat)) (t : TargetTag) :
    List (TargetTag × Nat) :=
  if locks.any fun l => l.1 == t then
    locks.map fun l => if l.1 == t && l.2 < commitSeqNo then (t, commitSeqNo) else l
  else
    locks ++ [(t, commitSeqNo)]

/-- `ReleaseOneSerializableXact`: the predicate locks. -/
def releaseLocks (i : Nat) (summarize : Bool) : PredXact :=
  let locks := (s.sxact i).predicateLocks.map Prod.fst
  let s :=
    if summarize then
      s.modify oldCommittedSxact fun x =>
        { x with predicateLocks :=
            locks.foldl (foldLock (s.sxact i).commitSeqNo) x.predicateLocks }
    else s
  s.modify i fun x => { x with predicateLocks := [] }

/-- The summary flags that `ReleaseOneSerializableXact` sets at the other ends. -/
def summarizeConflicts (i : Nat) : PredXact :=
  { s with
    sxact := fun j =>
      { s.sxact j with
        summaryConflictIn := (s.sxact j).summaryConflictIn || s.conflicts.contains (i, j)
        summaryConflictOut := (s.sxact j).summaryConflictOut || s.conflicts.contains (j, i) } }

/-- `ReleaseOneSerializableXact`: the conflicts and the transaction itself. -/
def releaseConflicts (i : Nat) (isPartial summarize : Bool) : PredXact :=
  let s := if summarize then s.summarizeConflicts i else s
  let s := { s with
    conflicts := s.conflicts.filter fun c => (c.1 != i || isPartial) && c.2 != i }
  if isPartial then s
  else
    { s with
      sxidHash :=
        if (s.sxact i).topXid = invalidTransactionId then s.sxidHash
        else Function.update s.sxidHash (s.sxact i).topXid none
      activeList := s.activeList.filter fun j => j != i }

/-- What `ClearOldPredicateLocks` finds about a finished transaction. -/
inductive Clearing where
  /-- it finished before any active transaction took its snapshot -/
  | old
  /-- the active transactions that overlap it are read only, and so is it -/
  | partialReadOnly
  /-- the active transactions that overlap it are read only -/
  | partialReadWrite
  | stillInteresting
  deriving DecidableEq, Repr

/-- The tests in the loop of `ClearOldPredicateLocks`. -/
def clearing (i : Nat) : Clearing :=
  if s.sxactGlobalXmin = invalidTransactionId
      ∨ (s.sxact i).finishedBefore ≤ s.sxactGlobalXmin then
    .old
  else if s.havePartialClearedThrough < (s.sxact i).commitSeqNo
      ∧ (s.sxact i).commitSeqNo ≤ s.canPartialClearThrough then
    if (s.sxact i).readOnly then .partialReadOnly else .partialReadWrite
  else
    .stillInteresting

/-- The locks of the dummy transaction that `ClearOldPredicateLocks` releases. -/
def clearOldLocks : PredXact :=
  s.modify oldCommittedSxact fun x =>
    { x with predicateLocks := x.predicateLocks.filter fun l =>
        s.canPartialClearThrough < l.2 }

/-- The value `SummarizeOldestCommittedSxact` adds to the SLRU. -/
def oldSerXidValueOf (i : Nat) : OldSerXidValue :=
  if (s.sxact i).conflictOut then .seqNo (s.sxact i).seqNo else .invalid

/-- `SummarizeOldestCommittedSxact` up to the conflicts. -/
def summarizeSxact (i : Nat) : PredXact :=
  let s := { s with finished := s.finished.filter fun j => j != i }
  let s :=
    if (s.sxact i).topXid ≠ invalidTransactionId ∧ !(s.sxact i).readOnly then
      s.oldSerXidAdd (s.sxact i).topXid (s.oldSerXidValueOf i)
    else s
  s.releaseLocks i true

end PredXact

end BullFrog.Ssi
