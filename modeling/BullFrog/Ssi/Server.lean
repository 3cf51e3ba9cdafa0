/-
# `BullFrog.Ssi.Server` — serializable transactions side by side

The transactions of a server run the functions of `Ssi.Predicate` in any order: a step is what
one backend does while it holds `SerializableXactHashLock` once, or one access to the proc
array.  The order inside one transaction is the order of the source:

    begin ─ reads, writes ─ preCommit ─ endXact ─ release ─ finish
                               │                     │
                     PreCommit_CheckFor…   ProcArrayEndTransaction comes before
                                           ReleasePredicateLocks

Cleaning up is a step of its own that any backend may take at any time, and so is summarizing;
the source does the first when the oldest snapshot goes away and the second when it runs out of
slots.  `ReleaseOneSerializableXact` gives up `SerializableXactHashLock` in its middle and is
two steps.

A transaction takes its first snapshot itself, or adopts one that another transaction has
exported (`ImportSnapshot`).  A `READ ONLY DEFERRABLE` one waits in `GetSafeSnapshot` until its
snapshot is known to be safe or unsafe.  Then it gives its `SERIALIZABLEXACT` up, which is a
`release` here, and in the second case starts again, which is the end of one transaction and the
beginning of another here.
-/
import BullFrog.Lib.Machine
import BullFrog.Ssi.Predicate

namespace BullFrog.Ssi

/-- How far a transaction has come. -/
inductive Phase where
  | running
  /-- past `PreCommit_CheckForSerializationFailure` -/
  | prepared
  /-- failed there -/
  | failed
  /-- past `ProcArrayEndTransaction` -/
  | ended (isCommit : Bool)
  deriving DecidableEq, Repr

/-- What a transaction's `MySerializableXact` is. -/
inductive Stage where
  | tracked
  /-- inside `ReleasePredicateLocks`, past its first part -/
  | released
  /-- `InvalidSerializableXact` -/
  | untracked
  deriving DecidableEq, Repr

/-- A transaction, as its backend knows it.  `wrote`, `began` and `optedOut` are history:
whether it has checked a write for conflicts, the last sequence number when it was registered,
that is when it took its snapshot or adopted one, and whether it went without a
`SERIALIZABLEXACT` from the beginning. -/
structure Xact where
  snapshot : Snapshot := ⟨0, 0, []⟩
  xactReadOnly : Bool := false
  phase : Phase := .ended false
  stage : Stage := .untracked
  myXactDidWrite : Bool := false
  wrote : Bool := false
  began : Nat := 0
  optedOut : Bool := false

structure Server where
  pred : PredXact
  /-- `ShmemVariableCache` -/
  nextXid : Nat
  latestCompletedXid : Nat
  /-- the xids in the proc array -/
  running : List Nat
  xact : Nat → Xact
  /-- the number the next transaction gets -/
  next : Nat
  /-- the transaction in the middle of `ReleaseOneSerializableXact`, with the function's flags -/
  releasing : Option (Nat × Bool × Bool)
  /-- the transaction an xid was given to -/
  owner : Nat → Option Nat

/-- A server without serializable transactions. -/
def Server.initial : Server where
  pred := initPredicateLocks
  nextXid := firstNormalTransactionId
  latestCompletedXid := firstNormalTransactionId - 1
  running := []
  xact := fun _ => {}
  next := oldCommittedSxact + 1
  releasing := none
  owner := fun _ => none

inductive Label where
  /-- the first snapshot of a transaction -/
  | begin (xactReadOnly : Bool)
  /-- a transaction adopts the snapshot of `i` -/
  | importSnapshot (i : Nat) (xactReadOnly : Bool)
  /-- `GetSafeSnapshot` begins to wait -/
  | awaitSafe (i : Nat)
  /-- and has waited -/
  | safeKnown (i : Nat)
  /-- `AssignTransactionId` -/
  | assignXid (i : Nat)
  /-- a transaction that is not serializable gets an xid -/
  | otherXid
  /-- and ends -/
  | otherEnd (x : Nat)
  /-- `PredicateLockTuple`, `PredicateLockPage`, `PredicateLockRelation` -/
  | read (i : Nat) (t : TargetTag)
  /-- `CheckForSerializableConflictOut` -/
  | conflictOut (i : Nat) (visible : Bool) (t : HeapTuple)
  /-- the beginning of `CheckForSerializableConflictIn` -/
  | write (i : Nat)
  /-- the beginning of `CheckTableForSerializableConflictIn` -/
  | tableWrite (i : Nat)
  /-- `CheckTargetForConflictsIn` finds the lock of `r` on `t` -/
  | conflictIn (i r : Nat) (t : TargetTag)
  /-- it finds the caller's own lock -/
  | ownLock (i : Nat) (t : TargetTag)
  /-- `CheckTableForSerializableConflictIn` finds a lock of `r` -/
  | tableConflictIn (i r : Nat)
  | preCommit (i : Nat)
  /-- `PostPrepare_PredicateLocks`, and `PredicateLockTwoPhaseFinish` up to the release -/
  | postPrepare (i : Nat)
  /-- `ProcArrayEndTransaction` -/
  | endXact (i : Nat) (isCommit : Bool)
  /-- `ReleasePredicateLocks` under `SerializableXactHashLock` -/
  | release (i : Nat) (isCommit : Bool)
  /-- `ReleasePredicateLocks` under `SerializableFinishedListLock` -/
  | finish (i : Nat)
  /-- a turn of the loop of `ClearOldPredicateLocks` -/
  | clear (i : Nat)
  /-- the rest of `ClearOldPredicateLocks` -/
  | clearOldLocks
  /-- `SummarizeOldestCommittedSxact` -/
  | summarize
  /-- the second half of `ReleaseOneSerializableXact` -/
  | releaseConflicts

namespace Server

variable (s : Server)

/-- `GetSnapshotData`. -/
def getSnapshotData : Snapshot :=
  let xmax := s.latestCompletedXid + 1
  let xip := s.running.filter fun x => x < xmax
  { xmin := xip.foldl min xmax, xmax := xmax, xip := xip }

/-- Change what is known of one transaction. -/
def modifyXact (i : Nat) (f : Xact → Xact) : Server :=
  { s with xact := Function.update s.xact i (f (s.xact i)) }

/-- A version found in a table was written by a transaction that had checked the write. -/
def written (xid : Option Nat) : Bool :=
  xid.all fun x => (s.owner x).all fun w => (s.xact w).wrote

/-- `GetSerializableTransactionSnapshotInt` with the snapshot `snap`: a new transaction, with a
`SERIALIZABLEXACT` unless it can do without. -/
def register (snap : Snapshot) (xactReadOnly : Bool) : Server :=
  let x : Xact :=
    { snapshot := snap, xactReadOnly := xactReadOnly, phase := .running,
      began := s.pred.lastSxactCommitSeqNo }
  match s.pred.getSerializableTransactionSnapshotInt s.next snap xactReadOnly
      invalidTransactionId with
  | none =>
      { s with
        xact := Function.update s.xact s.next { x with optedOut := true }
        next := s.next + 1 }
  | some p =>
      { s with
        pred := p
        xact := Function.update s.xact s.next { x with stage := .tracked }
        next := s.next + 1 }

/-- A transaction takes its own snapshot. -/
def beginXact (xactReadOnly : Bool) : Server := s.register s.getSnapshotData xactReadOnly

/-- `ExportSnapshot`: the snapshot of `i`, with the xid of `i` among those that are running. -/
def exportSnapshot (i : Nat) : Snapshot :=
  let snap := (s.xact i).snapshot
  let topXid := (s.pred.sxact i).topXid
  if topXid ≠ invalidTransactionId ∧ topXid < snap.xmax then
    { snap with xip := snap.xip ++ [topXid] }
  else snap

/-- `ImportSnapshot` and `ProcArrayInstallImportedXmin` accept the snapshot of `i`: `i` has not
ended, and it is not read-only unless the new transaction is. -/
def mayImport (i : Nat) (xactReadOnly : Bool) : Bool :=
  (!(s.xact i).xactReadOnly || xactReadOnly) &&
    match (s.xact i).phase with
    | .running | .prepared | .failed => true
    | .ended _ => false

/-- The loop of `GetSafeSnapshot` is left. -/
def safetyKnown (i : Nat) : Bool :=
  (s.pred.possibleUnsafe.all fun c => c.2 != i) || (s.pred.sxact i).roUnsafe

/-- `GetNewTransactionId` and `RegisterPredicateLockingXid`. -/
def assignTransactionId (i : Nat) : Server :=
  { s with
    pred := s.pred.registerPredicateLockingXid i s.nextXid
    nextXid := s.nextXid + 1
    running := s.running ++ [s.nextXid]
    owner := Function.update s.owner s.nextXid (some i) }

/-- `ProcArrayEndTransactionInternal`. -/
def endXid (x : Nat) : Server :=
  { s with
    running := s.running.filter fun y => y != x
    latestCompletedXid := max s.latestCompletedXid x }

/-- `ReleasePredicateLocks` after its first part. -/
def finishRelease (i : Nat) : Server :=
  if (s.pred.sxact i).committed then
    { s with pred := { s.pred with finished := s.pred.finished ++ [i] } }.modifyXact i
      fun x => { x with stage := .untracked }
  else
    { s with pred := s.pred.releaseLocks i false, releasing := some (i, false, false) }.modifyXact i
      fun x => { x with stage := .untracked }

/-- A finished transaction is taken off the list. -/
def offFinished (i : Nat) : PredXact :=
  { s.pred with finished := s.pred.finished.filter fun j => j != i }

/-- A turn of the loop of `ClearOldPredicateLocks`. -/
def clearTurn (i : Nat) : Option Server :=
  match s.pred.clearing i with
  | .old =>
      some { s with
        pred := (s.offFinished i).releaseLocks i false
        releasing := some (i, false, false) }
  | .partialReadOnly =>
      some { s with
        pred := { (s.offFinished i).releaseLocks i false with
          havePartialClearedThrough := (s.pred.sxact i).commitSeqNo }
        releasing := some (i, false, false) }
  | .partialReadWrite =>
      some { s with
        pred := { s.pred.releaseLocks i false with
          havePartialClearedThrough := (s.pred.sxact i).commitSeqNo }
        releasing := some (i, true, false) }
  | .stillInteresting => none

/-- The transaction is at work and its `MySerializableXact` is valid. -/
def working (i : Nat) : Bool :=
  (s.xact i).phase == .running && (s.xact i).stage == .tracked

/-- The same for a transaction that may write and has an xid. -/
def writing (i : Nat) : Bool :=
  s.working i && !(s.xact i).xactReadOnly && (s.pred.sxact i).topXid != invalidTransactionId

/-- The transaction may pass `ProcArrayEndTransaction`. -/
def mayEnd (i : Nat) (isCommit : Bool) : Bool :=
  (s.xact i).stage != .released &&
    match (s.xact i).phase with
    | .prepared => true
    | .running | .failed => !isCommit
    | .ended _ => false

/-- The transaction may enter `ReleasePredicateLocks`: at its end, or, once it is known to be
safe, in the middle of its reads. -/
def mayRelease (i : Nat) (isCommit : Bool) : Bool :=
  (s.xact i).stage == .tracked &&
    ((s.xact i).phase == .ended isCommit
      || (!isCommit && (s.xact i).phase == .running && (s.pred.sxact i).roSafe))

def step : Label → Option Server
  | .begin ro => some (s.beginXact ro)
  | .importSnapshot i ro =>
      if s.mayImport i ro then some (s.register (s.exportSnapshot i) ro) else some s
  | .awaitSafe i =>
      if s.working i && (s.xact i).xactReadOnly then
        if s.safetyKnown i then some s
        else some { s with pred := s.pred.modify i fun x => { x with deferrableWaiting := true } }
      else none
  | .safeKnown i =>
      if s.working i && (s.pred.sxact i).deferrableWaiting && s.safetyKnown i then
        some { s with pred := s.pred.modify i fun x => { x with deferrableWaiting := false } }
      else none
  | .assignXid i =>
      if (s.working i || ((s.xact i).phase == .prepared && (s.xact i).stage == .tracked))
          && (s.pred.sxact i).topXid == invalidTransactionId then
        some (s.assignTransactionId i)
      else none
  | .otherXid =>
      some { s with nextXid := s.nextXid + 1, running := s.running ++ [s.nextXid] }
  | .otherEnd x =>
      if s.running.contains x && (s.owner x).isNone then some (s.endXid x) else none
  | .read i t =>
      if s.working i && !(s.pred.sxact i).roSafe then
        some { s with pred := s.pred.createPredicateLock i t }
      else none
  | .conflictOut i visible t =>
      if s.working i && !(s.pred.sxact i).roSafe && s.written (t.conflictXid visible) then
        match s.pred.checkForSerializableConflictOut i (s.xact i).snapshot visible t with
        | .ok p => some { s with pred := p }
        | .error _ => some s
      else none
  | .write i =>
      if s.writing i then
        match s.pred.checkForSerializableConflictIn i with
        | .error _ => some s
        | .ok _ => some (s.modifyXact i fun x => { x with myXactDidWrite := true, wrote := true })
      else none
  | .tableWrite i =>
      if s.writing i && s.pred.sxactGlobalXmin != invalidTransactionId then
        some (s.modifyXact i fun x => { x with myXactDidWrite := true, wrote := true })
      else none
  | .conflictIn i r t =>
      if s.writing i && (s.xact i).wrote && r != i && s.pred.holdsLock r t then
        match s.pred.checkLockForConflictIn i (s.xact i).snapshot r with
        | .ok p => some { s with pred := p }
        | .error _ => some s
      else none
  | .ownLock i t =>
      if s.writing i && (s.xact i).wrote && t.isTuple && s.pred.holdsLock i t then
        some { s with pred := s.pred.removeOwnLock i t }
      else none
  | .tableConflictIn i r =>
      if s.writing i && (s.xact i).wrote && r != i && s.pred.activeList.contains r
          && !(s.pred.sxact r).predicateLocks.isEmpty then
        match s.pred.checkLockForTableConflictIn i r with
        | .ok p => some { s with pred := p }
        | .error _ => some s
      else none
  | .preCommit i =>
      if s.working i then
        match s.pred.preCommitCheckForSerializationFailure i with
        | (p, none) =>
            some ({ s with pred := p }.modifyXact i fun x => { x with phase := .prepared })
        | (p, some _) =>
            some ({ s with pred := p }.modifyXact i fun x => { x with phase := .failed })
      else if (s.xact i).phase == .running && (s.xact i).stage == .untracked then
        some (s.modifyXact i fun x => { x with phase := .prepared })
      else none
  | .postPrepare i =>
      if (s.xact i).phase == .prepared && (s.xact i).stage == .tracked then
        some (s.modifyXact i fun x => { x with myXactDidWrite := true })
      else none
  | .endXact i isCommit =>
      if s.mayEnd i isCommit then
        let s' := s.modifyXact i fun x => { x with phase := .ended isCommit }
        if (s.pred.sxact i).topXid = invalidTransactionId then some s'
        else some (s'.endXid (s.pred.sxact i).topXid)
      else none
  | .release i isCommit =>
      if s.mayRelease i isCommit then
        let p := s.pred.releasePredicateLocks i isCommit (s.xact i).myXactDidWrite s.nextXid
        some ({ s with pred := p }.modifyXact i fun x => { x with stage := .released })
      else none
  | .finish i =>
      if (s.xact i).stage == .released && s.releasing.isNone then some (s.finishRelease i)
      else none
  | .clear i =>
      if s.pred.finished.contains i && s.releasing.isNone then s.clearTurn i else none
  | .clearOldLocks =>
      if s.releasing.isNone then some { s with pred := s.pred.clearOldLocks } else none
  | .summarize =>
      match s.pred.finished, s.releasing with
      | i :: _, none =>
          some { s with
            pred := s.pred.summarizeSxact i
            releasing := some (i, false, true) }
      | _, _ => none
  | .releaseConflicts =>
      match s.releasing with
      | some (i, isPartial, summarize) =>
          some { s with
            pred := s.pred.releaseConflicts i isPartial summarize
            releasing := none }
      | none => none

end Server

/-- The server as a machine. -/
def server : Machine Server Label where
  step := Server.step

end BullFrog.Ssi
