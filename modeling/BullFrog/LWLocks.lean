/-
# `BullFrog.LWLocks` — which locks of `MainLWLockArray` are initialised

The layout of the array is written down three times: as offset macros in `lwlock.h`,
as a sum in `NumLWLocksByNamedTranches`, and as one loop per region in
`InitializeLWLocks`.

| region | from | locks | loop runs |
| :-- | :-- | --: | --: |
| individual | 0 | `NUM_INDIVIDUAL_LWLOCKS` | all |
| buffer mapping | `BUFFER_MAPPING_LWLOCK_OFFSET` | 128 | 128 |
| lock manager | `LOCK_MANAGER_LWLOCK_OFFSET` | 16 | 16 |
| predicate locks | `PREDICATELOCK_MANAGER_LWLOCK_OFFSET` | 16 | 16 |
| bitmap | `MIGRATE_BITMAP_OFFSET` | 512 | 256 |
| named | `NUM_FIXED_LWLOCKS` | as requested | all |

The bitmap region has a lock per partition and bitmap, and the loop covers the first
bitmap only.  Everything else is initialised once, with its own tranche
(`initialised_iff`); the partition locks of the second bitmap never are.

`NUM_INDIVIDUAL_LWLOCKS` comes from a generated header and is a parameter.
-/
import BullFrog.Protocol.System

namespace BullFrog

/-! ## Layout -/

/-- `NUM_BUFFER_PARTITIONS`. -/
def numBufferPartitions : Nat := 128

/-- `NUM_LOCK_PARTITIONS`. -/
def numLockPartitions : Nat := 1 <<< 4

/-- `NUM_PREDICATELOCK_PARTITIONS`. -/
def numPredicatelockPartitions : Nat := 1 <<< 4

section Layout

variable (numIndividualLWLocks : Nat)

/-- `BUFFER_MAPPING_LWLOCK_OFFSET`. -/
def bufferMappingLWLockOffset : Nat := numIndividualLWLocks

/-- `LOCK_MANAGER_LWLOCK_OFFSET`. -/
def lockManagerLWLockOffset : Nat :=
  bufferMappingLWLockOffset numIndividualLWLocks + numBufferPartitions

/-- `PREDICATELOCK_MANAGER_LWLOCK_OFFSET`. -/
def predicatelockManagerLWLockOffset : Nat :=
  lockManagerLWLockOffset numIndividualLWLocks + numLockPartitions

/-- `MIGRATE_BITMAP_OFFSET`. -/
def migrateBitmapOffset : Nat :=
  predicatelockManagerLWLockOffset numIndividualLWLocks + numPredicatelockPartitions

/-- `NUM_FIXED_LWLOCKS`. -/
def numFixedLWLocks : Nat := migrateBitmapOffset numIndividualLWLocks + numMigrateBitmapLocks * 2

/-! `BuiltinTrancheIds`: the enumeration starts at `NUM_INDIVIDUAL_LWLOCKS`, and the four
tranches of the main array are its members number 13 to 16. -/

/-- `LWTRANCHE_BUFFER_MAPPING`. -/
def lwtrancheBufferMapping : Nat := numIndividualLWLocks + 13

/-- `LWTRANCHE_LOCK_MANAGER`. -/
def lwtrancheLockManager : Nat := numIndividualLWLocks + 14

/-- `LWTRANCHE_PREDICATE_LOCK_MANAGER`. -/
def lwtranchePredicateLockManager : Nat := numIndividualLWLocks + 15

/-- `LWTRANCHE_MIGRATE_BITMAP`. -/
def lwtrancheMigrateBitmap : Nat := numIndividualLWLocks + 16

/-- `LWTRANCHE_FIRST_USER_DEFINED`. -/
def lwtrancheFirstUserDefined : Nat := numIndividualLWLocks + 25

end Layout

/-! ## `InitializeLWLocks` -/

/-- `LWLock`. -/
structure LWLock where
  tranche : UInt16
  state : UInt32
  waitersHead : Int32
  waitersTail : Int32
  deriving DecidableEq, Repr

/-- What `LWLockInitialize` stores: `LW_FLAG_RELEASE_OK` and no waiters. -/
def LWLock.initialised (trancheId : Nat) : LWLock :=
  ⟨UInt16.ofNat trancheId, (1 : UInt32) <<< 29, Int32.maxValue, Int32.maxValue⟩

/-- `MainLWLockArray`: at each index, what has been stored there, oldest first. -/
abbrev MainLWLockArray := Nat → List LWLock

/-- `LWLockInitialize`. -/
def lwLockInitialize (locks : MainLWLockArray) (lock trancheId : Nat) : MainLWLockArray :=
  Function.update locks lock (locks lock ++ [.initialised trancheId])

/-- `for (...; id < n; id++, lock++) LWLockInitialize(&lock->lock, ...)` with `n`
iterations to go; `lock` is returned as the loop leaves it. -/
def initializeLoop (trancheId : Nat → Nat) :
    (n id lock : Nat) → MainLWLockArray → MainLWLockArray × Nat
  | 0, _, lock, locks => (locks, lock)
  | n + 1, id, lock, locks =>
      initializeLoop trancheId n (id + 1) (lock + 1) (lwLockInitialize locks lock (trancheId id))

/-- `num_lwlocks` of the requests, in order. -/
abbrev NamedLWLockTrancheRequests := List Nat

/-- `NumLWLocksByNamedTranches`. -/
def numLWLocksByNamedTranches (requests : NamedLWLockTrancheRequests) : Nat :=
  requests.foldl (· + ·) 0

/-- The loop over the named tranches; `counter` is what `LWLockNewTrancheId` returns and
increments. -/
def initializeNamed : NamedLWLockTrancheRequests → (counter lock : Nat) → MainLWLockArray →
    MainLWLockArray
  | [], _, _, locks => locks
  | numLWLocks :: requests, counter, lock, locks =>
      let loop := initializeLoop (fun _ => counter) numLWLocks 0 lock locks
      initializeNamed requests (counter + 1) loop.2 loop.1

/-- `InitializeLWLocks`, on an array that nothing has been stored in. -/
def initializeLWLocks (numIndividualLWLocks : Nat) (requests : NamedLWLockTrancheRequests) :
    MainLWLockArray :=
  let n := numIndividualLWLocks
  let locks : MainLWLockArray := fun _ => []
  let locks := (initializeLoop id n 0 0 locks).1
  let lock := n
  let locks :=
    (initializeLoop (fun _ => lwtrancheBufferMapping n) numBufferPartitions 0 lock locks).1
  let lock := n + numBufferPartitions
  let locks :=
    (initializeLoop (fun _ => lwtrancheLockManager n) numLockPartitions 0 lock locks).1
  let lock := n + numBufferPartitions + numLockPartitions
  let locks :=
    (initializeLoop (fun _ => lwtranchePredicateLockManager n) numPredicatelockPartitions 0 lock
      locks).1
  let lock := n + numBufferPartitions + numLockPartitions + numPredicatelockPartitions
  let locks :=
    (initializeLoop (fun _ => lwtrancheMigrateBitmap n) numMigrateBitmapLocks 0 lock locks).1
  if 0 < requests.length then
    initializeNamed requests (lwtrancheFirstUserDefined n) (numFixedLWLocks n) locks
  else locks

/-! ## The regions -/

/-- The request a lock of the named region belongs to. -/
def requestOf : NamedLWLockTrancheRequests → Nat → Nat
  | [], _ => 0
  | numLWLocks :: requests, i =>
      if i < numLWLocks then 0 else requestOf requests (i - numLWLocks) + 1

/-- The tranche of the region that the offset macros put an index in. -/
def regionTranche (n : Nat) (requests : NamedLWLockTrancheRequests) (i : Nat) : Nat :=
  if i < bufferMappingLWLockOffset n then i
  else if i < lockManagerLWLockOffset n then lwtrancheBufferMapping n
  else if i < predicatelockManagerLWLockOffset n then lwtrancheLockManager n
  else if i < migrateBitmapOffset n then lwtranchePredicateLockManager n
  else if i < numFixedLWLocks n then lwtrancheMigrateBitmap n
  else lwtrancheFirstUserDefined n + requestOf requests (i - numFixedLWLocks n)

/-! ## Loops -/

theorem initializeLoop_lock (trancheId : Nat → Nat) (n id lock : Nat) (locks : MainLWLockArray) :
    (initializeLoop trancheId n id lock locks).2 = lock + n := by
  induction n generalizing id lock locks with
  | zero => rfl
  | succ n ih =>
      rw [initializeLoop, ih]
      omega

/-- One loop stores once at every index of its range and nowhere else. -/
theorem initializeLoop_apply (trancheId : Nat → Nat) (n id lock : Nat) (locks : MainLWLockArray)
    (i : Nat) :
    (initializeLoop trancheId n id lock locks).1 i =
      if lock ≤ i ∧ i < lock + n then locks i ++ [.initialised (trancheId (id + (i - lock)))]
      else locks i := by
  induction n generalizing id lock locks with
  | zero =>
      rw [if_neg (by omega)]
      rfl
  | succ n ih =>
      rw [initializeLoop, ih]
      by_cases hi : i = lock
      · -- the iteration itself
        subst hi
        rw [if_neg (by omega), if_pos (by omega), lwLockInitialize, Function.update_self,
          Nat.sub_self, Nat.add_zero]
      · rw [lwLockInitialize, Function.update_of_ne hi]
        by_cases hin : lock ≤ i ∧ i < lock + (n + 1)
        · have hid : id + 1 + (i - (lock + 1)) = id + (i - lock) := by omega
          rw [if_pos (by omega), if_pos hin, hid]
        · rw [if_neg (by omega), if_neg hin]

theorem numLWLocksByNamedTranches_cons (numLWLocks : Nat) (requests : NamedLWLockTrancheRequests) :
    numLWLocksByNamedTranches (numLWLocks :: requests) =
      numLWLocks + numLWLocksByNamedTranches requests := by
  rw [numLWLocksByNamedTranches, List.foldl_cons, Nat.add_comm]
  exact List.foldl_assoc

/-- The loop over the named tranches stores once at every index of its range, request after
request. -/
theorem initializeNamed_apply (requests : NamedLWLockTrancheRequests) (counter lock : Nat)
    (locks : MainLWLockArray) (i : Nat) :
    initializeNamed requests counter lock locks i =
      if lock ≤ i ∧ i < lock + numLWLocksByNamedTranches requests then
        locks i ++ [.initialised (counter + requestOf requests (i - lock))]
      else locks i := by
  induction requests generalizing counter lock locks with
  | nil =>
      rw [if_neg (by simp [numLWLocksByNamedTranches])]
      rfl
  | cons numLWLocks requests ih =>
      rw [initializeNamed, ih, initializeLoop_lock, initializeLoop_apply,
        numLWLocksByNamedTranches_cons, requestOf]
      by_cases hfirst : lock ≤ i ∧ i < lock + numLWLocks
      · -- the loop of this request, and none of the later ones
        rw [if_neg (by omega), if_pos hfirst, if_pos (by omega), if_pos (by omega)]
        rfl
      · rw [if_neg hfirst]
        by_cases hlater : lock + numLWLocks ≤ i ∧
            i < lock + numLWLocks + numLWLocksByNamedTranches requests
        · rw [if_pos hlater, if_pos (by omega), if_neg (by omega), Nat.sub_add_eq, Nat.add_assoc,
            Nat.add_comm 1]
        · rw [if_neg hlater, if_neg (by omega)]

/-! ## The array -/

/-- What `InitializeLWLocks` has stored at an index, in the terms of the offset macros. -/
theorem initializeLWLocks_apply (n : Nat) (requests : NamedLWLockTrancheRequests) (i : Nat) :
    initializeLWLocks n requests i =
      if i < migrateBitmapOffset n + numMigrateBitmapLocks ∨
          (numFixedLWLocks n ≤ i ∧
            i < numFixedLWLocks n + numLWLocksByNamedTranches requests) then
        [.initialised (regionTranche n requests i)]
      else [] := by
  have hnamed : ∀ locks, (if 0 < requests.length then
      initializeNamed requests (lwtrancheFirstUserDefined n) (numFixedLWLocks n) locks
      else locks) = initializeNamed requests (lwtrancheFirstUserDefined n) (numFixedLWLocks n)
        locks := by
    intro locks
    cases requests <;> rfl
  simp only [initializeLWLocks, initializeLoop_apply, hnamed, initializeNamed_apply]
  simp only [regionTranche, numFixedLWLocks, migrateBitmapOffset,
    predicatelockManagerLWLockOffset, lockManagerLWLockOffset, bufferMappingLWLockOffset,
    numMigrateBitmapLocks, numBufferPartitions, numLockPartitions, numPredicatelockPartitions]
  -- the ranges of the loops are linear in `n`, and no two of them meet
  grind

/-- The bitmap region is the last of the fixed ones. -/
theorem regionTranche_bitmap (n : Nat) (requests : NamedLWLockTrancheRequests) {i : Nat}
    (hlow : migrateBitmapOffset n ≤ i) (hhigh : i < numFixedLWLocks n) :
    regionTranche n requests i = lwtrancheMigrateBitmap n := by
  have hmigrate : migrateBitmapOffset n = n + 160 := rfl
  have hpred : predicatelockManagerLWLockOffset n = n + 144 := rfl
  have hmanager : lockManagerLWLockOffset n = n + 128 := rfl
  have hbuffer : bufferMappingLWLockOffset n = n := rfl
  rw [regionTranche, if_neg (by omega), if_neg (by omega), if_neg (by omega), if_neg (by omega),
    if_pos hhigh]

theorem migrateBitmapPartition_lt (eid : Eid) : migrateBitmapPartition eid < 256 :=
  Nat.mod_lt _ (by decide)

/-- The partition locks of a bitmap are its half of the bitmap region. -/
theorem migrateBitmapPartitionLock_bounds (eid : Eid) (k : BitmapNum) :
    k.val * 256 ≤ migrateBitmapPartitionLock eid k ∧
      migrateBitmapPartitionLock eid k < k.val * 256 + 256 := by
  have := migrateBitmapPartition_lt eid
  rw [migrateBitmapPartitionLock, show numMigrateBitmapLocks = 256 from rfl]
  omega

/-- An index of the array is initialised once, and with the tranche of its region, exactly
if it is not in the second half of the bitmap region.  The partition locks are in the
bitmap region and those of the two bitmaps are different locks, but only those of the
first bitmap are initialised. -/
theorem initialised_iff (n : Nat) (requests : NamedLWLockTrancheRequests) :
    (∀ i < numFixedLWLocks n + numLWLocksByNamedTranches requests,
      initializeLWLocks n requests i = [.initialised (regionTranche n requests i)] ↔
        ¬(migrateBitmapOffset n + numMigrateBitmapLocks ≤ i ∧ i < numFixedLWLocks n)) ∧
    ∀ (eid : Eid) (k : BitmapNum),
      let lock := migrateBitmapOffset n + migrateBitmapPartitionLock eid k
      (migrateBitmapOffset n ≤ lock ∧ lock < numFixedLWLocks n) ∧
      (∀ (eid' : Eid) (k' : BitmapNum), k' ≠ k →
        migrateBitmapOffset n + migrateBitmapPartitionLock eid' k' ≠ lock) ∧
      (initializeLWLocks n requests lock = [.initialised (lwtrancheMigrateBitmap n)] ↔ k = 0) := by
  have hfixed : numFixedLWLocks n = migrateBitmapOffset n + 512 := rfl
  have hlocks : numMigrateBitmapLocks = 256 := rfl
  constructor
  · intro i hi
    rw [initializeLWLocks_apply, hlocks]
    constructor
    · intro h hgap
      rw [if_neg (by omega)] at h
      cases h
    · intro h
      rw [if_pos (by omega)]
  · intro eid k lock
    have hlock : lock = migrateBitmapOffset n + migrateBitmapPartitionLock eid k := rfl
    have hk := migrateBitmapPartitionLock_bounds eid k
    have hk2 : k.val < 2 := k.isLt
    refine ⟨by omega, ?_, ?_⟩
    · intro eid' k' hne heq
      have := migrateBitmapPartitionLock_bounds eid' k'
      exact hne (Fin.ext (by omega))
    · rw [initializeLWLocks_apply, hlocks]
      rw [regionTranche_bitmap n requests (by omega) (by omega)]
      constructor
      · intro h
        by_contra hk0
        have : k.val ≠ 0 := fun h0 => hk0 (Fin.ext h0)
        rw [if_neg (by omega)] at h
        cases h
      · rintro rfl
        rw [if_pos (by simp at hk; omega)]

/-- Two requests: the first lock of the second one has the second new tranche id. -/
theorem initialised_named :
    initializeLWLocks 46 [3, 2] (numFixedLWLocks 46 + 3) = [.initialised (46 + 25 + 1)] :=
  ((initialised_iff 46 [3, 2]).1 (numFixedLWLocks 46 + 3) (by decide)).mpr (by decide)

/-- The lock that `MigrateTuple` takes for tuple 0 in the second bitmap. -/
theorem second_bitmap_lock_uninitialised :
    initializeLWLocks 46 [] (migrateBitmapOffset 46 + migrateBitmapPartitionLock 0 1) = [] := by
  rw [initializeLWLocks_apply]
  decide

end BullFrog
