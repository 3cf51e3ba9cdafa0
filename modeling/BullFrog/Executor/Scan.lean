/-
# `BullFrog.Executor.Scan` — `MigrateTuple` and `ExecScan`, called by one backend

`ExecScan` fetches slots from an access method, tests the qual, and in migration
mode returns a row only if `MigrateTuple` says so.  Here both are functions of the
globals of `migrate_schema.c`: no other backend runs, so the accesses of one call are
not taken apart (`BullFrog.Protocol.Session` does that).

A slot is `none` when it is empty.  A row in a slot is a tuple of the old table itself, or
what an index-only scan puts there (`IndexOnlyNext`): a heap tuple formed from the index
entry, with a `t_self` that says nothing, or a virtual tuple, which has no `tts_tuple`.
The guard of `MigrateTuple`,

    slot->tts_tuple == NULL | slot->tts_tuple->t_len == 0

evaluates both operands, so on a slot without a physical tuple it reads a field of
a tuple that is not there; this is the outcome `none` of `migrateTuple`.

The rows still to come are a list.  `EvalPlanQual` rechecks are left out, and so is
the instrumentation.
-/
import BullFrog.Bitmap

namespace BullFrog

/-! ## Tuples and slots -/

/-- `ItemPointerData`: a block of the old table and a line pointer in it. -/
@[ext] structure ItemPointer where
  blockNumber : UInt32
  offsetNumber : UInt16
  deriving DecidableEq, Repr

/-- `ItemPointerSetInvalid`: `InvalidBlockNumber` and `InvalidOffsetNumber`. -/
def ItemPointer.invalid : ItemPointer := ⟨0xFFFFFFFF, 0⟩

/-- `NUMTUPLESPERPAGE`. -/
def numTuplesPerPage : UInt32 := 15

/-- The number `MigrateTuple` gives to a tuple. -/
def ItemPointer.eid (tid : ItemPointer) : Eid :=
  let idx := tid.blockNumber * numTuplesPerPage + tid.offsetNumber.toUInt32
  idx - 1

/-- `HeapTupleData`; `row` is what the qual and the projection see. -/
structure HeapTuple (R : Type) where
  tLen : UInt32
  tSelf : ItemPointer
  row : R
  deriving DecidableEq, Repr

/-- What a slot that is not empty holds for a row of the old table. -/
inductive Row (R : Type) where
  /-- a tuple of the old table, from a sequential or an index scan -/
  | heap (t : HeapTuple R)
  /-- from an index-only scan, `xs_hitup`: what `heap_form_tuple` has made of the index entry
  (GiST, SP-GiST); `tid` is the base tuple and is not in the slot -/
  | formed (tid : ItemPointer) (tLen : UInt32) (row : R)
  /-- from an index-only scan, `xs_itup`: `StoreIndexTuple` (the other access methods) -/
  | virtual (tid : ItemPointer) (row : R)
  deriving DecidableEq, Repr

namespace Row

variable {R : Type}

/-- `slot->tts_tuple`. -/
def ttsTuple : Row R → Option (HeapTuple R)
  | heap t => some t
  | formed _ tLen row => some ⟨tLen, .invalid, row⟩
  | virtual _ _ => none

/-- Where the row is in the old table. -/
def base : Row R → ItemPointer
  | heap t => t.tSelf
  | formed tid _ _ => tid
  | virtual tid _ => tid

def contents : Row R → R
  | heap t => t.row
  | formed _ _ row => row
  | virtual _ row => row

end Row

/-! ## `MigrateTuple` -/

/-- The globals of `migrate_schema.c`, with the bitmap `PartialBitmap` points to.  The
cells of the two lists hold C `int`s. -/
structure Globals where
  migrateflag : Bool
  partialBitmap : Bitmap
  inProgLocalList0 : List Int32
  inProgLocalList1 : List Int32
  tuplemigratecount : Nat

namespace Globals

/-- `MigrateTuple` once the eid is known; the partition lock is free. -/
def claim (g : Globals) (eid : Eid) : Bool × Globals :=
  let wordid := getwordid eid
  let lockbitid := getlockbitid eid
  let migratebitid := getmigratebitid eid
  let busy := { g with inProgLocalList1 := g.inProgLocalList1 ++ [eid.toInt32] }
  if !getkthbit (g.partialBitmap wordid) migratebitid then
    if getkthbit (g.partialBitmap wordid) lockbitid then (false, busy)
    -- the partition lock is taken here, and the two bits are read again
    else if !getkthbit (g.partialBitmap wordid) migratebitid then
      if !getkthbit (g.partialBitmap wordid) lockbitid then
        (true, { g with
          partialBitmap := Function.update g.partialBitmap wordid
            (g.partialBitmap wordid ||| kthbit lockbitid),
          inProgLocalList0 := g.inProgLocalList0 ++ [eid.toInt32] })
      else (false, busy)
    else (false, g)
  else (false, g)

/-- `MigrateTuple`; `none` is the read of `t_len` through a null pointer. -/
def migrateTuple {R : Type} (g : Globals) (slot : Option (Row R)) : Option (Bool × Globals) :=
  match slot.bind Row.ttsTuple with
  | none => none
  | some t => some (if t.tLen = 0 then (true, g) else g.claim t.tSelf.eid)

/-! What `MigrateTuple` answers, by the two bits of the tuple. -/

variable {g : Globals} {e : Eid}

theorem claim_of_migrated (h : (statusOf g.partialBitmap e).migrate = true) :
    g.claim e = (false, g) := by
  have hm : getkthbit (g.partialBitmap (getwordid e)) (getmigratebitid e) = true := h
  simp [claim, hm]

theorem claim_of_locked (hm : (statusOf g.partialBitmap e).migrate = false)
    (hl : (statusOf g.partialBitmap e).lock = true) :
    g.claim e = (false, { g with inProgLocalList1 := g.inProgLocalList1 ++ [e.toInt32] }) := by
  have hm : getkthbit (g.partialBitmap (getwordid e)) (getmigratebitid e) = false := hm
  have hl : getkthbit (g.partialBitmap (getwordid e)) (getlockbitid e) = true := hl
  simp [claim, hm, hl]

theorem claim_of_clear (h : statusOf g.partialBitmap e = ⟨false, false⟩) :
    g.claim e = (true, { g with
      partialBitmap := setlockbit g.partialBitmap e,
      inProgLocalList0 := g.inProgLocalList0 ++ [e.toInt32] }) := by
  have hm : getkthbit (g.partialBitmap (getwordid e)) (getmigratebitid e) = false :=
    congrArg Status.migrate h
  have hl : getkthbit (g.partialBitmap (getwordid e)) (getlockbitid e) = false :=
    congrArg Status.lock h
  simp [claim, hm, hl, setlockbit]

theorem claim_cases (g : Globals) (e : Eid) :
    ((statusOf g.partialBitmap e).migrate = true ∧ g.claim e = (false, g)) ∨
    ((statusOf g.partialBitmap e).migrate = false ∧ (statusOf g.partialBitmap e).lock = true ∧
      g.claim e = (false, { g with inProgLocalList1 := g.inProgLocalList1 ++ [e.toInt32] })) ∨
    (statusOf g.partialBitmap e = ⟨false, false⟩ ∧
      g.claim e = (true, { g with
        partialBitmap := setlockbit g.partialBitmap e,
        inProgLocalList0 := g.inProgLocalList0 ++ [e.toInt32] })) := by
  cases hm : (statusOf g.partialBitmap e).migrate with
  | true => exact .inl ⟨rfl, claim_of_migrated hm⟩
  | false =>
      cases hl : (statusOf g.partialBitmap e).lock with
      | true => exact .inr (.inl ⟨rfl, rfl, claim_of_locked hm hl⟩)
      | false => exact .inr (.inr ⟨Status.ext hl hm, claim_of_clear (Status.ext hl hm)⟩)

/-- On a physical tuple `MigrateTuple` always answers. -/
theorem migrateTuple_heap {R : Type} (g : Globals) (t : HeapTuple R) :
    g.migrateTuple (some (.heap t)) =
      some (if t.tLen = 0 then (true, g) else g.claim t.tSelf.eid) := rfl

/-- `++tuplemigratecount`. -/
def counted (g : Globals) : Globals := { g with tuplemigratecount := g.tuplemigratecount + 1 }

end Globals

/-! ## `ExecScan` -/

/-- The qual and the projection of a scan node. -/
structure ScanNode (R P : Type) where
  qual : Option (R → Bool)
  projInfo : Option (R → P)

/-- The slot `ExecScan` returns for a row: the scan slot itself or the result slot. -/
inductive ResultSlot (R P : Type) where
  | scan (r : Row R)
  | projected (v : P)
  deriving DecidableEq, Repr

/-- A row that is returned, with what was in the scan slot. -/
structure Returned (R P : Type) where
  scantuple : Row R
  slot : ResultSlot R P
  deriving DecidableEq, Repr

namespace ScanNode

variable {R P : Type}

/-- `qual == NULL || ExecQual(qual, econtext)`. -/
def passes (node : ScanNode R P) (r : Row R) : Bool :=
  match node.qual with
  | none => true
  | some qual => qual r.contents

/-- `ExecProject(projInfo)`, or the scan slot if there is no projection. -/
def result (node : ScanNode R P) (r : Row R) : Returned R P :=
  match node.projInfo with
  | none => ⟨r, .scan r⟩
  | some proj => ⟨r, .projected (proj r.contents)⟩

/-- The loop of `ExecScan` over the rows still to come; an empty slot is returned as
`none`, and what is left of the rows stays in the access method. -/
def execScanLoop (node : ScanNode R P) (g : Globals) :
    List (Row R) → Option (Option (Returned R P) × Globals × List (Row R))
  | [] => some (none, g, [])
  | r :: rest =>
      if node.passes r then
        if g.migrateflag then
          match g.migrateTuple (some r) with
          | none => none
          | some (true, g) => some (some (node.result r), g.counted, rest)
          | some (false, g) => execScanLoop node g rest
        else some (some (node.result r), g, rest)
      else execScanLoop node g rest

/-- `ExecScan`. -/
def execScan (node : ScanNode R P) (g : Globals) (rows : List (Row R)) :
    Option (Option (Returned R P) × Globals × List (Row R)) :=
  if node.qual.isNone && node.projInfo.isNone then
    -- the shortcut: the slot that is fetched may be empty
    if g.migrateflag then
      match g.migrateTuple rows.head? with
      | none => none
      | some (true, g) => some (rows.head?.map fun r => ⟨r, .scan r⟩, g.counted, rows.tail)
      | some (false, g) => node.execScanLoop g rows.tail
    else some (rows.head?.map fun r => ⟨r, .scan r⟩, g, rows.tail)
  else node.execScanLoop g rows

end ScanNode

/-- Why a drain does not come to its end. -/
inductive Stop where
  /-- `MigrateTuple` reads a field of a tuple that is not there -/
  | absentTuple
  /-- the bound on the number of calls is used up -/
  | calls
  deriving DecidableEq, Repr

namespace ScanNode

variable {R P : Type}

/-- Call `ExecScan` until it returns an empty slot, at most `calls` times. -/
def drainWithin (node : ScanNode R P) :
    Nat → Globals → List (Row R) → Except Stop (List (ResultSlot R P) × Globals)
  | 0, _, _ => .error .calls
  | calls + 1, g, rows =>
      match node.execScan g rows with
      | none => .error .absentTuple
      | some (none, g, _) => .ok ([], g)
      | some (some r, g, rest) =>
          (node.drainWithin calls g rest).map fun (slots, g) => (r.slot :: slots, g)

/-- Call `ExecScan` until it returns an empty slot.  Every call but the last uses up a
row, so one call more than there are rows is enough. -/
def drain (node : ScanNode R P) (g : Globals) (rows : List (Row R)) :
    Except Stop (List (ResultSlot R P) × Globals) :=
  node.drainWithin (rows.length + 1) g rows

end ScanNode

end BullFrog
