/-
# `BullFrog.Protocol.Session` — one backend of the migration protocol, step by step

The process globals of `migrate_schema.c` that belong to one backend, together
with a program counter into the code that reads and writes them:

    MigrateTuple          execScan.c        readMigrate ... releaseDone
    post_query_tasks      postgres.c        setMigrate, sweep, freeLists
    txn_error_handling    predicate.c       resetLock
    everything else       postgres.c        idle, scan, insertRow, ending

A step is one access to shared memory, or one stretch of code between two such
accesses.  It is computed from the backend's own globals and the status bits it
reads; what it does to shared memory is returned as an `Effect` and carried
out by `BullFrog.Protocol.System`.  The two status bits of a tuple are updated by one
effect each, so here every single-bit update is atomic; `BullFrog.Protocol.Words`
splits it into the load and the store of the word.

Two fields are history and influence nothing: `held`, the lock bits this
backend has set and not cleared in `txn_error_handling`, and `passed`, the
tuples it has handed to `MigrateTuple` since its lists were last emptied.

A tuple is named by its `eid`.  The numbering of heap tuples is not the
business of these modules.
-/
import BullFrog.Bitmap
import BullFrog.Xact
import Mathlib.Data.List.Nodup

namespace BullFrog

/-- Where a backend is.  `sweep kept rest` is the inner loop of
`post_query_tasks`: `kept` are the cells already passed in this sweep, so `prev`
is the last of them, and `rest` starts at `cell`. -/
inductive Pc where
  | idle
  | scan
  | readMigrate (e : Eid)
  | readLock (e : Eid)
  | acquire (e : Eid)
  | recheckMigrate (e : Eid)
  | recheckLock (e : Eid)
  | setLock (e : Eid)
  | releaseClaimed (e : Eid)
  | appendClaimed (e : Eid)
  | insertRow (e : Eid)
  | releaseBusy (e : Eid)
  | appendBusy (e : Eid)
  | releaseDone (e : Eid)
  | setMigrate (todo : List Eid)
  | sweep (kept rest : List Eid)
  | freeLists
  | ending
  | resetLock (todo : List Eid)
  deriving DecidableEq, Repr

/-- The state of one backend. -/
structure Session where
  pc : Pc := .idle
  migrateflag : Bool := false
  bitmapNum : BitmapNum := 0
  inProgLocalList0 : List Eid := []
  inProgLocalList1 : List Eid := []
  tuplemigratecount : Nat := 0
  /-- block state of the current transaction -/
  xact : TBlock := .default
  /-- the transaction command the current statement is, if it is one -/
  stmt : Option XactStmt := none
  /-- rows inserted into the new tables by the current transaction -/
  rows : List Key := []
  held : List Key := []
  passed : List Eid := []

/-- What a step does to shared memory, and the row it hands to the executor. -/
inductive Effect where
  | skip
  | acquire (k : BitmapNum) (e : Eid)
  | release (k : BitmapNum) (e : Eid)
  | setLock (k : BitmapNum) (e : Eid)
  | setMigrate (k : BitmapNum) (e : Eid)
  | resetLock (k : BitmapNum) (e : Eid)
  | emit (k : BitmapNum) (e : Eid)
  | commit (rows : List Key)
  deriving DecidableEq, Repr

/-- What a backend can be made to do next. -/
inductive Action where
  /-- a Bind recognised as a migration statement on bitmap `k` -/
  | bind (k : BitmapNum)
  /-- Execute or simple Query: `PortalRun` is entered -/
  | execute (x : Option XactStmt)
  /-- the scan passes a qualifying tuple to `MigrateTuple` -/
  | pass (e : Eid)
  /-- the tuple `MigrateTuple` has let through is not inserted: the mode is left over from
  another statement, and this one is no `INSERT` -/
  | noInsert
  /-- `PortalRun` returns and `post_query_tasks` is called -/
  | portalEnd
  /-- the next step of the code the program counter is in -/
  | next
  /-- an error is raised -/
  | error (x : ErrorExit)
  /-- Sync: `finish_xact_command` -/
  | sync
  deriving DecidableEq, Repr

namespace Session

/-- The end of `post_query_tasks` and of `txn_error_handling`. -/
def clear (s : Session) : Session :=
  { s with
    inProgLocalList0 := [], inProgLocalList1 := [], tuplemigratecount := 0,
    migrateflag := false, passed := [] }

/-- Error recovery in `PostgresMain`: none of the migration globals is touched. -/
def abort (s : Session) : Session :=
  { s with pc := .idle, xact := s.xact.abortCurrentTransaction, stmt := none, rows := [] }

/-- `finish_xact_command`. -/
def finishXactCommand (s : Session) : Session × Effect :=
  match s.xact.commitTransactionCommand with
  | (x, .pending) => ({ s with pc := .idle, xact := x, stmt := none }, .skip)
  | (x, .committed) =>
      ({ s with pc := .idle, xact := x, stmt := none, rows := [] }, .commit s.rows)
  | (x, .discarded) => ({ s with pc := .idle, xact := x, stmt := none, rows := [] }, .skip)

/-- The next step of the code the program counter is in, reading the status
bits of the bitmap `PartialBitmap` points to. -/
def next (look : Eid → Status) (s : Session) : Option (Session × Effect) :=
  match s.pc with
  | .idle | .scan => none
  | .readMigrate e =>
      some ({ s with pc := if (look e).migrate then .scan else .readLock e }, .skip)
  | .readLock e =>
      some ({ s with pc := if (look e).lock then .appendBusy e else .acquire e }, .skip)
  | .acquire e => some ({ s with pc := .recheckMigrate e }, .acquire s.bitmapNum e)
  | .recheckMigrate e =>
      some ({ s with pc := if (look e).migrate then .releaseDone e else .recheckLock e }, .skip)
  | .recheckLock e =>
      some ({ s with pc := if (look e).lock then .releaseBusy e else .setLock e }, .skip)
  | .setLock e =>
      some ({ s with pc := .releaseClaimed e, held := s.held ++ [(s.bitmapNum, e)] },
        .setLock s.bitmapNum e)
  | .releaseClaimed e => some ({ s with pc := .appendClaimed e }, .release s.bitmapNum e)
  | .appendClaimed e =>
      -- `MigrateTuple` returns true: the tuple goes up the plan, in an `INSERT` to the insert
      some ({ s with
          pc := .insertRow e, inProgLocalList0 := s.inProgLocalList0 ++ [e],
          tuplemigratecount := s.tuplemigratecount + 1 }, .emit s.bitmapNum e)
  | .insertRow e => some ({ s with pc := .scan, rows := s.rows ++ [(s.bitmapNum, e)] }, .skip)
  | .releaseBusy e => some ({ s with pc := .appendBusy e }, .release s.bitmapNum e)
  | .appendBusy e =>
      some ({ s with pc := .scan, inProgLocalList1 := s.inProgLocalList1 ++ [e] }, .skip)
  | .releaseDone e => some ({ s with pc := .scan }, .release s.bitmapNum e)
  | .setMigrate (e :: todo) =>
      some ({ s with pc := .setMigrate todo }, .setMigrate s.bitmapNum e)
  | .setMigrate [] =>
      -- `size` is the length of the list: the outer loop is entered unless it is empty
      some ({ s with
          pc := if s.inProgLocalList1 = [] then .freeLists
            else .sweep [] s.inProgLocalList1 }, .skip)
  | .sweep kept (e :: rest) =>
      if (look e).migrate then
        some ({ s with pc := .sweep kept rest, inProgLocalList1 := kept ++ rest }, .skip)
      else some ({ s with pc := .sweep (kept ++ [e]) rest }, .skip)
  | .sweep _ [] =>
      some ({ s with
          pc := if s.inProgLocalList1 = [] then .freeLists
            else .sweep [] s.inProgLocalList1 }, .skip)
  | .freeLists => some ({ s.clear with pc := .ending }, .skip)
  | .ending =>
      match s.stmt with
      | none => some ({ s with pc := .idle }, .skip)
      | some _ => some s.finishXactCommand
  | .resetLock (e :: todo) =>
      some ({ s with pc := .resetLock todo, held := s.held.erase (s.bitmapNum, e) },
        .resetLock s.bitmapNum e)
  | .resetLock [] => some (s.clear.abort, .skip)

/-- An error can be raised between messages, between two tuples of the scan, in
the insert, and after `post_query_tasks`; not inside `MigrateTuple`,
`post_query_tasks` or `txn_error_handling`, none of which checks for interrupts. -/
def canFail : Pc → Bool
  | .idle | .scan | .insertRow _ | .ending => true
  | .readMigrate _ | .readLock _ | .acquire _ | .recheckMigrate _ | .recheckLock _ | .setLock _
  | .releaseClaimed _ | .appendClaimed _ | .releaseBusy _ | .appendBusy _ | .releaseDone _ => false
  | .setMigrate _ | .sweep _ _ | .freeLists | .resetLock _ => false

/-- `txn_error_handling` finds something to undo. -/
def mustUndo (s : Session) (x : ErrorExit) : Bool :=
  x.callsTxnErrorHandling && s.migrateflag && !s.inProgLocalList0.isEmpty

/-- One step of a backend. -/
def step (bits : Key → Status) (s : Session) : Action → Option (Session × Effect)
  | .bind k =>
      if s.pc = .idle then
        some ({ s with
          migrateflag := true, inProgLocalList0 := [], inProgLocalList1 := [], bitmapNum := k,
          xact := s.xact.startTransactionCommand, passed := [] }, .skip)
      else none
  | .execute x =>
      -- in a failed block only `COMMIT` and `ROLLBACK` are run
      if s.pc = .idle ∧ (s.xact.isAborted → x = some .commit ∨ x = some .rollback) then
        some ({ s with pc := .scan, xact := s.xact.startTransactionCommand, stmt := x }, .skip)
      else none
  | .pass e =>
      if s.pc = .scan ∧ s.migrateflag ∧ s.stmt = none then
        some ({ s with pc := .readMigrate e, passed := s.passed ++ [e] }, .skip)
      else none
  | .noInsert =>
      match s.pc with
      | .insertRow _ => some ({ s with pc := .scan }, .skip)
      | _ => none
  | .portalEnd =>
      if s.pc = .scan then
        some ({ s with
          pc := if s.migrateflag then .setMigrate s.inProgLocalList0 else .ending,
          xact := s.xact.runXactStmt s.stmt }, .skip)
      else none
  | .next => s.next fun e => bits (s.bitmapNum, e)
  | .error x =>
      if canFail s.pc then
        some (if s.mustUndo x then { s with pc := .resetLock s.inProgLocalList0 } else s.abort,
          .skip)
      else none
  | .sync => if s.pc = .idle then some s.finishXactCommand else none

/-! ## What a step can do

`Move` lists the steps, one constructor each, with the condition under which
the code takes it.  Every invariant of the protocol is a case analysis on `Move`;
`step` is unfolded once, in `move_of_step`. -/

/-- `Move bits s a s' eff`: doing `a` takes the backend from `s` to `s'`. -/
inductive Move (bits : Key → Status) (s : Session) : Action → Session → Effect → Prop
  | bind (k : BitmapNum) : s.pc = .idle →
      Move bits s (.bind k)
        { s with
          migrateflag := true, inProgLocalList0 := [], inProgLocalList1 := [], bitmapNum := k,
          xact := s.xact.startTransactionCommand, passed := [] } .skip
  | execute (x : Option XactStmt) : s.pc = .idle →
      (s.xact.isAborted → x = some .commit ∨ x = some .rollback) →
      Move bits s (.execute x)
        { s with pc := .scan, xact := s.xact.startTransactionCommand, stmt := x } .skip
  | pass (e : Eid) : s.pc = .scan → s.migrateflag = true → s.stmt = none →
      Move bits s (.pass e) { s with pc := .readMigrate e, passed := s.passed ++ [e] } .skip
  | endMigration : s.pc = .scan → s.migrateflag = true →
      Move bits s .portalEnd
        { s with pc := .setMigrate s.inProgLocalList0, xact := s.xact.runXactStmt s.stmt } .skip
  | endOther : s.pc = .scan → s.migrateflag = false →
      Move bits s .portalEnd { s with pc := .ending, xact := s.xact.runXactStmt s.stmt } .skip
  | seenMigrated (e : Eid) : s.pc = .readMigrate e → (bits (s.bitmapNum, e)).migrate = true →
      Move bits s .next { s with pc := .scan } .skip
  | readMigrate (e : Eid) : s.pc = .readMigrate e → (bits (s.bitmapNum, e)).migrate = false →
      Move bits s .next { s with pc := .readLock e } .skip
  | seenLocked (e : Eid) : s.pc = .readLock e → (bits (s.bitmapNum, e)).lock = true →
      Move bits s .next { s with pc := .appendBusy e } .skip
  | readLock (e : Eid) : s.pc = .readLock e → (bits (s.bitmapNum, e)).lock = false →
      Move bits s .next { s with pc := .acquire e } .skip
  | acquire (e : Eid) : s.pc = .acquire e →
      Move bits s .next { s with pc := .recheckMigrate e } (.acquire s.bitmapNum e)
  | foundMigrated (e : Eid) : s.pc = .recheckMigrate e →
      (bits (s.bitmapNum, e)).migrate = true →
      Move bits s .next { s with pc := .releaseDone e } .skip
  | recheckMigrate (e : Eid) : s.pc = .recheckMigrate e →
      (bits (s.bitmapNum, e)).migrate = false →
      Move bits s .next { s with pc := .recheckLock e } .skip
  | foundLocked (e : Eid) : s.pc = .recheckLock e → (bits (s.bitmapNum, e)).lock = true →
      Move bits s .next { s with pc := .releaseBusy e } .skip
  | recheckLock (e : Eid) : s.pc = .recheckLock e → (bits (s.bitmapNum, e)).lock = false →
      Move bits s .next { s with pc := .setLock e } .skip
  | setLock (e : Eid) : s.pc = .setLock e →
      Move bits s .next
        { s with pc := .releaseClaimed e, held := s.held ++ [(s.bitmapNum, e)] }
        (.setLock s.bitmapNum e)
  | releaseClaimed (e : Eid) : s.pc = .releaseClaimed e →
      Move bits s .next { s with pc := .appendClaimed e } (.release s.bitmapNum e)
  | appendClaimed (e : Eid) : s.pc = .appendClaimed e →
      Move bits s .next
        { s with
          pc := .insertRow e, inProgLocalList0 := s.inProgLocalList0 ++ [e],
          tuplemigratecount := s.tuplemigratecount + 1 } (.emit s.bitmapNum e)
  | insertRow (e : Eid) : s.pc = .insertRow e →
      Move bits s .next { s with pc := .scan, rows := s.rows ++ [(s.bitmapNum, e)] } .skip
  | noInsert (e : Eid) : s.pc = .insertRow e → Move bits s .noInsert { s with pc := .scan } .skip
  | releaseBusy (e : Eid) : s.pc = .releaseBusy e →
      Move bits s .next { s with pc := .appendBusy e } (.release s.bitmapNum e)
  | appendBusy (e : Eid) : s.pc = .appendBusy e →
      Move bits s .next
        { s with pc := .scan, inProgLocalList1 := s.inProgLocalList1 ++ [e] } .skip
  | releaseDone (e : Eid) : s.pc = .releaseDone e →
      Move bits s .next { s with pc := .scan } (.release s.bitmapNum e)
  | setMigrate (e : Eid) (todo : List Eid) : s.pc = .setMigrate (e :: todo) →
      Move bits s .next { s with pc := .setMigrate todo } (.setMigrate s.bitmapNum e)
  | leaveLoop : s.pc = .setMigrate [] ∨ (∃ kept, s.pc = .sweep kept []) →
      s.inProgLocalList1 = [] → Move bits s .next { s with pc := .freeLists } .skip
  | startSweep : s.pc = .setMigrate [] ∨ (∃ kept, s.pc = .sweep kept []) →
      s.inProgLocalList1 ≠ [] →
      Move bits s .next { s with pc := .sweep [] s.inProgLocalList1 } .skip
  | deleteCell (kept : List Eid) (e : Eid) (rest : List Eid) : s.pc = .sweep kept (e :: rest) →
      (bits (s.bitmapNum, e)).migrate = true →
      Move bits s .next { s with pc := .sweep kept rest, inProgLocalList1 := kept ++ rest } .skip
  | keepCell (kept : List Eid) (e : Eid) (rest : List Eid) : s.pc = .sweep kept (e :: rest) →
      (bits (s.bitmapNum, e)).migrate = false →
      Move bits s .next { s with pc := .sweep (kept ++ [e]) rest } .skip
  | freeLists : s.pc = .freeLists → Move bits s .next { s.clear with pc := .ending } .skip
  | endStatement : s.pc = .ending → s.stmt = none →
      Move bits s .next { s with pc := .idle } .skip
  | finishPending (a : Action) (x : TBlock) :
      (a = .next ∧ s.pc = .ending) ∨ (a = .sync ∧ s.pc = .idle) →
      s.xact.commitTransactionCommand = (x, .pending) →
      Move bits s a { s with pc := .idle, xact := x, stmt := none } .skip
  | finishCommit (a : Action) (x : TBlock) :
      (a = .next ∧ s.pc = .ending) ∨ (a = .sync ∧ s.pc = .idle) →
      s.xact.commitTransactionCommand = (x, .committed) →
      Move bits s a { s with pc := .idle, xact := x, stmt := none, rows := [] } (.commit s.rows)
  | finishDiscard (a : Action) (x : TBlock) :
      (a = .next ∧ s.pc = .ending) ∨ (a = .sync ∧ s.pc = .idle) →
      s.xact.commitTransactionCommand = (x, .discarded) →
      Move bits s a { s with pc := .idle, xact := x, stmt := none, rows := [] } .skip
  | resetLock (e : Eid) (todo : List Eid) : s.pc = .resetLock (e :: todo) →
      Move bits s .next
        { s with pc := .resetLock todo, held := s.held.erase (s.bitmapNum, e) }
        (.resetLock s.bitmapNum e)
  | undone : s.pc = .resetLock [] → Move bits s .next s.clear.abort .skip
  | failUndo (x : ErrorExit) : canFail s.pc = true → s.mustUndo x = true →
      Move bits s (.error x) { s with pc := .resetLock s.inProgLocalList0 } .skip
  | fail (x : ErrorExit) : canFail s.pc = true → s.mustUndo x = false →
      Move bits s (.error x) s.abort .skip

variable {bits : Key → Status} {s s' : Session} {a : Action} {eff : Effect}

theorem move_of_finish {a : Action} (ha : (a = .next ∧ s.pc = .ending) ∨ (a = .sync ∧ s.pc = .idle))
    (h : s.finishXactCommand = (s', eff)) : Move bits s a s' eff := by
  unfold finishXactCommand at h
  split at h <;> cases h
  · exact .finishPending a _ ha ‹_›
  · exact .finishCommit a _ ha ‹_›
  · exact .finishDiscard a _ ha ‹_›

theorem move_of_next (h : s.next (fun e => bits (s.bitmapNum, e)) = some (s', eff)) :
    Move bits s .next s' eff := by
  unfold next at h
  split at h
  · cases h
  · cases h
  · rename_i e hpc
    cases hm : (bits (s.bitmapNum, e)).migrate <;> simp only [hm] at h <;> cases h
    · exact .readMigrate e hpc hm
    · exact .seenMigrated e hpc hm
  · rename_i e hpc
    cases hl : (bits (s.bitmapNum, e)).lock <;> simp only [hl] at h <;> cases h
    · exact .readLock e hpc hl
    · exact .seenLocked e hpc hl
  · rename_i e hpc; cases h; exact .acquire e hpc
  · rename_i e hpc
    cases hm : (bits (s.bitmapNum, e)).migrate <;> simp only [hm] at h <;> cases h
    · exact .recheckMigrate e hpc hm
    · exact .foundMigrated e hpc hm
  · rename_i e hpc
    cases hl : (bits (s.bitmapNum, e)).lock <;> simp only [hl] at h <;> cases h
    · exact .recheckLock e hpc hl
    · exact .foundLocked e hpc hl
  · rename_i e hpc; cases h; exact .setLock e hpc
  · rename_i e hpc; cases h; exact .releaseClaimed e hpc
  · rename_i e hpc; cases h; exact .appendClaimed e hpc
  · rename_i e hpc; cases h; exact .insertRow e hpc
  · rename_i e hpc; cases h; exact .releaseBusy e hpc
  · rename_i e hpc; cases h; exact .appendBusy e hpc
  · rename_i e hpc; cases h; exact .releaseDone e hpc
  · rename_i e todo hpc; cases h; exact .setMigrate e todo hpc
  · rename_i hpc
    by_cases hl : s.inProgLocalList1 = []
    · rw [if_pos hl] at h; cases h; exact .leaveLoop (.inl hpc) hl
    · rw [if_neg hl] at h; cases h; exact .startSweep (.inl hpc) hl
  · rename_i kept e rest hpc
    cases hm : (bits (s.bitmapNum, e)).migrate <;> simp only [hm] at h <;> cases h
    · exact .keepCell kept e rest hpc hm
    · exact .deleteCell kept e rest hpc hm
  · rename_i kept hpc
    by_cases hl : s.inProgLocalList1 = []
    · rw [if_pos hl] at h; cases h; exact .leaveLoop (.inr ⟨kept, hpc⟩) hl
    · rw [if_neg hl] at h; cases h; exact .startSweep (.inr ⟨kept, hpc⟩) hl
  · rename_i hpc; cases h; exact .freeLists hpc
  · rename_i hpc
    split at h
    · rename_i hs; cases h; exact .endStatement hpc hs
    · exact move_of_finish (.inl ⟨rfl, hpc⟩) (Option.some.inj h)
  · rename_i e todo hpc; cases h; exact .resetLock e todo hpc
  · rename_i hpc; cases h; exact .undone hpc

theorem move_of_step (h : s.step bits a = some (s', eff)) : Move bits s a s' eff := by
  cases a with
  | next => exact move_of_next h
  | bind k =>
      simp only [step] at h
      split at h <;> cases h
      exact .bind k ‹_›
  | execute x =>
      simp only [step] at h
      split at h <;> cases h
      rename_i hx
      exact .execute x hx.1 hx.2
  | pass e =>
      simp only [step] at h
      split at h <;> cases h
      rename_i he
      exact .pass e he.1 he.2.1 he.2.2
  | noInsert =>
      simp only [step] at h
      split at h <;> cases h
      rename_i e hpc
      exact .noInsert e hpc
  | portalEnd =>
      simp only [step] at h
      split at h <;> cases h
      rename_i hpc
      by_cases hf : s.migrateflag = true
      · rw [if_pos hf]; exact .endMigration hpc hf
      · rw [if_neg hf]; exact .endOther hpc (Bool.eq_false_iff.mpr hf)
  | error x =>
      simp only [step] at h
      split at h <;> cases h
      rename_i hc
      cases hu : s.mustUndo x
      · exact .fail x hc hu
      · exact .failUndo x hc hu
  | sync =>
      simp only [step] at h
      split at h
      · exact move_of_finish (.inr ⟨rfl, ‹_›⟩) (Option.some.inj h)
      · cases h

/-- The bitmap is chosen at the Bind. -/
theorem Move.bitmapNum_eq (h : Move bits s a s' eff) :
    s'.bitmapNum = s.bitmapNum ∨ a = .bind s'.bitmapNum := by
  cases h with
  | bind k => exact Or.inr rfl
  | _ => exact Or.inl rfl

end Session

end BullFrog
