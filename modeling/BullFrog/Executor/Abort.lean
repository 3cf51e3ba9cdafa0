/-
# `BullFrog.Executor.Abort` — `txn_error_handling` undoes the claims of a backend

`MigrateTuple` sets a lock bit with an inline expression and appends the eid to a list
of C `int`s; `txn_error_handling` clears the lock bits of the list through
`resetlockbit`.  That the second is the inverse of the first is a statement about whole
words, which hold the bits of 31 other tuples.

Other backends write status bits meanwhile.  A run of this backend is a list of calls
of `MigrateTuple` and of single-bit writes by others, and the others keep off the
tuples this backend has claimed.  The invariant compares the bitmap with the one the
others' writes alone would have made:

    bitmap  =  others' writes alone  +  the lock bits of this backend's claims

so clearing the latter leaves the former (`abort_undoes_claims`).
-/
import BullFrog.Executor.Scan
import BullFrog.Lib.Machine

namespace BullFrog

/-! ## The model -/

namespace Globals

/-- The eids that `lfirst_int` gives for the cells of `InProgLocalList0`. -/
def claims (g : Globals) : List Eid := g.inProgLocalList0.map Int32.toUInt32

/-- `txn_error_handling`. -/
def txnErrorHandling (g : Globals) : Globals :=
  if g.migrateflag && !g.inProgLocalList0.isEmpty then
    { migrateflag := false
      partialBitmap :=
        g.inProgLocalList0.foldl (fun bitmap cell => resetlockbit bitmap cell.toUInt32)
          g.partialBitmap
      inProgLocalList0 := []
      inProgLocalList1 := []
      tuplemigratecount := 0 }
  else g

end Globals

/-- A write of another backend to a status bit. -/
inductive StatusWrite where
  | claim
  | release
  | migrated
  deriving DecidableEq, Repr

def StatusWrite.onto : StatusWrite → Bitmap → Eid → Bitmap
  | claim => setlockbit
  | release => resetlockbit
  | migrated => setmigratebit

/-- What can happen between two points of a statement. -/
inductive ScanEvent (R : Type) where
  /-- this backend calls `MigrateTuple` -/
  | migrateTuple (t : HeapTuple R)
  /-- another backend writes -/
  | other (w : StatusWrite) (e : Eid)
  deriving DecidableEq, Repr

/-- The scan of one backend among the writes of others. -/
def scanning (R : Type) : Machine Globals (ScanEvent R) where
  step g
    | .migrateTuple t => (g.migrateTuple (some (.heap t))).map Prod.snd
    | .other w e => some { g with partialBitmap := w.onto g.partialBitmap e }

/-- The others keep off the tuples this backend has claimed. -/
def Elsewhere {R : Type} (g : Globals) : ScanEvent R → Prop
  | .migrateTuple _ => True
  | .other _ e => e ∉ g.claims

instance {R : Type} (g : Globals) : (ev : ScanEvent R) → Decidable (Elsewhere g ev)
  | .migrateTuple _ => .isTrue trivial
  | .other _ e => inferInstanceAs (Decidable (e ∉ g.claims))

/-- The bitmap that the others' writes alone make. -/
def othersAlone {R : Type} (bitmap : Bitmap) : List (ScanEvent R) → Bitmap
  | [] => bitmap
  | .migrateTuple _ :: tr => othersAlone bitmap tr
  | .other w e :: tr => othersAlone (w.onto bitmap e) tr

/-! ## Clearing the claims -/

variable {R : Type} {g g' : Globals} {b : Bitmap} {tr : List (ScanEvent R)}

/-- Only the lock bits of the claims go. -/
theorem bitAt_txnErrorHandling (hflag : g.migrateflag = true) (p : BitPos) :
    bitAt g.txnErrorHandling.partialBitmap p =
      (bitAt g.partialBitmap p && !decide (p ∈ g.claims.map lockAt)) := by
  by_cases hnil : g.inProgLocalList0 = []
  · simp [Globals.txnErrorHandling, Globals.claims, hnil]
  · have hbitmap : g.txnErrorHandling.partialBitmap =
        g.claims.foldl resetlockbit g.partialBitmap := by
      simp [Globals.txnErrorHandling, Globals.claims, hflag, hnil, List.foldl_map]
    rw [hbitmap, bitAt_foldl_resetlockbit]

theorem othersAlone_append (b : Bitmap) (tr tr' : List (ScanEvent R)) :
    othersAlone b (tr ++ tr') = othersAlone (othersAlone b tr) tr' := by
  induction tr generalizing b with
  | nil => rfl
  | cons ev tr ih =>
      cases ev with
      | migrateTuple t => exact ih b
      | other w e => exact ih _

/-- The bitmap is what the others alone would have made of it, and the lock bits of the
claims on top, which the others alone would have left clear. -/
structure OnTop (b : Bitmap) (tr : List (ScanEvent R)) (g : Globals) : Prop where
  flag : g.migrateflag = true
  bits : ∀ p, bitAt g.partialBitmap p =
    (bitAt (othersAlone b tr) p || decide (p ∈ g.claims.map lockAt))
  fresh : ∀ e ∈ g.claims, bitAt (othersAlone b tr) (lockAt e) = false

/-- A write to another tuple does not reach the lock bit of `e`. -/
theorem bitAt_onto_lockAt (w : StatusWrite) (b : Bitmap) {e e' : Eid} (h : e ≠ e') :
    bitAt (w.onto b e') (lockAt e) = bitAt b (lockAt e) := by
  have hlock : lockAt e ≠ lockAt e' := lockAt_injective.ne h
  have hmig : lockAt e ≠ migrateAt e' := (migrateAt_ne_lockAt e' e).symm
  cases w with
  | claim => simp [StatusWrite.onto, bitAt_setlockbit, hlock]
  | release => simp [StatusWrite.onto, bitAt_resetlockbit, hlock]
  | migrated => simp [StatusWrite.onto, bitAt_setmigratebit, hmig]

theorem claims_append (g : Globals) (e : Eid) (b : Bitmap) :
    { g with partialBitmap := b, inProgLocalList0 := g.inProgLocalList0 ++ [e.toInt32] }.claims =
      g.claims ++ [e] := by
  simp [Globals.claims]

/-- One step: this backend claims a tuple that is clear. -/
theorem OnTop.claim (h : OnTop b tr g) {e : Eid} {t : HeapTuple R}
    (hclear : statusOf g.partialBitmap e = ⟨false, false⟩) :
    OnTop b (tr ++ [.migrateTuple t]) { g with
      partialBitmap := setlockbit g.partialBitmap e,
      inProgLocalList0 := g.inProgLocalList0 ++ [e.toInt32] } := by
  have hbit : bitAt g.partialBitmap (lockAt e) = false := by
    rw [← getlockbit_eq_bitAt]
    exact congrArg Status.lock hclear
  refine ⟨h.flag, ?_, ?_⟩
  · intro p
    rw [claims_append, othersAlone_append, bitAt_setlockbit, h.bits]
    simp [othersAlone, Bool.or_assoc]
  · intro e' he'
    rw [claims_append, List.mem_append, List.mem_singleton] at he'
    rw [othersAlone_append]
    rcases he' with he' | rfl
    · exact h.fresh e' he'
    · rw [h.bits, Bool.or_eq_false_iff] at hbit
      exact hbit.1

/-- One step: another backend writes to a tuple this one has not claimed. -/
theorem OnTop.other (h : OnTop b tr g) (w : StatusWrite) {e : Eid} (he : e ∉ g.claims) :
    OnTop b (tr ++ [.other w e])
      { g with partialBitmap := w.onto g.partialBitmap e } := by
  have halone : othersAlone b (tr ++ [.other w e]) = w.onto (othersAlone b tr) e := by
    rw [othersAlone_append]
    rfl
  have hlock : lockAt e ∉ g.claims.map lockAt := by
    rwa [List.mem_map_of_injective lockAt_injective]
  refine ⟨h.flag, ?_, ?_⟩
  · intro p
    show bitAt (w.onto g.partialBitmap e) p = (_ || decide (p ∈ g.claims.map lockAt))
    rw [halone]
    cases w with
    | claim =>
        simp only [StatusWrite.onto, bitAt_setlockbit, h.bits]
        exact Bool.or_right_comm _ _ _
    | migrated =>
        simp only [StatusWrite.onto, bitAt_setmigratebit, h.bits]
        exact Bool.or_right_comm _ _ _
    | release =>
        -- the one case in which it matters that the tuple is not a claim
        simp only [StatusWrite.onto, bitAt_resetlockbit, h.bits]
        by_cases hp : p = lockAt e
        · subst hp
          simp [hlock]
        · simp [hp]
  · intro e' he'
    have hne : e' ≠ e := fun heq => he (heq ▸ he')
    rw [halone, bitAt_onto_lockAt w _ hne]
    exact h.fresh e' he'

theorem OnTop.step {ev : ScanEvent R} (h : OnTop b tr g) (hok : Elsewhere g ev)
    (hstep : (scanning R).step g ev = some g') : OnTop b (tr ++ [ev]) g' := by
  cases ev with
  | other w e =>
      cases hstep
      exact h.other w hok
  | migrateTuple t =>
      have hstill : OnTop b (tr ++ [.migrateTuple t]) g := by
        refine ⟨h.flag, ?_, ?_⟩ <;> rw [othersAlone_append]
        · exact h.bits
        · exact h.fresh
      simp only [scanning, Globals.migrateTuple_heap, Option.map_some, Option.some.injEq] at hstep
      by_cases hlen : t.tLen = 0
      · rw [if_pos hlen] at hstep
        exact hstep ▸ hstill
      · rw [if_neg hlen] at hstep
        rcases Globals.claim_cases g t.tSelf.eid with ⟨_, hc⟩ | ⟨_, _, hc⟩ | ⟨hclear, hc⟩ <;>
          rw [hc] at hstep <;> subst hstep
        · exact hstill
        · exact ⟨hstill.flag, hstill.bits, hstill.fresh⟩
        · exact h.claim hclear

/-- Whole runs. -/
theorem onTop_of_run (hflag : g.migrateflag = true) (h0 : g.inProgLocalList0 = [])
    (hrun : (scanning R).Run Elsewhere g tr g') : OnTop g.partialBitmap tr g' := by
  refine hrun.tracks (fun _ _ _ _ hok hstep h => h.step hok hstep) ⟨hflag, ?_, ?_⟩
  · simp [Globals.claims, h0, othersAlone]
  · simp [Globals.claims, h0]

/-- Clearing the claims takes away what is on top. -/
theorem OnTop.undone (h : OnTop b tr g) :
    g.txnErrorHandling.partialBitmap = othersAlone b tr := by
  refine ext_bitAt fun p => ?_
  rw [bitAt_txnErrorHandling h.flag, h.bits]
  by_cases hp : p ∈ g.claims.map lockAt
  · obtain ⟨e, he, rfl⟩ := List.mem_map.mp hp
    simp [hp, h.fresh e he]
  · simp [hp]

/-- On heap tuples alone the scan never stops short. -/
theorem exists_run_of_tuples (g : Globals) (ts : List (HeapTuple R)) :
    ∃ g', (scanning R).exec g (ts.map .migrateTuple) = some g' ∧
      (scanning R).Run Elsewhere g (ts.map .migrateTuple) g' := by
  induction ts generalizing g with
  | nil => exact ⟨g, rfl, .nil⟩
  | cons t ts ih =>
      have hstep : (scanning R).step g (.migrateTuple t) =
          some (if t.tLen = 0 then (true, g) else g.claim t.tSelf.eid).2 := rfl
      obtain ⟨g', hexec, hrun⟩ := ih (if t.tLen = 0 then (true, g) else g.claim t.tSelf.eid).2
      refine ⟨g', ?_, ?_⟩
      · rw [List.map_cons, Machine.exec, hstep]
        exact hexec
      · exact (Machine.Run.snoc .nil trivial hstep).append hrun

theorem othersAlone_tuples (b : Bitmap) (ts : List (HeapTuple R)) :
    othersAlone b (ts.map .migrateTuple) = b := by
  induction ts with
  | nil => rfl
  | cons t ts ih => exact ih

/-- From empty lists in migration mode: `MigrateTuple` on any tuples and then
`txn_error_handling` gives back the bitmap word for word; and with the writes of others in
between, `txn_error_handling` clears the lock bits of this backend's claims and nothing
else, which leaves what the others' writes alone would have made. -/
theorem abort_undoes_claims (g : Globals) (hflag : g.migrateflag = true)
    (h0 : g.inProgLocalList0 = []) :
    (∀ ts : List (HeapTuple R), ∃ g', (scanning R).exec g (ts.map .migrateTuple) = some g' ∧
      g'.txnErrorHandling.partialBitmap = g.partialBitmap) ∧
    ∀ (tr : List (ScanEvent R)) (g' : Globals), (scanning R).Run Elsewhere g tr g' →
      (∀ p, bitAt g'.txnErrorHandling.partialBitmap p =
        (bitAt g'.partialBitmap p && !decide (p ∈ g'.claims.map lockAt))) ∧
      g'.txnErrorHandling.partialBitmap = othersAlone g.partialBitmap tr := by
  have interleaved : ∀ (tr : List (ScanEvent R)) (g' : Globals),
      (scanning R).Run Elsewhere g tr g' →
      (∀ p, bitAt g'.txnErrorHandling.partialBitmap p =
        (bitAt g'.partialBitmap p && !decide (p ∈ g'.claims.map lockAt))) ∧
      g'.txnErrorHandling.partialBitmap = othersAlone g.partialBitmap tr := by
    intro tr g' hrun
    have h := onTop_of_run hflag h0 hrun
    exact ⟨bitAt_txnErrorHandling h.flag, h.undone⟩
  refine ⟨?_, interleaved⟩
  intro ts
  obtain ⟨g', hexec, hrun⟩ := exists_run_of_tuples g ts
  exact ⟨g', hexec, (interleaved _ g' hrun).2.trans (othersAlone_tuples _ ts)⟩

/-- Tuple 0 is migrated without being locked and tuple 2 is locked; tuple 1 is claimed.
In the second run another backend claims tuple 3 before this one comes to it. -/
theorem abort_undoes_claims_example :
    let g : Globals := ⟨true, fun _ => 0b010010#64, [], [], 0⟩
    let tuple (n : Nat) : HeapTuple Nat := ⟨40, ⟨0, UInt16.ofNat (n + 1)⟩, n⟩
    (∃ g', (scanning Nat).exec g (([0, 2, 1, 1].map tuple).map .migrateTuple) = some g' ∧
      g'.txnErrorHandling.partialBitmap = fun _ => 0b010010#64) ∧
    ∃ g', (scanning Nat).Run Elsewhere g
        [.migrateTuple (tuple 1), .other .claim 3, .migrateTuple (tuple 3)] g' ∧
      g'.txnErrorHandling.partialBitmap = setlockbit (fun _ => 0b010010#64) 3 := by
  intro g tuple
  refine ⟨(abort_undoes_claims g rfl rfl).1 ([0, 2, 1, 1].map tuple), ?_⟩
  obtain ⟨g', hrun, _⟩ := Machine.exists_runIn (M := scanning Nat) (s := g) Elsewhere
    [.migrateTuple (tuple 1), .other .claim 3, .migrateTuple (tuple 3)] (p := fun _ => true)
    (by decide)
  exact ⟨g', hrun, ((abort_undoes_claims g rfl rfl).2 _ g' hrun).2⟩

end BullFrog
