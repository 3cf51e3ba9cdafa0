/-
# `BullFrog.Lmgr.Owners` — who has a lock, and what the state word says about it

A backend has a lock from the compare-and-exchange that adds to the word until the
subtraction that takes it away again.  `held_lwlocks` lags behind at both ends, so what a
backend has is its `held_lwlocks` and at most one lock more, which its place in the code
tells (`Pc.pending`).

The invariant is one equation per lock: the lock field is the sum of what the owners have
added to it, and where one of them owns it exclusively his share is all of it.  From this
follow mutual exclusion (`lwlock_excludes`) and that the code implements a reader-writer
lock (`lwlock_refines_rwlock`): a compare-and-exchange that takes the lock is the `lock` of a
reader-writer lock, a subtraction its `unlock`, and every other instruction leaves the owners
as they are, whatever the backends do and in whatever order.
-/
import Mathlib.Algebra.BigOperators.Ring.Finset
import BullFrog.Lib.Tally
import BullFrog.Lmgr.LWLock

namespace BullFrog.Lmgr

variable {B L V : Type}

/-! ## What a backend has -/

/-- The mode in which a call takes its lock, if it takes it. -/
@[simp] def Call.takes : Call V → Option LWLockMode
  | .acquire m | .acquireOrWait m => some m
  | .waitForVar _ => none

/-- A call only takes itself out of the queue when it has the lock. -/
def Task.pending : Task V → Option LWLockMode
  | .dequeueSelf c => c.takes
  | _ => none

/-- A lock that is not yet, or no longer, in `held_lwlocks`. -/
def Pc.pending : Pc B V → Option LWLockMode
  | .gotLock t => some t.mode
  | .listLock t | .listSpin t => t.pending
  | .dequeue c | .dequeueFlag c _ | .dequeueUnlock c _ | .dequeueClear c | .dequeueOk c
  | .dequeueFix c | .leave c => c.takes
  | .semLock c dq | .semCheck c dq => if dq then c.takes else none
  | .fix (.acquireOrWait m) mustwait => if mustwait then none else some m
  | .subtract m => some m
  | _ => none

/-- The locks of a backend. -/
def Proc.owned (p : Proc B L V) : List (L × LWLockMode) :=
  p.held ++ p.pc.pending.toList.map fun m => (p.lock, m)

/-- What a step does to the locks of the backend that makes it, and to the word of the lock
its call is about. -/
inductive OwnChange (p p' : Proc B L V) (w : UInt32) : UInt32 → Prop
  | take (m : LWLockMode) : (∃ t : Try, p.pc = .swap t w ∧ t.mode = m) → lockFree m w = true →
      p'.owned.Perm ((p.lock, m) :: p.owned) → OwnChange p p' w (w + modeVal m)
  | give (m : LWLockMode) : p.pc = .subtract m → p.owned.Perm ((p.lock, m) :: p'.owned) →
      OwnChange p p' w (w - modeVal m)
  | keep {w' : UInt32} : p'.owned.Perm p.owned → lockField w' = lockField w →
      OwnChange p p' w w'

section Owned

variable [DecidableEq L]

theorem removeHeld_perm {l : L} {m : LWLockMode} {held held' : List (L × LWLockMode)}
    (h : removeHeld l held = some (m, held')) : held.Perm ((l, m) :: held') := by
  induction held generalizing held' with
  | nil => cases h
  | cons e held ih =>
      simp only [removeHeld] at h
      split at h
      · rename_i hrest
        cases h
        exact ((ih hrest).cons e).trans (List.Perm.swap _ _ _)
      · split at h
        · rename_i he
          cases h
          rw [← he]
        · cases h

end Owned

theorem lockField_wakeState (ws : List B) (ok : Bool) (w : UInt32) :
    lockField (wakeState ws ok w) = lockField w := by
  rw [wakeState]
  cases ok <;> cases ws <;> simp

section Next

variable [DecidableEq B] [DecidableEq L] [DecidableEq V]
  {b : B} {p p' : Proc B L V} {cell : Cell B V} {wt : Bool} {mode : B → LWLockMode} {sem : Nat}
  {e : Effect B V}

theorem next_owned (h : next b p cell wt mode sem = some (p', e)) :
    OwnChange p p' cell.state (e.onCell b cell).state := by
  cases hpc : p.pc
  case swap t old =>
    simp only [next, hpc] at h
    split at h
    · cases h
      exact .keep (by simp [Proc.owned, hpc, Pc.pending]) rfl
    · rename_i hold
      obtain rfl : cell.state = old := not_not.mp hold
      split at h
      · rename_i hfree
        cases h
        refine .take t.mode ⟨t, hpc, rfl⟩ hfree ?_
        simp [Proc.owned, hpc, Pc.pending, List.perm_append_singleton]
      · cases h
        exact .keep (by simp [Proc.owned, hpc, Pc.pending]) rfl
  case subtract m =>
    simp only [next, hpc] at h
    split at h <;> cases h <;> refine .give m hpc ?_ <;>
      simp [Proc.owned, hpc, Pc.pending, Task.pending, List.perm_append_singleton]
  case release =>
    simp only [next, hpc] at h
    split at h
    · cases h
      exact .keep (by simp [Proc.owned, hpc, Pc.pending]) rfl
    · rename_i m held hrem
      cases h
      refine .keep ?_ rfl
      simpa [Proc.owned, hpc, Pc.pending] using
        List.perm_append_comm.trans (removeHeld_perm hrem).symm
  case' listLock t => cases t
  -- a lock moves between the code and `held_lwlocks`, or nothing happens to it
  all_goals
    simp only [next, hpc, Task.enter] at h
    repeat' split at h
  all_goals cases h
  all_goals refine .keep ?_ (by simp_all [lockField_wakeState])
  all_goals simp [Proc.owned, Pc.pending, Task.pending, *]

end Next

/-! ## The lock field counts the owners -/

section Shares

variable [DecidableEq L]

/-- What an entry adds to the field of lock `l`. -/
def entryVal (l : L) (e : L × LWLockMode) : Nat :=
  if e.1 = l then (modeVal e.2).toNat else 0

/-- What a backend's locks add to it. -/
def Proc.share (p : Proc B L V) (l : L) : Nat := (p.owned.map (entryVal l)).sum

theorem entryVal_self (l : L) (m : LWLockMode) : entryVal l (l, m) = (modeVal m).toNat :=
  if_pos rfl

theorem share_congr {p p' : Proc B L V} (h : p'.owned.Perm p.owned) (l : L) :
    p'.share l = p.share l :=
  (h.map _).sum_nat

theorem share_cons {p p' : Proc B L V} {x : L × LWLockMode} (h : p'.owned.Perm (x :: p.owned))
    (l : L) : p'.share l = entryVal l x + p.share l := by
  rw [Proc.share, (h.map _).sum_nat, List.map_cons, List.sum_cons, Proc.share]

/-- A backend's share is at least each of its entries. -/
theorem le_share {p : Proc B L V} {l : L} {m : LWLockMode} (h : (l, m) ∈ p.owned) :
    (modeVal m).toNat ≤ p.share l := by
  rw [← entryVal_self l m]
  exact List.single_le_sum (fun _ _ => Nat.zero_le _) _ (List.mem_map_of_mem h)

theorem exists_owned_of_share_pos {p : Proc B L V} {l : L} (h : 0 < p.share l) :
    ∃ m, (l, m) ∈ p.owned := by
  by_contra hnone
  have hzero : ∀ n ∈ p.owned.map (entryVal l), n = 0 := by
    intro n hn
    obtain ⟨⟨l', m⟩, hmem, rfl⟩ := List.mem_map.mp hn
    refine if_neg ?_
    rintro rfl
    exact hnone ⟨m, hmem⟩
  exact absurd (List.sum_eq_zero hzero) (Nat.ne_of_gt h)

theorem lockFree_fits {m : LWLockMode} {w : UInt32} (h : lockFree m w = true) :
    lockField w + (modeVal m).toNat < 2 ^ 25 ∧ lockField w < 2 ^ 24 := by
  cases m with
  | exclusive =>
      have hzero : lockField w = 0 := by
        simpa [lockFree, ← and_lockMask_eq_zero] using h
      rw [hzero]
      decide
  | shared | waitUntilFree =>
      have hlow : lockField w < 2 ^ 24 := and_valExclusive_eq_zero.mp (by simpa [lockFree] using h)
      exact ⟨Nat.lt_of_lt_of_le (Nat.add_lt_add_right hlow 1) (by decide), hlow⟩

end Shares

section Counted

variable [Fintype B] [DecidableEq L]

/-- The lock field is what the owners have added to it, and an exclusive owner's share is
all of it. -/
structure Counted (s : State B L V) : Prop where
  field : ∀ l, lockField (s.lock l).state = ∑ b, (s.proc b).share l
  alone : ∀ l b, (l, .exclusive) ∈ (s.proc b).owned → lockField (s.lock l).state = 2 ^ 24

variable {s : State B L V}

/-- Two entries of one lock, one of them exclusive: there is no room for both. -/
theorem Counted.no_room (h : Counted s) {l : L} {c : B} (hex : (l, .exclusive) ∈ (s.proc c).owned)
    {m : LWLockMode} (hmore : (modeVal m).toNat + 2 ^ 24 ≤ ∑ d, (s.proc d).share l) : False := by
  have hfield := h.field l
  rw [h.alone l c hex] at hfield
  have hpos : 0 < (modeVal m).toNat := by cases m <;> decide
  omega

/-- Where one backend owns a lock exclusively, nobody else owns it. -/
theorem Counted.unique (h : Counted s) {l : L} {m : LWLockMode} {b c : B}
    (hex : (l, .exclusive) ∈ (s.proc b).owned) (hown : (l, m) ∈ (s.proc c).owned) : c = b := by
  by_contra hne
  have hb := le_share hex
  have hc := le_share hown
  have hsum := Tally.add_le_sum (g := fun d => (s.proc d).share l) hne
  refine h.no_room hex (m := m) ?_
  change 2 ^ 24 ≤ _ at hb
  omega

/-- A free word has no owner. -/
theorem Counted.not_owned_of_free (h : Counted s) {l : L} (hfree : lockField (s.lock l).state = 0)
    (b : B) (m : LWLockMode) : (l, m) ∉ (s.proc b).owned := by
  intro hmem
  have hshare := le_share hmem
  have hsum := Tally.le_sum (g := fun c => (s.proc c).share l) b
  have hpos : 0 < (modeVal m).toNat := by cases m <;> decide
  have hfield := h.field l
  omega

/-- A word that is not free has one. -/
theorem Counted.exists_owner (h : Counted s) {l : L} (hheld : lockField (s.lock l).state ≠ 0) :
    ∃ b m, (l, m) ∈ (s.proc b).owned := by
  rw [h.field l] at hheld
  obtain ⟨b, hb⟩ := Tally.exists_pos (Nat.pos_of_ne_zero hheld)
  obtain ⟨m, hm⟩ := exists_owned_of_share_pos hb
  exact ⟨b, m, hm⟩

theorem Counted.of_initial (h : s.Initial) : Counted s := by
  have howned : ∀ b, (s.proc b).owned = [] := by
    intro b
    simp [Proc.owned, h.held b, h.idle b, Pc.pending]
  refine ⟨fun l => ?_, fun l b hex => ?_⟩
  · have hzero : ∑ b, (s.proc b).share l = 0 :=
      Finset.sum_eq_zero fun b _ => by simp [Proc.share, howned b]
    rw [h.state l, hzero]
    rfl
  · rw [howned b] at hex
    cases hex

end Counted

section Invariant

/-- Entering a function takes no lock and gives none back. -/
theorem start_owned {p p' : Proc B L V} {a : Act L V} (hpc : p.pc = .idle)
    (hs : p.start a = some p') : p'.owned = p.owned := by
  cases a with
  | acquire | conditionalAcquire | acquireOrWait =>
      cases hs
      simp only [Proc.take]
      split <;> simp [Proc.owned, hpc, Pc.pending]
  | waitForVar | updateVar | release | releaseClearVar | releaseAll =>
      cases hs
      simp [Proc.owned, hpc, Pc.pending, Task.pending]
  | next | signal | wait => cases hs

variable [DecidableEq B] [DecidableEq L]

/-- A move of `b` changes the owned locks of `b` and the word of the lock of its call. -/
theorem move_owned [DecidableEq V] {s : State B L V} {b : B} {a : Act L V} {p' : Proc B L V}
    {e : Effect B V} (h : Move s b a p' e) :
    OwnChange (s.proc b) p' (s.lock (s.proc b).lock).state
      (e.onCell b (s.lock (s.proc b).lock)).state := by
  cases h with
  | next hn => exact next_owned hn
  | signal => exact .keep .rfl rfl
  | wait _ _ => exact .keep .rfl rfl
  | start hpc hs => exact .keep (.of_eq (start_owned hpc hs)) rfl

variable {s s' : State B L V} {b : B} {p' : Proc B L V} {e : Effect B V}

/-- The field moves with the share of the backend that moves. -/
theorem OwnChange.field {w' : UInt32}
    (hown : OwnChange (s.proc b) p' (s.lock (s.proc b).lock).state w')
    (hw : (e.onCell b (s.lock (s.proc b).lock)).state = w') (l : L)
    (hle : (s.proc b).share l ≤ lockField (s.lock l).state) :
    lockField ((s.after b p' e).lock l).state + (s.proc b).share l =
      lockField (s.lock l).state + p'.share l := by
  by_cases hl : l = (s.proc b).lock
  · subst hl
    rw [after_lock_self, hw]
    cases hown with
    | take m _ hfree hperm =>
        rw [lockField_add (lockFree_fits hfree).1, share_cons hperm, entryVal_self]
        omega
    | give m _ hperm =>
        have hshare := share_cons hperm (s.proc b).lock
        rw [entryVal_self] at hshare
        rw [lockField_sub (by omega)]
        omega
    | keep hperm hsame => rw [hsame, share_congr hperm]
  · rw [after_lock_ne s hl]
    cases hown with
    | take m _ _ hperm => rw [share_cons hperm, entryVal, if_neg (Ne.symm hl), Nat.zero_add]
    | give m _ hperm => rw [share_cons hperm, entryVal, if_neg (Ne.symm hl), Nat.zero_add]
    | keep hperm _ => rw [share_congr hperm]

variable [Fintype B]

/-- Only the share of the backend that moves can change. -/
theorem sum_share_after (s : State B L V) (b : B) (p' : Proc B L V) (e : Effect B V) (l : L) :
    ∑ c, ((s.after b p' e).proc c).share l + (s.proc b).share l =
      ∑ c, (s.proc c).share l + p'.share l := by
  have hchange := Tally.sum_change (g := fun c => (s.proc c).share l) b
    (fun c hc => congrArg (fun p => p.share l) (after_proc_ne s hc p' e))
  simpa using hchange

/-- While a backend keeps a lock exclusively, nobody adds to the field and nobody else has
anything to take from it. -/
theorem Counted.alone_kept (h : Counted s) {w' : UInt32}
    (hown : OwnChange (s.proc b) p' (s.lock (s.proc b).lock).state w')
    (hw : (e.onCell b (s.lock (s.proc b).lock)).state = w') {l : L} {c : B}
    (hex : (l, .exclusive) ∈ (s.proc c).owned)
    (hex' : (l, .exclusive) ∈ ((s.after b p' e).proc c).owned) :
    lockField ((s.after b p' e).lock l).state = 2 ^ 24 := by
  have hfull := h.alone l c hex
  by_cases hl : l = (s.proc b).lock
  · subst hl
    rw [after_lock_self, hw]
    cases hown with
    | take m _ hfree _ =>
        have hlow := (lockFree_fits hfree).2
        omega
    | give m _ hperm =>
        have hshare := share_cons hperm (s.proc b).lock
        rw [entryVal_self] at hshare
        refine (h.no_room (m := m) hex ?_).elim
        by_cases hc : c = b
        · subst hc
          rw [after_proc_self] at hex'
          have hkept : 2 ^ 24 ≤ p'.share (s.proc c).lock := le_share hex'
          have hsum := Tally.le_sum (g := fun d => (s.proc d).share (s.proc c).lock) c
          omega
        · have hother : 2 ^ 24 ≤ (s.proc c).share (s.proc b).lock := le_share hex
          have hsum := Tally.add_le_sum (g := fun d => (s.proc d).share (s.proc b).lock)
            (Ne.symm hc)
          omega
    | keep _ hsame => rw [hsame, hfull]
  · rw [after_lock_ne s hl, hfull]

theorem Counted.after (h : Counted s)
    (hown : OwnChange (s.proc b) p' (s.lock (s.proc b).lock).state
      (e.onCell b (s.lock (s.proc b).lock)).state) : Counted (s.after b p' e) := by
  refine ⟨fun l => ?_, fun l c hex => ?_⟩
  · have hle : (s.proc b).share l ≤ lockField (s.lock l).state := by
      rw [h.field l]
      exact Tally.le_sum (g := fun c => (s.proc c).share l) b
    have hmoved := hown.field rfl l hle
    have hsum := sum_share_after s b p' e l
    have hfield := h.field l
    omega
  · by_cases hold : (l, .exclusive) ∈ (s.proc c).owned
    · exact h.alone_kept hown rfl hold hex
    · -- the only new owner is `b`, and the lock was free
      obtain rfl : c = b := by
        by_contra hc
        rw [after_proc_ne s hc] at hex
        exact hold hex
      rw [after_proc_self] at hex
      generalize hw : (e.onCell c (s.lock (s.proc c).lock)).state = w' at hown
      cases hown with
      | take m _ hfree hperm =>
          rcases List.mem_cons.mp (hperm.mem_iff.mp hex) with hnew | hmem
          · obtain ⟨rfl, rfl⟩ := Prod.mk.inj hnew
            have hzero : lockField (s.lock (s.proc c).lock).state = 0 := by
              simpa [lockFree, ← and_lockMask_eq_zero] using hfree
            rw [after_lock_self, hw, lockField_add (lockFree_fits hfree).1, hzero]
            rfl
          · exact absurd hmem hold
      | give m _ hperm => exact absurd (hperm.mem_iff.mpr (List.mem_cons_of_mem _ hex)) hold
      | keep hperm _ => exact absurd (hperm.mem_iff.mp hex) hold

/-- The lock field is exact in every state of every run. -/
theorem Counted.of_run [DecidableEq V] {ok : State B L V → B × Act L V → Prop}
    {tr : List (B × Act L V)} (h : s.Initial) (r : (lwlocks B L V).Run ok s tr s') : Counted s' :=
  invariant_of_moves (fun _ _ _ _ _ _ hm hI => hI.after (move_owned hm)) r (.of_initial h)

end Invariant

/-! ## Mutual exclusion -/

section Exclusion

variable [DecidableEq L]

theorem share_eq_counts (p : Proc B L V) (l : L) :
    p.share l = 2 ^ 24 * p.owned.count (l, .exclusive) +
      p.owned.countP fun x => x.1 = l ∧ x.2 ≠ .exclusive := by
  rw [Proc.share]
  induction p.owned with
  | nil => rfl
  | cons x es ih =>
      obtain ⟨l', m⟩ := x
      rw [List.map_cons, List.sum_cons, ih, List.count_cons, List.countP_cons, entryVal]
      by_cases hl : l' = l
      · subst hl
        cases m with
        | exclusive => simp [modeVal, show valExclusive.toNat = 2 ^ 24 from rfl]; omega
        | shared | waitUntilFree =>
            simp [modeVal, show valShared.toNat = 1 from rfl]
            omega
      · simp [hl]

variable [Fintype B]

/-- How often lock `l` is owned exclusively. -/
def State.exclusives (s : State B L V) (l : L) : Nat :=
  ∑ b, (s.proc b).owned.count (l, .exclusive)

/-- How often it is owned in another mode. -/
def State.sharers (s : State B L V) (l : L) : Nat :=
  ∑ b, (s.proc b).owned.countP fun x => x.1 = l ∧ x.2 ≠ .exclusive

theorem Counted.field_eq_counts {s : State B L V} (h : Counted s) (l : L) :
    lockField (s.lock l).state = 2 ^ 24 * s.exclusives l + s.sharers l := by
  rw [h.field l, State.exclusives, State.sharers, Finset.mul_sum, ← Finset.sum_add_distrib]
  exact Tally.sum_same fun b => share_eq_counts _ l

/-- In every state of every run, the lock field of the word is `LW_VAL_EXCLUSIVE` for an
exclusive owner and `LW_VAL_SHARED` for every other, and where there is an exclusive owner
he is the only one. -/
theorem lwlock_excludes [DecidableEq B] [DecidableEq V] {s s' : State B L V}
    {tr : List (B × Act L V)} (h : s.Initial) (r : (lwlocks B L V).Run Machine.Any s tr s')
    (l : L) :
    lockField (s'.lock l).state = 2 ^ 24 * s'.exclusives l + s'.sharers l ∧
      (s'.exclusives l = 0 ∨ s'.exclusives l = 1 ∧ s'.sharers l = 0) := by
  have hcounted := Counted.of_run h r
  have hfield := hcounted.field_eq_counts l
  refine ⟨hfield, ?_⟩
  by_cases hnone : s'.exclusives l = 0
  · exact Or.inl hnone
  · -- an exclusive owner exists, so the field is exactly his share
    right
    obtain ⟨b, hb⟩ := Tally.exists_pos (Nat.pos_of_ne_zero hnone)
    have hfull := hcounted.alone l b (List.count_pos_iff.mp hb)
    omega

/-- Two backends after one lock: the first has it, the second sleeps in the queue. -/
def contended : List (Bool × Act Unit Bool) :=
  (false, .acquire () .exclusive) :: List.replicate 5 (false, .next) ++
    (true, .acquire () .exclusive) :: List.replicate 12 (true, .next)

theorem lwlock_excludes_contended :
    ∃ s' : State Bool Unit Bool,
      (lwlocks Bool Unit Bool).Run Machine.Any (.initial fun _ => false) contended s' ∧
      s'.exclusives () = 1 ∧
      lockField (s'.lock ()).state = 2 ^ 24 * s'.exclusives () + s'.sharers () ∧
      (s'.exclusives () = 0 ∨ s'.exclusives () = 1 ∧ s'.sharers () = 0) := by
  obtain ⟨s', run, hone⟩ := (lwlocks Bool Unit Bool).exists_run contended
    (s := .initial fun _ => false) (p := fun s => s.exclusives () == 1) (by decide +kernel)
  exact ⟨s', run, by simpa using hone, lwlock_excludes (State.initial_initial _) run ()⟩

end Exclusion

/-! ## A reader-writer lock -/

section Refinement

/-- Who owns what, each lock as often as it was taken. -/
abbrev Owners (B L : Type) := B → Multiset (L × LWLockMode)

/-- What happens to a reader-writer lock. -/
inductive RwAct (B L : Type) where
  | lock (b : B) (l : L) (m : LWLockMode)
  | unlock (b : B) (l : L) (m : LWLockMode)
  deriving DecidableEq

/-- A reader-writer lock admits an exclusive owner when there is no owner, any other when
there is no exclusive one. -/
def admits (o : Owners B L) (l : L) (m : LWLockMode) : Prop :=
  (∀ b, (l, .exclusive) ∉ o b) ∧ (m = .exclusive → ∀ b m', (l, m') ∉ o b)

/-- The reader-writer locks. -/
noncomputable def rwlocks (B L : Type) [DecidableEq B] [DecidableEq L] :
    Machine (Owners B L) (RwAct B L) where
  step o
    | .lock b l m =>
        open Classical in
        if admits o l m then some (Function.update o b ((l, m) ::ₘ o b)) else none
    | .unlock b l m =>
        if (l, m) ∈ o b then some (Function.update o b ((o b).erase (l, m))) else none

/-- The owners in a state of the code. -/
def State.owners (s : State B L V) : Owners B L := fun b => (s.proc b).owned

theorem owners_after [DecidableEq B] [DecidableEq L] (s : State B L V) (b : B)
    (p' : Proc B L V) (e : Effect B V) :
    (s.after b p' e).owners = Function.update s.owners b p'.owned := by
  funext c
  by_cases hc : c = b
  · subst hc
    simp [State.owners]
  · simp [State.owners, after_proc_ne s hc, hc]

/-- What the next instruction of a backend is to the reader-writer locks, where the word of
its lock is `w`. -/
def Proc.rwAct (b : B) (p : Proc B L V) (w : UInt32) : Option (RwAct B L) :=
  match p.pc with
  | .swap t old => if w = old ∧ lockFree t.mode old then some (.lock b p.lock t.mode) else none
  | .subtract m => some (.unlock b p.lock m)
  | _ => none

/-- What a step is to them. -/
def State.rwAct (s : State B L V) : B × Act L V → Option (RwAct B L)
  | (b, .next) => (s.proc b).rwAct b (s.lock (s.proc b).lock).state
  | _ => none

theorem Proc.rwAct_of_take {b : B} {p : Proc B L V} {m : LWLockMode} {w : UInt32}
    (hpc : ∃ t : Try, p.pc = .swap t w ∧ t.mode = m) (hfree : lockFree m w = true) :
    p.rwAct b w = some (.lock b p.lock m) := by
  obtain ⟨t, hpc, rfl⟩ := hpc
  rw [Proc.rwAct, hpc]
  exact if_pos ⟨rfl, hfree⟩

theorem Proc.rwAct_of_give {b : B} {p : Proc B L V} {m : LWLockMode} (hpc : p.pc = .subtract m)
    (w : UInt32) : p.rwAct b w = some (.unlock b p.lock m) := by
  rw [Proc.rwAct, hpc]

/-- An instruction after which a backend owns what it owned before was none of them. -/
theorem rwAct_of_keep [DecidableEq B] [DecidableEq L] [DecidableEq V] {b : B}
    {p p' : Proc B L V} {cell : Cell B V} {wt : Bool} {mode : B → LWLockMode} {sem : Nat}
    {e : Effect B V} (h : Lmgr.next b p cell wt mode sem = some (p', e))
    (hperm : p'.owned.Perm p.owned) : p.rwAct b cell.state = none := by
  have hlength := hperm.length_eq
  cases hpc : p.pc
  case swap t old =>
    rw [Proc.rwAct, hpc]
    refine if_neg ?_
    rintro ⟨hold, hfree⟩
    simp only [Lmgr.next, hpc, hold, ne_eq, not_true, if_false, hfree, if_true] at h
    cases h
    simp [Proc.owned, hpc, Pc.pending] at hlength
  case subtract m =>
    simp only [Lmgr.next, hpc] at h
    split at h <;> cases h <;>
      simp [Proc.owned, hpc, Pc.pending, Task.pending] at hlength
  all_goals rw [Proc.rwAct, hpc]

variable [Fintype B] [DecidableEq L]

/-- A lock whose word is free for a mode admits it. -/
theorem Counted.admits {s : State B L V} (h : Counted s) {l : L} {m : LWLockMode}
    (hfree : lockFree m (s.lock l).state = true) : admits s.owners l m := by
  refine ⟨fun b hex => ?_, ?_⟩
  · have hfull := h.alone l b hex
    have hlow := (lockFree_fits hfree).2
    omega
  · rintro rfl b m' hmem
    have hzero : lockField (s.lock l).state = 0 := by
      simpa [lockFree, ← and_lockMask_eq_zero] using hfree
    exact h.not_owned_of_free hzero b m' hmem

variable [DecidableEq B] [DecidableEq V] {s s' : State B L V}

/-- Every step is the step of the reader-writer locks that `State.rwAct` names, or leaves the
owners as they are. -/
theorem Counted.owners_step (h : Counted s) {x : B × Act L V}
    (hstep : (lwlocks B L V).step s x = some s') :
    (rwlocks B L).stepOrStay s.owners (s.rwAct x) = some s'.owners := by
  obtain ⟨b, a⟩ := x
  obtain ⟨p', e, hm, rfl⟩ := step_move hstep
  rw [owners_after]
  have hsame : p'.owned.Perm (s.proc b).owned →
      some s.owners = some (Function.update s.owners b ↑p'.owned) := by
    intro hperm
    rw [Multiset.coe_eq_coe.mpr hperm]
    exact congrArg some (Function.update_eq_self b s.owners).symm
  cases hm with
  | signal | wait => exact hsame .rfl
  | start hpc hs =>
      have hnone : s.rwAct (b, a) = none := by cases a <;> first | rfl | cases hs
      rw [hnone]
      exact hsame (.of_eq (start_owned hpc hs))
  | next hn =>
      have hown := next_owned hn
      generalize (e.onCell b (s.lock (s.proc b).lock)).state = w' at hown
      rw [State.rwAct]
      cases hown with
      | take m hpc hfree hperm =>
          rw [Proc.rwAct_of_take hpc hfree, Multiset.coe_eq_coe.mpr hperm]
          exact if_pos (h.admits hfree)
      | give m hpc hperm =>
          have hmem : ((s.proc b).lock, m) ∈ s.owners b :=
            hperm.mem_iff.mpr List.mem_cons_self
          have herase : (s.owners b).erase ((s.proc b).lock, m) = p'.owned := by
            rw [State.owners, Multiset.coe_eq_coe.mpr hperm]
            exact Multiset.erase_cons_head ((s.proc b).lock, m) (p'.owned : Multiset _)
          rw [Proc.rwAct_of_give hpc, ← herase]
          exact if_pos hmem
      | keep hperm _ =>
          rw [rwAct_of_keep hn hperm]
          exact hsame hperm

/-- The code implements a reader-writer lock.  In every state that a run reaches, each step is
the step of the reader-writer locks that its instruction stands for, or leaves all owners as
they are; and the owners have come where they are by the steps that the instructions of the
run stand for, in their order. -/
theorem lwlock_refines_rwlock {tr : List (B × Act L V)} (h : s.Initial)
    (r : (lwlocks B L V).Run Machine.Any s tr s') :
    (rwlocks B L).Run Machine.Any s.owners
      (((lwlocks B L V).history s tr).filterMap fun y => y.1.rwAct y.2) s'.owners ∧
    ∀ x s'', (lwlocks B L V).step s' x = some s'' →
      (rwlocks B L).stepOrStay s'.owners (s'.rwAct x) = some s''.owners := by
  constructor
  · refine r.traces (J := Counted) State.owners (fun y => y.1.rwAct y.2) ?_ ?_ (.of_initial h)
    · rintro s ⟨b, a⟩ s' - hstep hI
      obtain ⟨p', e, hm, rfl⟩ := step_move hstep
      exact hI.after (move_owned hm)
    · intro s x s' _ hstep hI
      exact hI.owners_step hstep
  · intro x s'' hstep
    exact (Counted.of_run h r).owners_step hstep

theorem lwlock_refines_rwlock_contended :
    ∃ s' : State Bool Unit Bool,
      (lwlocks Bool Unit Bool).Run Machine.Any (.initial fun _ => false) contended s' ∧
      (rwlocks Bool Unit).Run Machine.Any (State.initial (V := Bool) fun _ => false).owners
        [.lock false () .exclusive] s'.owners ∧
      ∀ x s'', (lwlocks Bool Unit Bool).step s' x = some s'' →
        (rwlocks Bool Unit).stepOrStay s'.owners (s'.rwAct x) = some s''.owners := by
  have hevents : (((lwlocks Bool Unit Bool).history (.initial fun _ => false)
      contended).filterMap fun y => y.1.rwAct y.2) = [.lock false () .exclusive] := by
    decide +kernel
  obtain ⟨s', run, -⟩ := (lwlocks Bool Unit Bool).exists_run contended
    (s := .initial fun _ => false) (p := fun _ => true) (by decide +kernel)
  have hrefines := lwlock_refines_rwlock (State.initial_initial _) run
  rw [hevents] at hrefines
  exact ⟨s', run, hrefines⟩

end Refinement

end BullFrog.Lmgr
