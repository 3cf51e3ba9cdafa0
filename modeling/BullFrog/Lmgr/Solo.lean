/-
# `BullFrog.Lmgr.Solo` — a backend that takes one lock at a time, left alone

`LWLockAcquire` and `LWLockRelease` in a backend that has no other lock: where it can be in
the two functions (`Acquiring`, `Releasing`) and what it holds there, and how far it is from
the end of the call.  The second is a number that every step of the backend lowers (`Proc.rank`),
provided nobody else holds the spinlock of the queue:

    LWLockAcquire    at most once round the loop: the backend has the lock, or has entered the
                     queue, and then it takes from its semaphore what is there
    LWLockRelease    the waiters that are taken out of the queue, two steps each

So a backend that moves alone returns from its call, or comes to stand at its semaphore.
-/
import BullFrog.Lmgr.Wakeup

namespace BullFrog.Lmgr

variable {B L V : Type}

/-! ## The two functions -/

def Call.isAcquire (m : LWLockMode) : Call V → Bool
  | .acquire m' => m' == m
  | .acquireOrWait _ | .waitForVar _ => false

def Try.isAcquire (m : LWLockMode) : Try → Bool
  | .acquire m' _ => m' == m
  | .conditional _ | .acquireOrWait _ _ => false

def Task.isAcquire (m : LWLockMode) : Task V → Bool
  | .queueSelf c | .dequeueSelf c => c.isAcquire m
  | .readVar _ _ | .wakeup | .updateVar _ | .clearVar _ => false

/-- In `LWLockAcquire`, called with mode `m`. -/
def Pc.acquires (m : LWLockMode) : Pc B V → Bool
  | .attempt t | .swap t _ | .gotLock t | .mustWait t => t.isAcquire m
  | .listLock t | .listSpin t => t.isAcquire m
  | .queueSelf c | .queueFlag c | .queuePush c | .queueUnlock c | .queued c | .semLock c _
  | .semCheck c _ | .awakened c | .dequeue c | .dequeueFlag c _ | .dequeueUnlock c _
  | .dequeueClear c | .dequeueOk c | .dequeueFix c | .leave c | .fix c _ => c.isAcquire m
  | .retry m' => m' == m
  | .panic => true
  | _ => false

/-- The lock has been entered into `held_lwlocks`. -/
def Pc.entered : Pc B V → Bool
  | .fix _ _ => true
  | _ => false

/-- In `LWLockRelease`, the lock taken out of `held_lwlocks`. -/
def Pc.releases : Pc B V → Bool
  | .subtract m => m == .exclusive
  | .released | .wakeCollect | .wakeRead _ _ | .wakeSwap _ _ _ | .wakeNext _ | .wakePost _ _ => true
  | .listLock t | .listSpin t => t.active
  | _ => false

/-- In a call of `LWLockAcquire` for `l`, the only lock of the backend. -/
structure Proc.Acquiring (l : L) (p : Proc B L V) : Prop where
  lock : p.lock = l
  one : p.all = false
  pc : p.pc.acquires .exclusive = true
  held : p.held = if p.pc.entered then [(l, .exclusive)] else []
  ok : ∃ r, p.result = .ok r

/-- In a call of `LWLockRelease` for `l`, the only lock of the backend. -/
structure Proc.Releasing (l : L) (p : Proc B L V) : Prop where
  lock : p.lock = l
  one : p.all = false
  place : p.pc = .release ∧ p.held = [(l, .exclusive)] ∨ p.pc.releases = true ∧ p.held = []
  ok : ∃ r, p.result = .ok r

/-- Out of any call, with `held` in `held_lwlocks`. -/
structure Proc.Resting (held : List (L × LWLockMode)) (p : Proc B L V) : Prop where
  pc : p.pc = .idle
  held : p.held = held
  one : p.all = false
  ok : ∃ r, p.result = .ok r

theorem Proc.Resting.owned {held : List (L × LWLockMode)} {p : Proc B L V} (h : p.Resting held) :
    p.owned = held := by
  simp [Proc.owned, h.pc, h.held, Pc.pending]

section Next

variable [DecidableEq B] [DecidableEq L] [DecidableEq V]
  {b : B} {p p' : Proc B L V} {cell : Cell B V} {wt : Bool} {mode : B → LWLockMode} {sem : Nat}
  {e : Effect B V} {l : L}

theorem next_acquiring (h : next b p cell wt mode sem = some (p', e)) (hp : p.Acquiring l) :
    p'.Acquiring l ∨ p'.Resting [(l, .exclusive)] := by
  have hacq := hp.pc
  have hheld := hp.held
  cases hpc : p.pc
  case leave c =>
    rw [hpc] at hacq hheld
    cases c with
    | acquire m =>
        obtain rfl : m = .exclusive := by simpa [Pc.acquires, Call.isAcquire] using hacq
        simp only [next, hpc] at h
        cases h
        refine .inl ⟨hp.lock, hp.one, rfl, ?_, hp.ok⟩
        change p.held ++ [(p.lock, .exclusive)] = [(l, .exclusive)]
        rw [hheld, hp.lock]
        rfl
    | acquireOrWait | waitForVar => cases hacq
  case' listLock t => cases t
  all_goals
    rw [hpc] at hacq hheld
    first
      | (cases hacq; done)
      | (simp only [next, hpc, Task.enter] at h; repeat' split at h)
  all_goals cases h
  -- the usual step; a round of a loop that counts; `retry`; the panic; the end
  all_goals first
    | exact .inl ⟨hp.lock, hp.one, hacq, hheld, hp.ok⟩
    | exact .inl ⟨hp.lock, hp.one, hp.pc, hp.held, hp.ok⟩
    | exact .inl ⟨hp.lock, hp.one, hacq, hheld, _, rfl⟩
    | exact .inl ⟨hp.lock, hp.one, rfl, hheld, hp.ok⟩
    | exact .inr ⟨rfl, hheld, hp.one, hp.ok⟩
    | cases hacq

theorem next_in_release (h : next b p cell wt mode sem = some (p', e)) (hp : p.Releasing l) :
    p'.Releasing l ∨ p'.Resting [] := by
  obtain ⟨hlock, hone, ⟨hpc, hheld⟩ | ⟨hrel, hheld⟩, hok⟩ := hp
  · have hrem : removeHeld p.lock p.held = some (.exclusive, []) := by
      simp [hheld, hlock, removeHeld]
    simp only [next, hpc, hrem] at h
    cases h
    exact Or.inl ⟨hlock, hone, Or.inr ⟨rfl, rfl⟩, hok⟩
  · cases hpc : p.pc
    case' listLock t => cases t
    case' listSpin t => cases t
    all_goals
      rw [hpc] at hrel
      first
        | (cases hrel; done)
        | (simp only [next, hpc, Task.enter, hone, Bool.false_eq_true, if_false] at h
           repeat' split at h)
    all_goals cases h
    all_goals first
      | exact .inl ⟨hlock, hone, .inr ⟨hrel, hheld⟩, hok⟩
      | exact .inl ⟨hlock, hone, .inr ⟨rfl, hheld⟩, hok⟩
      | exact .inr ⟨rfl, hheld, hone, hok⟩

end Next

/-! ## The way to the end of a call -/

/-- How many steps a backend in `LWLockAcquire` or `LWLockRelease` has before it returns or
stands at its semaphore, at most, if nobody else moves. -/
def Proc.rank (p : Proc B L V) (cell : Cell B V) (lwWaiting : Bool) (sem : Nat) : Nat :=
  -- each count of the semaphore is good for one more round of its loop
  let c := p.extraWaits + 3 * sem
  -- a backend that has been taken out of the queue tries again from the start, once
  let again := if lwWaiting then 0 else 22
  match p.pc with
  | .awakened _ => 27 + c
  | .retry _ => 26 + c
  | .attempt (.acquire _ false) => 25 + c
  | .swap (.acquire _ false) oldState => (if cell.state = oldState then 23 else 24) + c
  | .mustWait (.acquire _ false) => 22 + c
  | .queueSelf _ => 21 + c
  | .listSpin (.queueSelf _) => 20 + c
  | .listLock (.queueSelf _) => 19 + c
  | .queueFlag _ => 18 + c
  | .queuePush _ => 17 + c
  | .queueUnlock _ => 16 + c + again
  | .queued _ => 15 + c + again
  | .attempt (.acquire _ true) => 14 + c + again
  | .swap (.acquire _ true) oldState => (if cell.state = oldState then 12 else 13) + c + again
  | .mustWait (.acquire _ true) => 7 + c + again
  | .semCheck _ false => 6 + c + again
  | .semLock _ false => 4 + c + again
  | .gotLock _ => 11 + c
  | .listSpin (.dequeueSelf _) => 10 + c
  | .listLock (.dequeueSelf _) => 9 + c
  | .dequeue _ => 8 + c
  | .dequeueFlag _ _ => 7 + c
  | .dequeueUnlock _ _ => 6 + c
  | .dequeueClear _ | .dequeueOk _ => 5 + c
  | .semCheck _ true => 6 + c + p.dequeueWaits
  | .semLock _ true => 4 + c + p.dequeueWaits
  | .dequeueFix _ => 3 + p.extraWaits + p.dequeueWaits
  | .leave _ => 2 + p.extraWaits
  | .fix _ _ => 1 + p.extraWaits
  | .release => 10 + 2 * cell.waiters.length
  | .subtract _ => 9 + 2 * cell.waiters.length
  | .listSpin .wakeup => 8 + 2 * cell.waiters.length
  | .listLock .wakeup => 7 + 2 * cell.waiters.length
  | .wakeCollect => 6 + 2 * cell.waiters.length
  | .wakeRead wakeup _ => 5 + 2 * wakeup.length
  | .wakeSwap wakeup _ oldState => (if cell.state = oldState then 3 else 4) + 2 * wakeup.length
  | .wakePost _ wakeup => 3 + 2 * wakeup.length
  | .wakeNext wakeup => 2 + 2 * wakeup.length
  | .released => 1
  | _ => 0

def State.rank (s : State B L V) (b : B) : Nat :=
  (s.proc b).rank (s.lock (s.proc b).lock) (s.lwWaiting b) (s.sem b)

section Rank

variable [DecidableEq B] [DecidableEq L] [DecidableEq V]

/-- `LWLockAcquire` posts no semaphore but the backend's own. -/
theorem next_sem {b c : B} {p p' : Proc B L V} {cell : Cell B V} {wt : Bool}
    {mode : B → LWLockMode} {sem : B → Nat} {e : Effect B V} {m : LWLockMode}
    (h : next b p cell wt mode (sem b) = some (p', e)) (hp : p.pc.acquires m = true)
    (hc : c ≠ b) : e.onSem b sem c = sem c := by
  cases hpc : p.pc
  all_goals simp only [hpc, Pc.acquires, Bool.false_eq_true] at hp
  all_goals
    simp only [next, hpc] at h
    repeat' split at h
  all_goals cases h
  all_goals simp [hc]

end Rank

/-! ## Alone -/

section Alone

variable {s s' t : State B L V} {b : B} {l : L}

/-- What stays while `b` moves alone from `s`: the others are where they were, and as long as
`b` is in `LWLockAcquire` it has woken none of them. -/
structure Alone (s : State B L V) (b : B) (l : L) (t : State B L V) : Prop where
  others : ∀ c ≠ b, t.proc c = s.proc c
  place : (t.proc b).Acquiring l ∧ (∀ c ≠ b, t.sem c = s.sem c) ∨ (t.proc b).Releasing l ∨
    (t.proc b).pc = .idle

variable [DecidableEq B] [DecidableEq L] [DecidableEq V] {p' : Proc B L V} {e : Effect B V}

theorem Alone.after (h : Alone s b l t) (hn : t.next b = some (p', e)) :
    Alone s b l (t.after b p' e) where
  others c hc := by rw [after_proc_ne t hc, h.others c hc]
  place := by
    rw [after_proc_self]
    rcases h.place with ⟨hacq, hsem⟩ | hrel | hidle
    · rcases next_acquiring hn hacq with hacq' | hrest
      · exact Or.inl ⟨hacq', fun c hc => (next_sem hn hacq.pc hc).trans (hsem c hc)⟩
      · exact Or.inr (Or.inr hrest.pc)
    · rcases next_in_release hn hrel with hrel' | hrest
      · exact Or.inr (Or.inl hrel')
      · exact Or.inr (Or.inr hrest.pc)
    · simp [State.next, next, hidle] at hn

variable [Fintype B]

end Alone

end BullFrog.Lmgr
