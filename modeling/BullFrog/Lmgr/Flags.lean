/-
# `BullFrog.Lmgr.Flags` — what the flags of the word may be trusted for

`LWLockRelease` wakes somebody only if the word says that somebody waits
(`LW_FLAG_HAS_WAITERS`) and that nobody woken before is still on its way
(`LW_FLAG_RELEASE_OK`).  The flags are changed one at a time, apart from the queue they speak
about, so what they mean is an invariant (`Flags`):

  * a queue that is not empty has `HAS_WAITERS` set;
  * where `RELEASE_OK` is clear, some backend that tries for the lock has been taken out of
    the queue and has not yet come back to set the flag.

In between, a backend in the critical section of a queue knows more than the flags say
(`Pc.Knows`), and what it knows stays true because nobody else is in there (`SpinHeld`).
-/
import BullFrog.Lmgr.Ledger

namespace BullFrog.Lmgr

variable {B L V : Type}

/-! ## At most one backend in a queue's critical section -/

section Spin

/-- Backend `b` holds the spinlock of the queue of `l`. -/
def State.inside [DecidableEq L] (s : State B L V) (b : B) (l : L) : Nat :=
  if (s.proc b).lock = l ∧ (s.proc b).pc.critical = true then 1 else 0

/-- `LW_FLAG_LOCKED` counts the backends in the critical section. -/
def SpinHeld [Fintype B] [DecidableEq L] (s : State B L V) : Prop :=
  ∀ l, ∑ b, s.inside b l = (has .locked (s.lock l).state).toNat

variable [DecidableEq L] {s : State B L V} {b c : B} {l : L}

theorem inside_of_critical (hb : (s.proc b).pc.critical = true) :
    s.inside b (s.proc b).lock = 1 :=
  if_pos ⟨rfl, hb⟩

theorem SpinHeld.locked [Fintype B] (h : SpinHeld s) (hb : (s.proc b).pc.critical = true) :
    has .locked (s.lock (s.proc b).lock).state = true := by
  have hle := Tally.le_sum (g := fun d => s.inside d (s.proc b).lock) b
  have hsum := h (s.proc b).lock
  rw [inside_of_critical hb] at hle
  have hone := Bool.toNat_le (has .locked (s.lock (s.proc b).lock).state)
  exact Bool.toNat_eq_one.mp (by omega)

theorem SpinHeld.unique [Fintype B] (h : SpinHeld s) (hb : (s.proc b).pc.critical = true)
    (hc : (s.proc c).pc.critical = true) (hl : (s.proc c).lock = (s.proc b).lock) : c = b := by
  by_contra hne
  have hle := Tally.add_le_sum (g := fun d => s.inside d (s.proc b).lock) hne
  have hsum := h (s.proc b).lock
  have hone := Bool.toNat_le (has .locked (s.lock (s.proc b).lock).state)
  have hinc := inside_of_critical hc
  rw [hl] at hinc
  rw [inside_of_critical hb, hinc] at hle
  omega

/-- The spinlock is free if nobody is in the critical section. -/
theorem SpinHeld.unlocked [Fintype B] (h : SpinHeld s)
    (hout : ∀ c, (s.proc c).lock = l → (s.proc c).pc.critical = false) :
    has .locked (s.lock l).state = false := by
  have hsum : ∑ c, s.inside c l = 0 := by
    refine Finset.sum_eq_zero fun c _ => if_neg ?_
    rintro ⟨hlock, hcrit⟩
    rw [hout c hlock] at hcrit
    cases hcrit
  rw [h l] at hsum
  exact Bool.toNat_eq_zero.mp hsum

/-- What is subtracted from a word is in it. -/
theorem Counted.covers [Fintype B] (h : Counted s) (m : LWLockMode)
    (hpc : (s.proc b).pc = .subtract m) :
    (modeVal m).toNat ≤ lockField (s.lock (s.proc b).lock).state := by
  have hmem : ((s.proc b).lock, m) ∈ (s.proc b).owned := by simp [Proc.owned, hpc, Pc.pending]
  have hshare := le_share hmem
  have hsum := Tally.le_sum (g := fun c => (s.proc c).share (s.proc b).lock) b
  have hfield := h.field (s.proc b).lock
  omega

theorem SpinHeld.of_initial [Fintype B] (h : s.Initial) : SpinHeld s := by
  intro l
  simp [State.inside, h.idle, Pc.critical, h.state l]
  decide

end Spin

/-! ## What the steps do to the flags -/

/-- The call takes its lock in the end, and comes back to set `RELEASE_OK`. -/
def Call.retries : Call V → Bool
  | .acquire _ => true
  | .acquireOrWait _ | .waitForVar _ => false

/-- The attempt is the one `LWLockAcquire` makes in the queue. -/
def Try.retries : Try → Bool
  | .acquire _ again => again
  | .conditional _ | .acquireOrWait _ _ => false

def Task.retries : Task V → Bool
  | .dequeueSelf c => c.retries
  | .queueSelf _ | .readVar _ _ | .wakeup | .updateVar _ | .clearVar _ => false

/-- In the queue of `LWLockAcquire`, outside the critical section, and not yet past
`LWLockDequeueSelf`: a backend taken out of the queue here has everything before it. -/
def Pc.willRetry : Pc B V → Bool
  | .queued c => c.retries
  | .attempt t | .swap t _ | .gotLock t | .mustWait t => t.retries
  | .listLock t | .listSpin t => t.retries
  | .semLock c dq | .semCheck c dq => c.retries && !dq
  | _ => false

/-- Between the entry into the queue and the instruction that sets `RELEASE_OK`, unless the
backend has taken itself out. -/
def Pc.owes : Pc B V → Bool
  | .queueUnlock c | .queued c | .dequeue c | .dequeueOk c | .awakened c => c.retries
  | .attempt t | .swap t _ | .gotLock t | .mustWait t => t.retries
  | .listLock t | .listSpin t => t.retries
  | .semLock c dq | .semCheck c dq => c.retries && !dq
  | .dequeueFlag c found | .dequeueUnlock c found => c.retries && !found
  | .retry _ => true
  | _ => false

/-- `LWLockDequeueSelf` has looked through the queue. -/
def Pc.past : Pc B V → Bool
  | .dequeueFlag _ _ | .dequeueUnlock _ _ | .dequeueClear _ | .dequeueOk _ => true
  | .semLock _ dq | .semCheck _ dq => dq
  | _ => false

/-- The waiters of a backend that is about to clear `RELEASE_OK`. -/
def Pc.waking : Pc B V → Option (List B)
  | .wakeRead ws ok | .wakeSwap ws ok _ => if ok then none else some ws
  | _ => none

/-- What a backend in the critical section knows about the lock. -/
def Pc.Knows (cell : Cell B V) : Pc B V → Prop
  | .queuePush _ => has .hasWaiters cell.state = true
  | .dequeueFlag _ _ => cell.waiters = []
  | .wakeRead ws ok | .wakeSwap ws ok _ => ws = [] ∨ ok = true → cell.waiters = []
  | _ => True

theorem Pc.Knows.of_not_critical {pc : Pc B V} (h : pc.critical = false) (cell : Cell B V) :
    pc.Knows cell := by
  cases pc <;> first | exact trivial | simp [Pc.critical] at h

theorem Pc.Knows.congr {pc : Pc B V} {cell cell' : Cell B V} (h : pc.Knows cell)
    (hws : cell'.waiters = cell.waiters)
    (hflag : has .hasWaiters cell'.state = has .hasWaiters cell.state) : pc.Knows cell' := by
  cases pc <;> simp_all [Pc.Knows]

theorem Pc.owes_of_willRetry {pc : Pc B V} (h : pc.willRetry = true) : pc.owes = true := by
  cases pc <;> first | exact h | simp [Pc.willRetry] at h

theorem Pc.waking_spec {pc : Pc B V} {ws : List B} (h : pc.waking = some ws) :
    pc.critical = true ∧ pc.clears = ws ∧ pc.willRetry = false := by
  cases pc <;> simp_all [Pc.waking, Pc.critical, Pc.clears, Pc.willRetry]

theorem Try.retries_of_waiting {t : Try} {m : LWLockMode}
    (h : (t.waiting : Option (Call V)) = some (.acquire m)) : t.retries = true := by
  cases t <;> simp_all [Try.waiting, Try.retries]

theorem Task.retries_of_waiting {t : Task V} {m : LWLockMode} (h : t.waiting = some (.acquire m)) :
    t.retries = true := by
  cases t <;> simp_all [Task.waiting, Task.retries, Call.retries]

/-- A queued `LWLockAcquire` that is not in the critical section and has not looked for
itself in the queue will come back. -/
theorem Pc.willRetry_of_waiting {pc : Pc B V} {m : LWLockMode}
    (h : pc.waiting = some (.acquire m)) (hc : pc.critical = false) (hp : pc.past = false) :
    pc.willRetry = true := by
  cases pc
  case attempt t | swap t _ | gotLock t | mustWait t => exact Try.retries_of_waiting h
  case listLock t | listSpin t => exact Task.retries_of_waiting h
  all_goals simp_all [Pc.waiting, Pc.critical, Pc.past, Pc.willRetry, Call.retries]

theorem releaseOk_wakeState (ws : List B) (ok : Bool) (w : UInt32) :
    has .releaseOk (wakeState ws ok w) = ok := by
  rw [wakeState]
  cases ok <;> cases ws <;> simp

theorem hasWaiters_wakeState (ws : List B) (ok : Bool) (w : UInt32) :
    has .hasWaiters (wakeState ws ok w) = (has .hasWaiters w && !ws.isEmpty) := by
  rw [wakeState]
  cases ok <;> cases ws <;> simp

section Collect

variable (mode : B → LWLockMode)

/-- Starting with nobody woken, `LWLockWakeup` takes out nobody only of an empty queue. -/
theorem collect_nil {ws : List B} (h : (collect mode false ws).2.1 = []) :
    (collect mode false ws).1 = [] := by
  induction ws with
  | nil => rfl
  | cons w ws ih =>
      simp only [collect, Bool.false_and, Bool.false_eq_true, if_false] at h ⊢
      split at h
      · cases h
      · split at h <;> cases h

/-- It leaves `RELEASE_OK` set only if it leaves nobody behind, and if it clears the flag it
has taken out somebody who tries for the lock. -/
theorem collect_ok (ws : List B) :
    ((collect mode false ws).2.2 = true → (collect mode false ws).1 = []) ∧
      ((collect mode false ws).2.2 = false →
        ∃ w ∈ (collect mode false ws).2.1, mode w ≠ .waitUntilFree) := by
  induction ws with
  | nil => simp [collect]
  | cons w ws ih =>
      simp only [collect, Bool.false_and, Bool.false_eq_true, if_false]
      split
      · rename_i hex
        simp [hex]
      · split
        · refine ⟨ih.1, fun hok => ?_⟩
          obtain ⟨v, hv, hmode⟩ := ih.2 hok
          exact ⟨v, List.mem_cons_of_mem _ hv, hmode⟩
        · rename_i hfree
          simp [hfree]

end Collect

section Next

variable [DecidableEq B] [DecidableEq L] [DecidableEq V]
  {b : B} {p p' : Proc B L V} {cell : Cell B V} {wt : Bool} {mode : B → LWLockMode} {sem : Nat}
  {e : Effect B V}

/-- Outside the critical section nothing happens to the queue. -/
theorem next_outside (h : next b p cell wt mode sem = some (p', e)) (hc : p.pc.critical = false)
    (hsub : ∀ m, p.pc = .subtract m → (modeVal m).toNat ≤ lockField cell.state) :
    (e.onCell b cell).waiters = cell.waiters ∧ (e.onCell b cell).var = cell.var ∧
      has .hasWaiters (e.onCell b cell).state = has .hasWaiters cell.state := by
  cases hpc : p.pc
  case swap t old =>
    simp only [next, hpc] at h
    split at h
    · cases h; exact ⟨rfl, rfl, rfl⟩
    · rename_i hold
      obtain rfl : cell.state = old := not_not.mp hold
      split at h
      · rename_i hfree
        cases h
        exact ⟨rfl, rfl, has_take hfree _⟩
      · cases h
        exact ⟨rfl, rfl, rfl⟩
  case subtract m =>
    simp only [next, hpc] at h
    split at h <;> cases h <;> exact ⟨rfl, rfl, has_sub (hsub m hpc) _⟩
  all_goals try (simp [hpc, Pc.critical] at hc; done)
  all_goals
    simp only [next, hpc] at h
    repeat' split at h
  all_goals cases h
  all_goals simp

theorem next_willRetry (h : next b p cell wt mode sem = some (p', e))
    (hr : p.pc.willRetry = true) (hwt : wt = true) (hl : has .locked cell.state = true) :
    p'.pc.willRetry = true ∧ p'.lock = p.lock := by
  cases hpc : p.pc
  all_goals simp only [hpc, Pc.willRetry, Bool.false_eq_true] at hr
  all_goals
    simp only [next, hpc] at h
    repeat' split at h
  all_goals cases h
  all_goals simp_all [Pc.willRetry, Call.retries, Try.retries, Task.retries]

theorem next_owes (h : next b p cell wt mode sem = some (p', e)) (ho : p.pc.owes = true) :
    p'.pc.owes = true ∧ p'.lock = p.lock ∨ has .releaseOk (e.onCell b cell).state = true ∨
      b ∈ cell.waiters := by
  cases hpc : p.pc
  all_goals simp only [hpc, Pc.owes, Bool.false_eq_true] at ho
  case dequeue c =>
    simp only [next, hpc] at h
    by_cases hmem : b ∈ cell.waiters
    · exact Or.inr (Or.inr hmem)
    · split at h <;> cases h <;> simp [Pc.owes, hmem, ho]
  case' listLock t => cases t
  all_goals
    simp only [next, hpc, Task.enter] at h
    repeat' split at h
  all_goals cases h
  all_goals simp_all [Pc.owes, Call.retries, Try.retries, Task.retries]

/-- `RELEASE_OK` is cleared by the last instruction of `LWLockWakeup` only. -/
theorem next_releaseOk (h : next b p cell wt mode sem = some (p', e))
    (hsub : ∀ m, p.pc = .subtract m → (modeVal m).toNat ≤ lockField cell.state)
    (hok : has .releaseOk (e.onCell b cell).state = false) :
    has .releaseOk cell.state = false ∨
      ∃ ws, p.pc = .wakeSwap ws false cell.state ∧ p'.pc = .wakeNext ws := by
  cases hpc : p.pc
  case swap t old =>
    left
    simp only [next, hpc] at h
    split at h
    · cases h; exact hok
    · rename_i hold
      obtain rfl : cell.state = old := not_not.mp hold
      split at h
      · rename_i hfree
        cases h
        exact (has_take hfree _).symm.trans hok
      · cases h
        exact hok
  case subtract m =>
    left
    simp only [next, hpc] at h
    split at h <;> cases h <;> exact (has_sub (hsub m hpc) _).symm.trans hok
  case wakeSwap ws ok old =>
    simp only [next, hpc] at h
    split at h
    · cases h
      exact Or.inl hok
    · rename_i hold
      obtain rfl : cell.state = old := not_not.mp hold
      cases h
      cases ok with
      | false => exact Or.inr ⟨ws, rfl, rfl⟩
      | true =>
          rw [Effect.onCell, releaseOk_wakeState] at hok
          cases hok
  all_goals left
  all_goals
    simp only [next, hpc] at h
    repeat' split at h
  all_goals cases h
  all_goals simp_all

/-- What a backend in the critical section finds out is true, and its own steps keep it and
the meaning of `HAS_WAITERS`. -/
theorem next_knows (h : next b p cell wt mode sem = some (p', e))
    (hsub : ∀ m, p.pc = .subtract m → (modeVal m).toNat ≤ lockField cell.state)
    (hk : p.pc.Knows cell) (hw : cell.waiters ≠ [] → has .hasWaiters cell.state = true) :
    p'.pc.Knows (e.onCell b cell) ∧
      ((e.onCell b cell).waiters ≠ [] → has .hasWaiters (e.onCell b cell).state = true) := by
  by_cases hc : p.pc.critical = true
  · -- the instructions of the critical sections
    cases hpc : p.pc
    all_goals try (simp [hpc, Pc.critical] at hc; done)
    all_goals rw [hpc] at hk
    case queuePush c =>
      simp only [next, hpc] at h
      cases h
      exact ⟨trivial, fun _ => hk⟩
    case dequeue c =>
      simp only [next, hpc] at h
      have herase : cell.waiters.erase b ≠ [] → has .hasWaiters cell.state = true := by
        intro hne
        exact hw fun hnil => hne (by rw [hnil]; rfl)
      split at h
      · rename_i hempty
        cases h
        exact ⟨List.isEmpty_iff.mp (Bool.and_eq_true_iff.mp hempty).1, herase⟩
      · cases h
        exact ⟨trivial, herase⟩
    case dequeueFlag c found =>
      simp only [next, hpc] at h
      cases h
      exact ⟨trivial, fun hne => absurd hk hne⟩
    case wakeCollect =>
      simp only [next, hpc] at h
      cases h
      refine ⟨fun hor => ?_, fun hne => hw fun hnil => hne ?_⟩
      · rcases hor with hnil | hok
        · exact collect_nil mode hnil
        · exact (collect_ok mode cell.waiters).1 hok
      · simp [hnil, collect]
    case wakeSwap ws ok old =>
      simp only [next, hpc] at h
      split at h
      · cases h
        exact ⟨hk, hw⟩
      · rename_i hold
        obtain rfl : cell.state = old := not_not.mp hold
        cases h
        refine ⟨trivial, fun hne => ?_⟩
        have hws : ws ≠ [] := fun hnil => hne (hk (Or.inl hnil))
        rw [Effect.onCell, hasWaiters_wakeState, hw hne]
        simpa using hws
    case updateVar val =>
      simp only [next, hpc] at h
      cases h
      refine ⟨trivial, fun hne => hw fun hnil => hne ?_⟩
      simp [hnil]
    all_goals
      simp only [next, hpc] at h
      repeat' split at h
    all_goals cases h
    all_goals simp_all [Pc.Knows]
  · have hout := next_outside h (by simpa using hc) hsub
    refine ⟨?_, fun hne => ?_⟩
    · -- a backend that has just come in knows nothing yet
      cases hpc : p.pc
      case' listLock t => cases t
      all_goals try (simp [hpc, Pc.critical] at hc; done)
      all_goals
        simp only [next, hpc, Task.enter] at h
        repeat' split at h
      all_goals cases h
      all_goals exact trivial
    · rw [hout.2.2]
      exact hw (hout.1 ▸ hne)

theorem next_past (h : next b p cell wt mode sem = some (p', e)) (hp : p'.pc.past = true) :
    p'.lock = p.lock ∧ (p.pc.past = true ∨ e = .queue (cell.waiters.erase b)) := by
  cases hpc : p.pc
  case' listLock t => cases t
  all_goals
    simp only [next, hpc, Task.enter] at h
    repeat' split at h
  all_goals cases h
  all_goals simp_all [Pc.past]

theorem next_waking {ws : List B} (h : next b p cell wt mode sem = some (p', e))
    (hw : p'.pc.waking = some ws) :
    p'.lock = p.lock ∧ (p.pc.waking = some ws ∨ p.pc = .wakeCollect ∧
      (collect mode false cell.waiters).2.1 = ws ∧
      (collect mode false cell.waiters).2.2 = false) := by
  cases hpc : p.pc
  case' listLock t => cases t
  all_goals
    simp only [next, hpc, Task.enter] at h
    repeat' split at h
  all_goals cases h
  all_goals simp_all [Pc.waking]

theorem next_push {m : LWLockMode} (h : next b p cell wt mode sem = some (p', .push m)) :
    ∃ c, p.pc = .queuePush c := by
  cases hpc : p.pc
  case queuePush c => exact ⟨c, rfl⟩
  all_goals
    simp only [next, hpc] at h
    repeat' split at h
  all_goals cases h

end Next

/-! ## The invariant -/

/-- What the flags mean, and what carries it from step to step. -/
structure Flags (s : State B L V) : Prop where
  hasWaiters : ∀ l, (s.lock l).waiters ≠ [] → has .hasWaiters (s.lock l).state = true
  charged : ∀ l, has .releaseOk (s.lock l).state = false →
    ∃ c, (s.proc c).lock = l ∧ (s.proc c).pc.owes = true ∧ c ∉ (s.lock l).waiters
  knows : ∀ b, (s.proc b).pc.Knows (s.lock (s.proc b).lock)
  past : ∀ b, (s.proc b).pc.past = true → b ∉ (s.lock (s.proc b).lock).waiters
  waking : ∀ b ws, (s.proc b).pc.waking = some ws →
    ∃ w ∈ ws, (s.proc w).lock = (s.proc b).lock ∧ (s.proc w).pc.willRetry = true

theorem Flags.of_initial (h : s.Initial) : Flags s where
  hasWaiters l hne := absurd (h.waiters l) hne
  charged l hok := by
    rw [h.state l] at hok
    exact absurd hok (by decide)
  knows b := by rw [h.idle b]; trivial
  past b hp := by rw [h.idle b] at hp; cases hp
  waking b ws hw := by rw [h.idle b] at hw; cases hw

theorem SpinChange.lock_eq {p p' : Proc B L V} {w w' : UInt32} (h : SpinChange p p' w w')
    (hc : p'.pc.critical = true) : p'.lock = p.lock := by
  cases h with
  | enter _ _ hl => exact hl
  | leave _ hout => rw [hout] at hc; cases hc
  | keep hcrit hl => exact hl (hcrit ▸ hc)

/-- At the start of a function, nothing has been done yet. -/
theorem start_blank {p p' : Proc B L V} {a : Act L V} (hpc : p.pc = .idle)
    (hs : p.start a = some p') :
    p'.pc.critical = false ∧ p'.pc.past = false ∧ p'.pc.waking = none := by
  cases a with
  | acquire | conditionalAcquire | acquireOrWait =>
      cases hs
      simp only [Proc.take]
      split <;> simp [hpc, Pc.critical, Pc.past, Pc.waking]
  | waitForVar | updateVar | release | releaseClearVar | releaseAll =>
      cases hs
      simp [Pc.critical, Pc.past, Pc.waking]
  | next | signal | wait => cases hs

/-- Whoever clears `RELEASE_OK` has taken out of the queue a backend that will retry. -/
theorem Flags.exists_willRetry [Fintype B] [DecidableEq B] [DecidableEq L] {s : State B L V}
    {b : B} {ws : List B} (h : Flags s) (hQ : Queues s) (hS : SpinHeld s)
    (hpc : (s.proc b).pc = .wakeCollect)
    (hws : (collect s.lwWaitMode false (s.lock (s.proc b).lock).waiters).2.1 = ws)
    (hok : (collect s.lwWaitMode false (s.lock (s.proc b).lock).waiters).2.2 = false) :
    ∃ w ∈ ws, w ≠ b ∧ (s.proc w).lock = (s.proc b).lock ∧ (s.proc w).pc.willRetry = true := by
  obtain ⟨w, hmem, hmode⟩ := (collect_ok _ _).2 hok
  have hin : w ∈ (s.lock (s.proc b).lock).waiters :=
    (collect_perm _ false _).subset (List.mem_append_right _ hmem)
  obtain ⟨hlock, hsome⟩ := hQ.listed _ w hin
  obtain ⟨call, hcall⟩ := Option.isSome_iff_exists.mp hsome
  have hne : w ≠ b := by
    rintro rfl
    change (s.proc w).pc.waiting = some call at hcall
    rw [hpc] at hcall
    cases hcall
  have hcrit : (s.proc w).pc.critical = false := by
    by_contra hcrit
    exact hne (hS.unique (by rw [hpc]; rfl) (by simpa using hcrit) hlock)
  have hpast : (s.proc w).pc.past = false := by
    by_contra hpast
    exact h.past w (by simpa using hpast) (hlock ▸ hin)
  refine ⟨w, hws ▸ hmem, hne, hlock, ?_⟩
  rw [hQ.mode w call hcall] at hmode
  cases call with
  | acquire m => exact Pc.willRetry_of_waiting hcall hcrit hpast
  | acquireOrWait | waitForVar => exact absurd rfl hmode

section Moves

variable [DecidableEq B] [DecidableEq L] [DecidableEq V] {s s' : State B L V} {b : B}
  {a : Act L V} {p' : Proc B L V} {e : Effect B V}

theorem move_spin [Fintype B] (h : Counted s) (hm : Move s b a p' e) :
    SpinChange (s.proc b) p' (s.lock (s.proc b).lock).state
      (e.onCell b (s.lock (s.proc b).lock)).state := by
  cases hm with
  | next hn => exact next_spin hn (h.covers)
  | signal | wait => exact .keep rfl (fun _ => rfl) rfl
  | start hpc hs =>
      refine .keep ?_ (by simp [hpc, Pc.critical]) rfl
      cases a with
      | acquire | conditionalAcquire | acquireOrWait =>
          cases hs
          simp only [Proc.take]
          split <;> simp [hpc, Pc.critical]
      | waitForVar | updateVar | release | releaseClearVar | releaseAll =>
          cases hs
          simp [hpc, Pc.critical]
      | next | signal | wait => cases hs

theorem SpinHeld.of_move [Fintype B] (h : SpinHeld s) (hC : Counted s) (hm : Move s b a p' e) :
    SpinHeld (s.after b p' e) := by
  intro l
  have hsum := Tally.sum_change (g := fun c => s.inside c l) b
    (fun c hc => show (s.after b p' e).inside c l = s.inside c l by
      rw [State.inside, after_proc_ne s hc, State.inside])
  have hnew : (s.after b p' e).inside b l =
      if p'.lock = l ∧ p'.pc.critical = true then 1 else 0 := by
    rw [State.inside, after_proc_self]
  have hold := h l
  have hch := move_spin hC hm
  by_cases hl : l = (s.proc b).lock
  · subst hl
    rw [after_lock_self]
    cases hch with
    | enter hp hp' hlock hw hw' =>
        have hzero : s.inside b (s.proc b).lock = 0 := if_neg (by simp [hp])
        rw [if_pos ⟨hlock, hp'⟩] at hnew
        rw [hw, Bool.toNat_false] at hold
        rw [hw', Bool.toNat_true]
        omega
    | leave hp hp' hw' =>
        rw [if_neg (by simp [hp'])] at hnew
        rw [h.locked hp, Bool.toNat_true] at hold
        rw [inside_of_critical hp] at hsum
        rw [hw', Bool.toNat_false]
        omega
    | keep hcrit hlock hw =>
        have hsame : (s.after b p' e).inside b (s.proc b).lock = s.inside b (s.proc b).lock := by
          rw [hnew, State.inside, hcrit]
          by_cases hp : (s.proc b).pc.critical = true
          · simp [hlock hp]
          · simp [hp]
        rw [hw]
        omega
  · have hzero : s.inside b l = 0 := if_neg (fun hb => hl hb.1.symm)
    have hzero' : (s.after b p' e).inside b l = 0 := by
      rw [hnew, if_neg]
      rintro ⟨hlock', hp'⟩
      exact hl (hlock'.symm.trans (hch.lock_eq hp'))
    rw [after_lock_ne s hl]
    omega

theorem move_willRetry (hm : Move s b a p' e) (hr : (s.proc b).pc.willRetry = true)
    (hwt : s.lwWaiting b = true) (hl : has .locked (s.lock (s.proc b).lock).state = true) :
    p'.pc.willRetry = true ∧ p'.lock = (s.proc b).lock := by
  cases hm with
  | next hn => exact next_willRetry hn hr hwt hl
  | signal | wait => exact ⟨hr, rfl⟩
  | start hpc => rw [hpc] at hr; cases hr

variable [Fintype B]

theorem move_outside (hC : Counted s) (hm : Move s b a p' e)
    (hc : (s.proc b).pc.critical = false) :
    (e.onCell b (s.lock (s.proc b).lock)).waiters = (s.lock (s.proc b).lock).waiters ∧
      (e.onCell b (s.lock (s.proc b).lock)).var = (s.lock (s.proc b).lock).var ∧
      has .hasWaiters (e.onCell b (s.lock (s.proc b).lock)).state =
        has .hasWaiters (s.lock (s.proc b).lock).state := by
  cases hm with
  | next hn => exact next_outside hn hc hC.covers
  | signal | wait | start => exact ⟨rfl, rfl, rfl⟩

theorem Flags.hasWaiters_after (h : Flags s) (hC : Counted s) (hm : Move s b a p' e) (l : L) :
    ((s.after b p' e).lock l).waiters ≠ [] →
      has .hasWaiters ((s.after b p' e).lock l).state = true := by
  by_cases hl : l = (s.proc b).lock
  · subst hl
    rw [after_lock_self]
    cases hm with
    | next hn => exact (next_knows hn hC.covers (h.knows b) (h.hasWaiters _)).2
    | signal | wait | start => exact h.hasWaiters _
  · rw [after_lock_ne s hl]
    exact h.hasWaiters l

theorem Flags.knows_after (h : Flags s) (hC : Counted s) (hS : SpinHeld s) (hm : Move s b a p' e)
    (c : B) : ((s.after b p' e).proc c).pc.Knows
      ((s.after b p' e).lock ((s.after b p' e).proc c).lock) := by
  by_cases hc : c = b
  · subst hc
    rw [after_proc_self]
    cases hm with
    | next hn =>
        by_cases hcrit : p'.pc.critical = true
        · rw [(move_spin hC (.next hn)).lock_eq hcrit, after_lock_self]
          exact (next_knows hn hC.covers (h.knows c) (h.hasWaiters _)).1
        · exact .of_not_critical (by simpa using hcrit) _
    | signal | wait =>
        rw [after_lock_self]
        exact h.knows c
    | start hpc hs => exact .of_not_critical (start_blank hpc hs).1 _
  · rw [after_proc_ne s hc]
    by_cases hcrit : (s.proc c).pc.critical = true
    · by_cases hl : (s.proc c).lock = (s.proc b).lock
      · -- nobody else is in the critical section
        have hb : (s.proc b).pc.critical = false := by
          by_contra hb
          exact hc (hS.unique (by simpa using hb) hcrit hl)
        have hout := move_outside hC hm hb
        rw [hl, after_lock_self]
        exact (hl ▸ h.knows c).congr hout.1 hout.2.2
      · rw [after_lock_ne s hl]
        exact h.knows c
    · exact .of_not_critical (by simpa using hcrit) _

/-- A backend enters a queue by its own push only. -/
theorem Queues.mem_after {c : B} {l : L} (hQ : Queues s) (hm : Move s b a p' e)
    (hmem : c ∈ ((s.after b p' e).lock l).waiters) :
    c ∈ (s.lock l).waiters ∨ c = b ∧ ∃ call, (s.proc b).pc = .queuePush call := by
  rw [after_waiters] at hmem
  split at hmem
  · rename_i hl
    subst hl
    cases hm with
    | next hn =>
        rcases (next_spot hn (hQ.tidy b)).mem_waiters hmem with hold | ⟨hc, call, _, rfl⟩
        · exact Or.inl hold
        · exact Or.inr ⟨hc, next_push hn⟩
    | signal | wait | start => exact Or.inl hmem
  · exact Or.inl hmem

theorem Flags.past_after (h : Flags s) (hQ : Queues s) (hm : Move s b a p' e) (c : B)
    (hp : ((s.after b p' e).proc c).pc.past = true) :
    c ∉ ((s.after b p' e).lock ((s.after b p' e).proc c).lock).waiters := by
  by_cases hc : c = b
  · subst hc
    rw [after_proc_self] at hp ⊢
    cases hm with
    | next hn =>
        obtain ⟨hlock, hor⟩ := next_past hn hp
        rw [hlock]
        rcases hor with hpast | rfl
        · intro hmem
          rcases hQ.mem_after (.next hn) hmem with hold | ⟨_, call, hpc⟩
          · exact h.past c hpast hold
          · rw [hpc] at hpast
            cases hpast
        · -- it has just looked through the queue, where it was once at most
          rw [after_lock_self]
          intro hmem
          have hpos := List.count_pos_iff.mpr hmem
          have hone := (hQ.of_mem (List.mem_of_mem_erase hmem)).2.1
          rw [Effect.onCell, List.count_erase_self, hone] at hpos
          exact absurd hpos (by decide)
    | signal | wait =>
        rw [after_lock_self]
        exact h.past c hp
    | start hpc hs =>
        rw [(start_blank hpc hs).2.1] at hp
        cases hp
  · rw [after_proc_ne s hc] at hp ⊢
    intro hmem
    rcases hQ.mem_after hm hmem with hold | ⟨hcb, _⟩
    · exact h.past c hp hold
    · exact hc hcb

theorem Flags.waking_after (h : Flags s) (hQ : Queues s) (hS : SpinHeld s)
    (hm : Move s b a p' e) (c : B) (ws : List B)
    (hw : ((s.after b p' e).proc c).pc.waking = some ws) :
    ∃ w ∈ ws, ((s.after b p' e).proc w).lock = ((s.after b p' e).proc c).lock ∧
      ((s.after b p' e).proc w).pc.willRetry = true := by
  by_cases hc : c = b
  · subst hc
    rw [after_proc_self] at hw ⊢
    have hfrom : p'.lock = (s.proc c).lock ∧ ∃ w ∈ ws, w ≠ c ∧
        (s.proc w).lock = (s.proc c).lock ∧ (s.proc w).pc.willRetry = true := by
      have hold : (s.proc c).pc.waking = some ws → ∃ w ∈ ws, w ≠ c ∧
          (s.proc w).lock = (s.proc c).lock ∧ (s.proc w).pc.willRetry = true := by
        intro hold
        obtain ⟨w, hmem, hlock, hr⟩ := h.waking c ws hold
        refine ⟨w, hmem, ?_, hlock, hr⟩
        rintro rfl
        rw [(Pc.waking_spec hold).2.2] at hr
        cases hr
      cases hm with
      | next hn =>
          obtain ⟨hlock, hor⟩ := next_waking hn hw
          refine ⟨hlock, ?_⟩
          rcases hor with hwas | ⟨hpc, hws, hok⟩
          · exact hold hwas
          · exact h.exists_willRetry hQ hS hpc hws hok
      | signal | wait => exact ⟨rfl, hold hw⟩
      | start hpc hs =>
          rw [(start_blank hpc hs).2.2] at hw
          cases hw
    obtain ⟨hlock, w, hmem, hne, hlock', hr⟩ := hfrom
    refine ⟨w, hmem, ?_⟩
    rw [after_proc_ne s hne, hlock]
    exact ⟨hlock', hr⟩
  · rw [after_proc_ne s hc] at hw ⊢
    obtain ⟨w, hmem, hlock, hr⟩ := h.waking c ws hw
    refine ⟨w, hmem, ?_⟩
    by_cases hwb : w = b
    · -- the backend taken out moves: it still waits, and the spinlock is taken
      subst hwb
      obtain ⟨hcrit, hclears, _⟩ := Pc.waking_spec hw
      have hwt := (hQ.of_clears (hclears ▸ hmem)).1
      have hlocked := hS.locked hcrit
      rw [← hlock] at hlocked
      obtain ⟨hr', hlock'⟩ := move_willRetry hm hr hwt hlocked
      rw [after_proc_self]
      exact ⟨hlock'.trans hlock, hr'⟩
    · rw [after_proc_ne s hwb]
      exact ⟨hlock, hr⟩

theorem move_releaseOk (hC : Counted s) (hm : Move s b a p' e)
    (hok : has .releaseOk (e.onCell b (s.lock (s.proc b).lock)).state = false) :
    has .releaseOk (s.lock (s.proc b).lock).state = false ∨
      ∃ ws, (s.proc b).pc.waking = some ws := by
  cases hm with
  | next hn =>
      rcases next_releaseOk hn hC.covers hok with hold | ⟨ws, hpc, _⟩
      · exact Or.inl hold
      · exact Or.inr ⟨ws, by rw [hpc]; rfl⟩
  | signal | wait | start => exact Or.inl hok

theorem Flags.charged_after (h : Flags s) (hC : Counted s) (hQ : Queues s)
    (hm : Move s b a p' e) (l : L) (hok : has .releaseOk ((s.after b p' e).lock l).state = false) :
    ∃ c, ((s.after b p' e).proc c).lock = l ∧ ((s.after b p' e).proc c).pc.owes = true ∧
      c ∉ ((s.after b p' e).lock l).waiters := by
  -- a backend other than `b` that is charged before stays so
  have hkeep : ∀ c ≠ b, (s.proc c).lock = l → (s.proc c).pc.owes = true →
      c ∉ (s.lock l).waiters → ∃ c, ((s.after b p' e).proc c).lock = l ∧
        ((s.after b p' e).proc c).pc.owes = true ∧ c ∉ ((s.after b p' e).lock l).waiters := by
    intro c hc hlock howes hout
    refine ⟨c, ?_⟩
    rw [after_proc_ne s hc]
    refine ⟨hlock, howes, fun hmem => ?_⟩
    rcases hQ.mem_after hm hmem with hold | ⟨hcb, _⟩
    · exact hout hold
    · exact hc hcb
  by_cases hl : l = (s.proc b).lock
  · subst hl
    rw [after_lock_self] at hok
    rcases move_releaseOk hC hm hok with hold | ⟨ws, hwaking⟩
    · obtain ⟨c, hlock, howes, hout⟩ := h.charged _ hold
      by_cases hc : c = b
      · subst hc
        cases hm with
        | next hn =>
            rcases next_owes hn howes with ⟨howes', hlock'⟩ | hok' | hmem
            · refine ⟨c, ?_⟩
              rw [after_proc_self]
              refine ⟨hlock', howes', fun hmem => ?_⟩
              rcases hQ.mem_after (.next hn) hmem with hold | ⟨_, call, hpc⟩
              · exact hout hold
              · rw [hpc] at howes
                cases howes
            · rw [hok'] at hok
              cases hok
            · exact absurd hmem hout
        | signal | wait =>
            refine ⟨c, ?_⟩
            rw [after_proc_self, after_lock_self]
            exact ⟨rfl, howes, hout⟩
        | start hpc => rw [hpc] at howes; cases howes
      · exact hkeep c hc hlock howes hout
    · -- the flag is cleared for a backend that has been taken out
      obtain ⟨w, hmem, hlock, hr⟩ := h.waking b ws hwaking
      obtain ⟨_, hclears, hb⟩ := Pc.waking_spec hwaking
      have hne : w ≠ b := by
        rintro rfl
        rw [hb] at hr
        cases hr
      have hout := (hQ.of_clears (hclears ▸ hmem)).2
      exact hkeep w hne hlock (Pc.owes_of_willRetry hr) (hlock ▸ hout)
  · rw [after_lock_ne s hl] at hok
    obtain ⟨c, hlock, howes, hout⟩ := h.charged l hok
    have hc : c ≠ b := by
      rintro rfl
      exact hl hlock.symm
    exact hkeep c hc hlock howes hout

theorem Flags.of_move (h : Flags s) (hC : Counted s) (hQ : Queues s) (hS : SpinHeld s)
    (hm : Move s b a p' e) : Flags (s.after b p' e) where
  hasWaiters := h.hasWaiters_after hC hm
  charged := h.charged_after hC hQ hm
  knows := h.knows_after hC hS hm
  past := h.past_after hQ hm
  waking := h.waking_after hQ hS hm

/-! ## All of them together -/

/-- What holds in every state of every run. -/
structure Sound (s : State B L V) : Prop where
  counted : Counted s
  queues : Queues s
  told : Told s
  spin : SpinHeld s
  flags : Flags s

theorem Sound.of_move (h : Sound s) (hm : Move s b a p' e) : Sound (s.after b p' e) where
  counted := h.counted.after (move_owned hm)
  queues := h.queues.of_move hm
  told := h.told.of_move h.queues hm
  spin := h.spin.of_move h.counted hm
  flags := h.flags.of_move h.counted h.queues h.spin hm

end Moves

theorem Sound.of_initial [Fintype B] [DecidableEq B] [DecidableEq L] {s : State B L V}
    (h : s.Initial) : Sound s :=
  ⟨.of_initial h, .of_initial h, .of_initial h, .of_initial h, .of_initial h⟩

end BullFrog.Lmgr
