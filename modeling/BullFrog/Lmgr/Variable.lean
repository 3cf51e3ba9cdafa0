/-
# `BullFrog.Lmgr.Variable` — a wait for a variable ends when it should

`LWLockWaitForVar` sleeps until the lock is free or the variable beside it no longer has the
value its caller has seen.  Three functions can end the wait: `LWLockUpdateVar` wakes those
that only wait and leaves the others in the queue, `LWLockReleaseClearVar` changes the
variable and relies on the release that follows, and `LWLockRelease` wakes the queue if
`RELEASE_OK` is set.  That each of them reaches every such sleeper rests on where it stands:

  * those that only wait stand at the front of the queue (`Watched.front`), so a wakeup that
    stops at the first exclusive waiter has passed them all;
  * from the moment it has entered the queue and set `RELEASE_OK`, nobody clears the flag
    without taking it out (`Watched.releaseOk`).

So, when no backend can move, a sleeper in `LWLockWaitForVar` has missed nothing: the lock is
held exclusively and the variable has the value it was called with
(`wait_for_var_informed`).
-/
import BullFrog.Lmgr.Wakeup

namespace BullFrog.Lmgr

variable {B L V : Type}

/-! ## Where a waiter is -/

def Task.varWait : Task V → Option V
  | .readVar oldval again => if again then some oldval else none
  | .queueSelf _ | .dequeueSelf _ | .wakeup | .updateVar _ | .clearVar _ => none

def Call.var : Call V → Option V
  | .waitForVar oldval => some oldval
  | .acquire _ | .acquireOrWait _ => none

/-- In the queue of `LWLockWaitForVar`, with `RELEASE_OK` set. -/
def Pc.varWait : Pc B V → Option V
  | .conflicts oldval again | .readVar oldval again | .readVarUnlock oldval again _ =>
      if again then some oldval else none
  | .listLock t | .listSpin t => t.varWait
  | .semLock c dq | .semCheck c dq => if dq then none else c.var
  | _ => none

/-- Past both checks of `LWLockConflictsWithVar`. -/
def Pc.varSleep : Pc B V → Option V
  | .semLock c dq | .semCheck c dq => if dq then none else c.var
  | _ => none

/-- On the way to wake the queue. -/
def Pc.waker : Pc B V → Bool
  | .wakeCollect => true
  | .listLock t | .listSpin t => t.active
  | _ => false

/-- Has gone through the queue in `LWLockWakeup`. -/
def Pc.sweeping : Pc B V → Bool
  | .wakeRead _ _ | .wakeSwap _ _ _ => true
  | _ => false

def Task.clears : Task V → Bool
  | .clearVar _ => true
  | .queueSelf _ | .dequeueSelf _ | .readVar _ _ | .wakeup | .updateVar _ => false

/-- In `LWLockReleaseClearVar`, before the release. -/
def Pc.clearsVar : Pc B V → Bool
  | .clearVar _ | .clearUnlock => true
  | .listLock t | .listSpin t => t.clears
  | _ => false

/-- Between the store of `LWLockReleaseClearVar` and the end of the release. -/
def Pc.releasing : Pc B V → Bool
  | .clearUnlock | .release | .subtract _ => true
  | _ => false

theorem Pc.critical_of_sweeping {pc : Pc B V} (h : pc.sweeping = true) : pc.critical = true := by
  cases pc <;> first | rfl | cases h

theorem Pc.sweeping_of_waking {pc : Pc B V} {ws : List B} (h : pc.waking = some ws) :
    pc.sweeping = true := by
  cases pc <;> first | rfl | cases h

theorem Task.waiting_of_varWait {t : Task V} {v : V} (h : t.varWait = some v) :
    t.waiting = some (.waitForVar v) := by
  cases t <;> simp_all [Task.varWait, Task.waiting]

theorem Pc.waiting_of_varWait {pc : Pc B V} {v : V} (h : pc.varWait = some v) :
    pc.waiting = some (.waitForVar v) := by
  cases pc
  case listLock t | listSpin t => exact Task.waiting_of_varWait h
  case semLock c dq | semCheck c dq => cases c <;> simp_all [Pc.varWait, Pc.waiting, Call.var]
  all_goals simp_all [Pc.varWait, Pc.waiting]

theorem Pc.varWait_of_varSleep {pc : Pc B V} {v : V} (h : pc.varSleep = some v) :
    pc.varWait = some v ∧ pc.asleep = true := by
  cases pc <;> simp_all [Pc.varSleep, Pc.varWait, Pc.asleep]

/-! ## Those that only wait stand in front -/

section Front

variable {mode : B → LWLockMode}

/-- Whoever stands before one that only waits, only waits. -/
def Front (mode : B → LWLockMode) (ws : List B) : Prop :=
  ws.Pairwise fun x y => mode y = .waitUntilFree → mode x = .waitUntilFree

theorem collect_sublist (mode : B → LWLockMode) (woken : Bool) (ws : List B) :
    (collect mode woken ws).1.Sublist ws := by
  induction ws generalizing woken with
  | nil => exact List.Sublist.slnil
  | cons w ws ih =>
      simp only [collect]
      split
      · exact (ih woken).cons_cons w
      · split
        · exact List.sublist_cons_self w ws
        · split
          · exact (ih woken).cons w
          · exact (ih true).cons w

/-- `LWLockWakeup` leaves nobody behind that only waits. -/
theorem Front.collect {ws : List B} (h : Front mode ws) :
    ∀ w ∈ (collect mode false ws).1, mode w ≠ .waitUntilFree := by
  induction ws with
  | nil => intro w hw; cases hw
  | cons x ws ih =>
      obtain ⟨hx, hws⟩ := List.pairwise_cons.mp h
      intro w hw hfree
      have hback : w ∈ ws → mode x = .waitUntilFree := fun hmem => hx w hmem hfree
      simp only [Lmgr.collect, Bool.false_and, Bool.false_eq_true, if_false] at hw
      split at hw
      · rename_i hex
        rw [hback hw] at hex
        cases hex
      · split at hw
        · exact ih hws w hw hfree
        · rename_i hshared
          exact hshared (hback ((collect_sublist mode true ws).subset hw))

/-- Nor does `LWLockUpdateVar`. -/
theorem Front.dropWhile {ws : List B} (h : Front mode ws) :
    ∀ w ∈ ws.dropWhile fun w => mode w == .waitUntilFree, mode w ≠ .waitUntilFree := by
  induction ws with
  | nil => intro w hw; cases hw
  | cons x ws ih =>
      obtain ⟨hx, hws⟩ := List.pairwise_cons.mp h
      intro w hw hfree
      rw [List.dropWhile_cons] at hw
      split at hw
      · exact ih hws w hw hfree
      · rename_i hne
        rcases List.mem_cons.mp hw with rfl | hmem
        · exact hne (by simpa using hfree)
        · exact hne (by simpa using hx w hmem hfree)

theorem Front.push [DecidableEq B] {ws : List B} {b : B} {m : LWLockMode} (h : Front mode ws)
    (hb : b ∉ ws) : Front (Function.update mode b m) (pushWaiter m b ws) := by
  have hsame : ∀ x ∈ ws, Function.update mode b m x = mode x := by
    intro x hx
    exact Function.update_of_ne (ne_of_mem_of_not_mem hx hb) _ _
  have hws : ws.Pairwise fun x y => Function.update mode b m y = .waitUntilFree →
      Function.update mode b m x = .waitUntilFree := by
    refine h.imp_of_mem fun {x y} hx hy hxy => ?_
    rw [hsame x hx, hsame y hy]
    exact hxy
  rw [pushWaiter]
  split
  · rename_i hm
    refine List.pairwise_cons.mpr ⟨fun y _ _ => ?_, hws⟩
    rw [Function.update_self, hm]
  · rename_i hm
    refine List.pairwise_append.mpr ⟨hws, List.pairwise_singleton _ b, fun x _ y hy hfree => ?_⟩
    obtain rfl := List.mem_singleton.mp hy
    rw [Function.update_self] at hfree
    exact absurd hfree hm

end Front

/-- Nobody enters a queue but with a push. -/
theorem SpotChange.sublist_or_push [DecidableEq B] {b : B} {e : Effect B V} {q q' : Spot B L V}
    {ws : List B} {wt : Bool} {md : B → LWLockMode} (h : SpotChange b q q' ws wt md e) :
    (e.onWaiters b ws).Sublist ws ∨ ∃ m, e = .push m := by
  cases h with
  | quiet _ heff =>
      left
      rcases heff with rfl | ⟨w, rfl⟩ | ⟨v, rfl⟩ <;> exact List.Sublist.refl ws
  | push => exact Or.inr ⟨_, rfl⟩
  | drop => exact Or.inl List.erase_sublist
  | collect => exact Or.inl (collect_sublist _ _ _)
  | update => exact Or.inl (List.dropWhile_sublist _)
  | relock | unwait | absorb | wake | clear | post | repay | take =>
      exact Or.inl (List.Sublist.refl ws)

/-! ## One step -/

section Next

variable [DecidableEq B] [DecidableEq L] [DecidableEq V]
  {b : B} {p p' : Proc B L V} {cell : Cell B V} {wt : Bool} {mode : B → LWLockMode} {sem : Nat}
  {e : Effect B V}

theorem next_varWait {v : V} (h : next b p cell wt mode sem = some (p', e))
    (hv : p'.pc.varWait = some v) :
    p.pc.varWait = some v ∨ has .releaseOk (e.onCell b cell).state = true := by
  cases hpc : p.pc
  case' listLock t => cases t
  all_goals
    simp only [next, hpc, Task.enter] at h
    repeat' split at h
  all_goals cases h
  all_goals simp_all [Pc.varWait, Task.varWait, Call.var]

/-- The variable is checked only while the word says that the lock is exclusively held. -/
theorem next_checks {v : V} (h : next b p cell wt mode sem = some (p', e))
    (hv : p'.pc.varWait = some v) (ha : p'.pc.asleep = true) :
    p.pc.varWait = some v ∧ (p.pc.asleep = true ∨ 2 ^ 24 ≤ lockField cell.state) := by
  cases hpc : p.pc
  case conflicts oldval again =>
    simp only [next, hpc] at h
    split at h
    · split at h <;> cases h <;> simp [Pc.asleep, Task.asleep] at ha
    · rename_i hex
      rw [and_valExclusive_eq_zero] at hex
      cases h
      exact ⟨hv, Or.inr (Nat.le_of_not_lt hex)⟩
  case' listLock t => cases t
  all_goals
    simp only [next, hpc, Task.enter] at h
    repeat' split at h
  all_goals cases h
  all_goals simp_all [Pc.asleep, Task.asleep, Pc.varWait, Task.varWait, Call.var]

theorem next_varSleep {v : V} (h : next b p cell wt mode sem = some (p', e))
    (hv : p'.pc.varSleep = some v) :
    p'.lock = p.lock ∧ (e.onCell b cell).var = cell.var ∧
      (p.pc.varSleep = some v ∨ p.pc = .readVarUnlock v true v) := by
  cases hpc : p.pc
  case' listLock t => cases t
  all_goals
    simp only [next, hpc, Task.enter] at h
    repeat' split at h
  all_goals cases h
  all_goals simp_all [Pc.varSleep, Call.var]

theorem next_reads {v value : V} {again : Bool} (h : next b p cell wt mode sem = some (p', e))
    (hpc' : p'.pc = .readVarUnlock v again value) :
    p'.lock = p.lock ∧ (e.onCell b cell).var = value := by
  cases hpc : p.pc
  case' listLock t => cases t
  all_goals
    simp only [next, hpc, Task.enter] at h
    repeat' split at h
  all_goals cases h
  all_goals simp_all

theorem next_waker (h : next b p cell wt mode sem = some (p', e)) (hw : p.pc.waker = true) :
    p'.pc.waker = true ∧ p'.lock = p.lock ∨ e = .queue (collect mode false cell.waiters).1 := by
  cases hpc : p.pc
  all_goals simp only [hpc, Pc.waker, Bool.false_eq_true] at hw
  case' listLock t => cases t
  all_goals
    simp only [next, hpc, Task.enter] at h
    repeat' split at h
  all_goals cases h
  all_goals simp_all [Pc.waker, Task.active]

theorem next_sweeping (h : next b p cell wt mode sem = some (p', e))
    (hw : p'.pc.sweeping = true) :
    p'.lock = p.lock ∧ (p.pc.sweeping = true ∧ e = .skip ∨
      e = .queue (collect mode false cell.waiters).1) := by
  cases hpc : p.pc
  case' listLock t => cases t
  all_goals
    simp only [next, hpc, Task.enter] at h
    repeat' split at h
  all_goals cases h
  all_goals simp_all [Pc.sweeping]

theorem next_clearsVar (h : next b p cell wt mode sem = some (p', e))
    (hc : p'.pc.clearsVar = true) :
    p.pc.clearsVar = true ∧ p'.lock = p.lock ∧ p'.held = p.held := by
  cases hpc : p.pc
  case' listLock t => cases t
  all_goals
    simp only [next, hpc, Task.enter] at h
    repeat' split at h
  all_goals cases h
  all_goals simp_all [Pc.clearsVar, Task.clears]

theorem next_var (h : next b p cell wt mode sem = some (p', e)) :
    (e.onCell b cell).var = cell.var ∨
      (e.onCell b cell).waiters = (cell.waiters.dropWhile fun w => mode w == .waitUntilFree) ∨
      (∃ val, p.pc = .clearVar val) ∧ p'.pc = .clearUnlock ∧ p'.lock = p.lock := by
  cases hpc : p.pc
  all_goals
    simp only [next, hpc] at h
    repeat' split at h
  all_goals cases h
  all_goals simp

theorem removeHeld_none {l : L} {held : List (L × LWLockMode)} (h : removeHeld l held = none)
    (m : LWLockMode) : (l, m) ∉ held := by
  induction held with
  | nil => exact List.not_mem_nil
  | cons x held ih =>
      simp only [removeHeld] at h
      split at h
      · cases h
      · rename_i hrest
        split at h
        · cases h
        · rename_i hx
          intro hmem
          rcases List.mem_cons.mp hmem with rfl | hmem
          · exact hx rfl
          · exact ih hrest hmem

/-- A release of a lock that is held gets to the subtraction. -/
theorem next_releasing {m : LWLockMode} (h : next b p cell wt mode sem = some (p', e))
    (hr : p.pc.releasing = true) (hheld : (p.lock, m) ∈ p.owned) :
    p'.pc.releasing = true ∧ p'.lock = p.lock ∨ ∃ m, p.pc = .subtract m := by
  cases hpc : p.pc
  all_goals simp only [hpc, Pc.releasing, Bool.false_eq_true] at hr
  case clearUnlock =>
    simp only [next, hpc] at h
    cases h
    exact Or.inl ⟨rfl, rfl⟩
  case release =>
    simp only [next, hpc] at h
    split at h
    · rename_i hnone
      refine absurd ?_ (removeHeld_none hnone m)
      simpa [Proc.owned, hpc, Pc.pending] using hheld
    · cases h
      exact Or.inl ⟨rfl, rfl⟩
  case subtract m => exact Or.inr ⟨m, rfl⟩

/-- The release of the only owner wakes the queue. -/
theorem next_subtract {m : LWLockMode} (h : next b p cell wt mode sem = some (p', e))
    (hpc : p.pc = .subtract m) (hfield : lockField cell.state = (modeVal m).toNat)
    (hw : has .hasWaiters cell.state = true) (hok : has .releaseOk cell.state = true) :
    p'.pc.waker = true ∧ p'.lock = p.lock := by
  have hzero : (cell.state - modeVal m) &&& lockMask = 0 := by
    rw [and_lockMask_eq_zero, lockField_sub hfield.ge, hfield, Nat.sub_self]
  simp only [next, hpc] at h
  rw [has_sub hfield.ge, has_sub hfield.ge, hw, hok, hzero] at h
  cases h
  exact ⟨rfl, rfl⟩

end Next

/-! ## The invariant -/

/-- Some backend is on its way to wake the queue of `l`. -/
def HasWaker (s : State B L V) (l : L) : Prop :=
  ∃ c, (s.proc c).lock = l ∧ (s.proc c).pc.waker = true

/-- Some backend owns `l` exclusively and is about to release it. -/
def HasReleaser (s : State B L V) (l : L) : Prop :=
  ∃ c, (s.proc c).lock = l ∧ (s.proc c).pc.releasing = true ∧
    (l, .exclusive) ∈ (s.proc c).owned

theorem HasWaker.self [DecidableEq B] [DecidableEq L] {s : State B L V} {b : B}
    {p' : Proc B L V} {e : Effect B V} (hlock : p'.lock = (s.proc b).lock)
    (hw : p'.pc.waker = true) :
    HasWaker (s.after b p' e) (s.proc b).lock := by
  refine ⟨b, ?_⟩
  rw [after_proc_self]
  exact ⟨hlock, hw⟩

/-- What reaches the sleepers of `LWLockWaitForVar`. -/
structure Watched (s : State B L V) : Prop where
  front : ∀ l, Front s.lwWaitMode (s.lock l).waiters
  swept : ∀ c, (s.proc c).pc.sweeping = true →
    ∀ w ∈ (s.lock (s.proc c).lock).waiters, s.lwWaitMode w ≠ .waitUntilFree
  releaseOk : ∀ l, ∀ w ∈ (s.lock l).waiters, ∀ v, (s.proc w).pc.varWait = some v →
    has .releaseOk (s.lock l).state = true
  taken : ∀ l, ∀ w ∈ (s.lock l).waiters, ∀ v, (s.proc w).pc.varWait = some v →
    (s.proc w).pc.asleep = true →
    (∃ c, (l, .exclusive) ∈ (s.proc c).owned) ∨ HasWaker s l
  clearsVar : ∀ c, (s.proc c).pc.clearsVar = true →
    ((s.proc c).lock, .exclusive) ∈ (s.proc c).held
  reads : ∀ w v again value, (s.proc w).pc = .readVarUnlock v again value →
    (s.lock (s.proc w).lock).var = value
  informed : ∀ l, ∀ w ∈ (s.lock l).waiters, ∀ v, (s.proc w).pc.varSleep = some v →
    (s.lock l).var = v ∨ HasReleaser s l ∨ HasWaker s l

theorem Watched.of_initial {s : State B L V} (h : s.Initial) : Watched s where
  front l := by rw [h.waiters l]; exact List.Pairwise.nil
  swept c hc := by rw [h.idle c] at hc; cases hc
  releaseOk l w hw := by rw [h.waiters l] at hw; cases hw
  taken l w hw := by rw [h.waiters l] at hw; cases hw
  clearsVar c hc := by rw [h.idle c] at hc; cases hc
  reads w v again value hw := by rw [h.idle w] at hw; cases hw
  informed l w hw := by rw [h.waiters l] at hw; cases hw

section Discipline

variable [Fintype B] [DecidableEq L]

/-- The lock whose variable `LWLockReleaseClearVar` sets. -/
def Act.clears : Act L V → Option L
  | .releaseClearVar l _ => some l
  | .acquire _ _ | .conditionalAcquire _ _ | .acquireOrWait _ _ | .waitForVar _ _ | .updateVar _ _
  | .release _ | .releaseAll | .next | .signal | .wait => none

/-- What the callers keep to: a backend that calls `LWLockReleaseClearVar` holds the lock
exclusively, and no lock is shared so often that its word looks exclusive. -/
def Disciplined (s : State B L V) (x : B × Act L V) : Prop :=
  (∀ l, s.sharers l < 2 ^ 24) ∧ ∀ l ∈ x.2.clears, (l, .exclusive) ∈ (s.proc x.1).held

instance [Fintype L] (s : State B L V) (x : B × Act L V) : Decidable (Disciplined s x) :=
  inferInstanceAs (Decidable ((∀ l, s.sharers l < 2 ^ 24) ∧
    ∀ l ∈ x.2.clears, (l, .exclusive) ∈ (s.proc x.1).held))

/-- At the subtraction, an exclusive owner gives back just that. -/
theorem Counted.subtract_exclusive {s : State B L V} {b : B} {m : LWLockMode} (h : Counted s)
    (hpc : (s.proc b).pc = .subtract m)
    (hown : ((s.proc b).lock, .exclusive) ∈ (s.proc b).owned) : m = .exclusive := by
  by_contra hne
  have hheld : ((s.proc b).lock, .exclusive) ∈ (s.proc b).held := by
    simpa [Proc.owned, hpc, Pc.pending, Ne.symm hne] using hown
  have hentry := List.single_le_sum (fun _ _ => Nat.zero_le _) _
    (List.mem_map_of_mem (f := entryVal (s.proc b).lock) hheld)
  have hshare : (s.proc b).share (s.proc b).lock =
      ((s.proc b).held.map (entryVal (s.proc b).lock)).sum + (modeVal m).toNat := by
    simp [Proc.share, Proc.owned, hpc, Pc.pending, entryVal_self]
  have hsum := Tally.le_sum (g := fun c => (s.proc c).share (s.proc b).lock) b
  rw [entryVal_self] at hentry
  refine h.no_room hown (m := m) ?_
  change 2 ^ 24 ≤ _ at hentry
  omega

/-- Unless a lock is shared too often, a word that looks exclusive has an exclusive owner. -/
theorem Counted.exists_exclusive {s : State B L V} {l : L} (h : Counted s)
    (hfew : s.sharers l < 2 ^ 24) (hfield : 2 ^ 24 ≤ lockField (s.lock l).state) :
    ∃ c, (l, .exclusive) ∈ (s.proc c).owned := by
  have hcounts := h.field_eq_counts l
  have hpos : 0 < s.exclusives l := by omega
  obtain ⟨c, hc⟩ := Tally.exists_pos hpos
  exact ⟨c, List.count_pos_iff.mp hc⟩

end Discipline

/-- At the start of a function nothing has been seen yet. -/
theorem start_fresh {p p' : Proc B L V} {a : Act L V} (hpc : p.pc = .idle)
    (hs : p.start a = some p') :
    p'.pc.varWait = none ∧ p'.pc.sweeping = false ∧
      ∀ v again value, p'.pc ≠ .readVarUnlock v again value := by
  cases a with
  | acquire | conditionalAcquire | acquireOrWait =>
      cases hs
      simp only [Proc.take]
      split <;> simp [hpc, Pc.varWait, Pc.sweeping]
  | waitForVar | updateVar | release | releaseClearVar | releaseAll =>
      cases hs
      simp [Pc.varWait, Task.varWait, Pc.sweeping]
  | next | signal | wait => cases hs

section Moves

variable [DecidableEq B] [DecidableEq L] [DecidableEq V] {s s' : State B L V} {b : B}
  {a : Act L V} {p' : Proc B L V} {e : Effect B V}

/-- Somebody who will wake the queue, does so or still will. -/
theorem Watched.waker_after {w : B} {l : L} (h : Watched s) (hm : Move s b a p' e)
    (hmem : w ∈ ((s.after b p' e).lock l).waiters) (hmode : s.lwWaitMode w = .waitUntilFree)
    (hwaker : HasWaker s l) : HasWaker (s.after b p' e) l := by
  obtain ⟨c, hlock, hw⟩ := hwaker
  by_cases hc : c = b
  · subst hc hlock
    cases hm with
    | next hn =>
        rcases next_waker hn hw with ⟨hw', hlock⟩ | rfl
        · exact .self hlock hw'
        · rw [after_lock_self] at hmem
          exact absurd hmode ((h.front _).collect w hmem)
    | signal | wait => exact .self rfl hw
    | start hidle => rw [hidle] at hw; cases hw
  · refine ⟨c, ?_⟩
    rw [after_proc_ne s hc]
    exact ⟨hlock, hw⟩

/-- An exclusive owner stays one, or is at the subtraction. -/
theorem owner_after {c : B} {l : L} (hm : Move s b a p' e)
    (hown : (l, .exclusive) ∈ (s.proc c).owned) :
    (l, .exclusive) ∈ ((s.after b p' e).proc c).owned ∨
      c = b ∧ (s.proc b).lock = l ∧ (s.proc b).pc = .subtract .exclusive := by
  by_cases hc : c = b
  · subst hc
    rw [after_proc_self]
    have hch := move_owned hm
    generalize (e.onCell c (s.lock (s.proc c).lock)).state = w' at hch
    cases hch with
    | take m _ _ hperm => exact Or.inl (hperm.mem_iff.mpr (List.mem_cons_of_mem _ hown))
    | give m hpc hperm =>
        rcases List.mem_cons.mp (hperm.mem_iff.mp hown) with heq | hmem
        · obtain ⟨hl, hm⟩ := Prod.mk.inj heq
          exact Or.inr ⟨rfl, hl.symm, hm ▸ hpc⟩
        · exact Or.inl hmem
    | keep hperm _ => exact Or.inl (hperm.mem_iff.mpr hown)
  · rw [after_proc_ne s hc]
    exact Or.inl hown

variable [Fintype B]

/-- Nobody in a queue changes its mode. -/
theorem Queues.mode_kept {w : B} {l : L} (hQ : Queues s) (hm : Move s b a p' e)
    (hmem : w ∈ (s.lock l).waiters) :
    (s.after b p' e).lwWaitMode w = s.lwWaitMode w := by
  change e.onMode b s.lwWaitMode w = s.lwWaitMode w
  cases e with
  | push m =>
      cases hm with
      | next hn =>
          refine Function.update_of_ne ?_ _ _
          rintro rfl
          obtain ⟨call, hpc⟩ := next_push hn
          have hwait := (hQ.listed l w hmem).2
          simp [Proc.spot, hpc, Pc.waiting] at hwait
  | skip | word | queue | setVar | clear | post | take => rfl

/-- A waiter of `LWLockWaitForVar` in a queue was in it before. -/
theorem varWait_before {w : B} {l : L} {v : V} (h : Sound s) (hm : Move s b a p' e)
    (hmem : w ∈ ((s.after b p' e).lock l).waiters)
    (hv : ((s.after b p' e).proc w).pc.varWait = some v) :
    w ∈ (s.lock l).waiters ∧ s.lwWaitMode w = .waitUntilFree := by
  have hold : w ∈ (s.lock l).waiters := by
    rcases h.queues.mem_after hm hmem with hold | ⟨rfl, call, hpc⟩
    · exact hold
    · rw [after_proc_self] at hv
      rcases pc_of_push hm hpc with hpc' | hpc' <;> rw [hpc'] at hv <;> cases hv
  refine ⟨hold, ?_⟩
  rw [← h.queues.mode_kept hm hold]
  exact (h.of_move hm).queues.mode w _ (Pc.waiting_of_varWait hv)

theorem Watched.front_after (h : Watched s) (hS : Sound s) (hm : Move s b a p' e) (l : L) :
    Front (s.after b p' e).lwWaitMode ((s.after b p' e).lock l).waiters := by
  -- whoever stays keeps its mode
  have hstay : ∀ ws, ws.Sublist (s.lock l).waiters → Front (s.after b p' e).lwWaitMode ws := by
    intro ws hsub
    refine ((h.front l).sublist hsub).imp_of_mem fun {x y} hx hy hxy => ?_
    rw [hS.queues.mode_kept hm (hsub.subset hx), hS.queues.mode_kept hm (hsub.subset hy)]
    exact hxy
  rw [after_waiters]
  split
  · rename_i hl
    subst hl
    cases hm with
    | next hn =>
        rcases (next_spot hn (hS.queues.tidy b)).sublist_or_push with hsub | ⟨m, rfl⟩
        · exact hstay _ hsub
        · obtain ⟨call, hpc⟩ := next_push hn
          refine (h.front _).push fun hmem => ?_
          have hwait := (hS.queues.listed _ b hmem).2
          simp [Proc.spot, hpc, Pc.waiting] at hwait
    | signal | wait | start => exact hstay _ (List.Sublist.refl _)
  · exact hstay _ (List.Sublist.refl _)

theorem Watched.swept_after (h : Watched s) (hS : Sound s) (hm : Move s b a p' e) (c : B)
    (hc : ((s.after b p' e).proc c).pc.sweeping = true) :
    ∀ w ∈ ((s.after b p' e).lock ((s.after b p' e).proc c).lock).waiters,
      (s.after b p' e).lwWaitMode w ≠ .waitUntilFree := by
  intro w hmem
  by_cases hcb : c = b
  · subst hcb
    rw [after_proc_self] at hc hmem
    cases hm with
    | next hn =>
        obtain ⟨hlock, ⟨hold, rfl⟩ | rfl⟩ := next_sweeping hn hc <;>
          rw [hlock, after_lock_self] at hmem
        · exact h.swept c hold w hmem
        · exact (h.front _).collect w hmem
    | signal | wait =>
        rw [after_lock_self] at hmem
        exact h.swept c hc w hmem
    | start hpc hs => rw [(start_fresh hpc hs).2.1] at hc; cases hc
  · rw [after_proc_ne s hcb] at hc hmem
    -- nobody else is in the critical section of this queue
    have hold : w ∈ (s.lock (s.proc c).lock).waiters := by
      by_cases hl : (s.proc c).lock = (s.proc b).lock
      · have hb : (s.proc b).pc.critical = false := by
          by_contra hb
          exact hcb (hS.spin.unique (by simpa using hb) (Pc.critical_of_sweeping hc) hl)
        rw [hl, after_lock_self, (move_outside hS.counted hm hb).1] at hmem
        rwa [hl]
      · rwa [after_lock_ne s hl] at hmem
    rw [hS.queues.mode_kept hm hold]
    exact h.swept c hc w hold

theorem Watched.releaseOk_after (h : Watched s) (hS : Sound s) (hm : Move s b a p' e) (l : L)
    (w : B) (hmem : w ∈ ((s.after b p' e).lock l).waiters) (v : V)
    (hv : ((s.after b p' e).proc w).pc.varWait = some v) :
    has .releaseOk ((s.after b p' e).lock l).state = true := by
  obtain ⟨hold, hmode⟩ := varWait_before hS hm hmem hv
  by_cases hl : l = (s.proc b).lock
  · subst hl
    rw [after_lock_self]
    by_contra hno
    rw [Bool.not_eq_true] at hno
    rcases move_releaseOk hS.counted hm hno with hclear | ⟨ws, hwaking⟩
    · -- the flag was clear before, so it was not waiting, and is not now
      have hbefore : (s.proc w).pc.varWait ≠ some v := by
        intro hbefore
        rw [h.releaseOk _ w hold v hbefore] at hclear
        cases hclear
      by_cases hw : w = b
      · subst hw
        rw [after_proc_self] at hv
        cases hm with
        | next hn =>
            rcases next_varWait hn hv with hbefore' | hok
            · exact hbefore hbefore'
            · rw [hok] at hno
              cases hno
        | signal | wait => exact hbefore hv
        | start hpc hs => rw [(start_fresh hpc hs).1] at hv; cases hv
      · rw [after_proc_ne s hw] at hv
        exact hbefore hv
    · exact h.swept b (Pc.sweeping_of_waking hwaking) w hold hmode
  · have hw : w ≠ b := by
      rintro rfl
      exact hl (hS.queues.listed l w hold).1.symm
    rw [after_proc_ne s hw] at hv
    rw [after_lock_ne s hl]
    exact h.releaseOk l w hold v hv

/-- Its subtraction wakes the queue, if somebody waits there for the variable. -/
theorem Watched.subtract_wakes {w : B} {m : LWLockMode} {v : V} (h : Watched s) (hS : Sound s)
    (hn : s.next b = some (p', e)) (hpc : (s.proc b).pc = .subtract m)
    (hown : ((s.proc b).lock, .exclusive) ∈ (s.proc b).owned)
    (hmem : w ∈ (s.lock (s.proc b).lock).waiters) (hv : (s.proc w).pc.varWait = some v) :
    p'.pc.waker = true ∧ p'.lock = (s.proc b).lock := by
  obtain rfl := hS.counted.subtract_exclusive hpc hown
  exact next_subtract hn hpc (hS.counted.alone _ b hown)
    (hS.flags.hasWaiters _ (List.ne_nil_of_mem hmem)) (h.releaseOk _ w hmem v hv)

theorem Watched.taken_after (h : Watched s) (hS : Sound s) (hok : Disciplined s (b, a))
    (hm : Move s b a p' e) (l : L) (w : B) (hmem : w ∈ ((s.after b p' e).lock l).waiters) (v : V)
    (hv : ((s.after b p' e).proc w).pc.varWait = some v)
    (hsleep : ((s.after b p' e).proc w).pc.asleep = true) :
    (∃ c, (l, .exclusive) ∈ ((s.after b p' e).proc c).owned) ∨ HasWaker (s.after b p' e) l := by
  obtain ⟨hold, hmode⟩ := varWait_before hS hm hmem hv
  -- before the step it waited, and the lock was taken or about to be woken
  have hbefore : (s.proc w).pc.varWait = some v ∧
      ((∃ c, (l, .exclusive) ∈ (s.proc c).owned) ∨ HasWaker s l) := by
    by_cases hw : w = b
    · subst hw
      rw [after_proc_self] at hv hsleep
      obtain rfl := (hS.queues.listed l w hold).1
      cases hm with
      | next hn =>
          obtain ⟨hwas, hasleep | hfield⟩ := next_checks hn hv hsleep
          · exact ⟨hwas, h.taken _ w hold v hwas hasleep⟩
          · exact ⟨hwas, Or.inl (hS.counted.exists_exclusive (hok.1 _) hfield)⟩
      | signal | wait => exact ⟨hv, h.taken _ w hold v hv hsleep⟩
      | start hpc hs => rw [(start_fresh hpc hs).1] at hv; cases hv
    · rw [after_proc_ne s hw] at hv hsleep
      exact ⟨hv, h.taken l w hold v hv hsleep⟩
  obtain ⟨hwas, ⟨c, hown⟩ | hwaker⟩ := hbefore
  · rcases owner_after hm hown with hown' | ⟨rfl, rfl, hpc⟩
    · exact Or.inl ⟨c, hown'⟩
    · cases hm with
      | next hn =>
          obtain ⟨hw, hlock⟩ := h.subtract_wakes hS hn hpc hown hold hwas
          exact Or.inr (.self hlock hw)
      | signal | wait =>
          refine Or.inl ⟨c, ?_⟩
          rw [after_proc_self]
          exact hown
      | start hidle => rw [hpc] at hidle; cases hidle
  · exact Or.inr (h.waker_after hm hmem hmode hwaker)

theorem Watched.clearsVar_after (h : Watched s) (hok : Disciplined s (b, a))
    (hm : Move s b a p' e) (c : B) (hc : ((s.after b p' e).proc c).pc.clearsVar = true) :
    (((s.after b p' e).proc c).lock, .exclusive) ∈ ((s.after b p' e).proc c).held := by
  by_cases hcb : c = b
  · subst hcb
    rw [after_proc_self] at hc ⊢
    cases hm with
    | next hn =>
        obtain ⟨hold, hlock, hheld⟩ := next_clearsVar hn hc
        rw [hlock, hheld]
        exact h.clearsVar c hold
    | signal | wait => exact h.clearsVar c hc
    | start hpc hs =>
        cases a with
        | releaseClearVar => cases hs; exact hok.2 _ rfl
        | acquire | conditionalAcquire | acquireOrWait =>
            cases hs
            simp only [Proc.take] at hc
            split at hc <;> simp [hpc, Pc.clearsVar] at hc
        | waitForVar | updateVar | release | releaseAll =>
            cases hs
            simp [Pc.clearsVar, Task.clears] at hc
        | next | signal | wait => cases hs
  · rw [after_proc_ne s hcb] at hc ⊢
    exact h.clearsVar c hc

theorem Watched.reads_after (h : Watched s) (hS : Sound s) (hm : Move s b a p' e) (w : B) (v : V)
    (again : Bool) (value : V)
    (hpc : ((s.after b p' e).proc w).pc = .readVarUnlock v again value) :
    ((s.after b p' e).lock ((s.after b p' e).proc w).lock).var = value := by
  by_cases hw : w = b
  · subst hw
    rw [after_proc_self] at hpc ⊢
    cases hm with
    | next hn =>
        obtain ⟨hlock, hvar⟩ := next_reads hn hpc
        rw [hlock, after_lock_self]
        exact hvar
    | signal | wait =>
        rw [after_lock_self]
        exact h.reads w v again value hpc
    | start hidle hs => exact absurd hpc ((start_fresh hidle hs).2.2 v again value)
  · rw [after_proc_ne s hw] at hpc ⊢
    by_cases hl : (s.proc w).lock = (s.proc b).lock
    · -- the reader is in the critical section, so `b` is not
      have hb : (s.proc b).pc.critical = false := by
        by_contra hb
        exact hw (hS.spin.unique (by simpa using hb) (by rw [hpc]; rfl) hl)
      rw [hl, after_lock_self, (move_outside hS.counted hm hb).2.1, ← hl]
      exact h.reads w v again value hpc
    · rw [after_lock_ne s hl]
      exact h.reads w v again value hpc

/-- The variable changes under the sleepers only in the hands of a backend that is about to
release the lock. -/
theorem Watched.var_after {w : B} {l : L} (h : Watched s) (hok : Disciplined s (b, a))
    (hm : Move s b a p' e) (hmem : w ∈ ((s.after b p' e).lock l).waiters)
    (hmode : s.lwWaitMode w = .waitUntilFree) :
    ((s.after b p' e).lock l).var = (s.lock l).var ∨
      HasReleaser (s.after b p' e) l := by
  by_cases hl : l = (s.proc b).lock
  · subst hl
    have hheld := h.clearsVar_after hok hm b
    rw [after_lock_self] at hmem ⊢
    rw [after_proc_self] at hheld
    cases hm with
    | next hn =>
        rcases next_var hn with hsame | hdrop | ⟨-, hpc', hlock⟩
        · exact Or.inl hsame
        · rw [hdrop] at hmem
          exact absurd hmode ((h.front _).dropWhile w hmem)
        · refine Or.inr ⟨b, ?_⟩
          rw [after_proc_self]
          refine ⟨hlock, by rw [hpc']; rfl, ?_⟩
          rw [← hlock]
          exact List.mem_append_left _ (hheld (by rw [hpc']; rfl))
    | signal | wait | start => exact Or.inl rfl
  · rw [after_lock_ne s hl]
    exact Or.inl rfl

theorem Watched.releasing_after {w : B} {v : V} (h : Watched s) (hS : Sound s)
    (hm : Move s b a p' e) {l : L} (hold : w ∈ (s.lock l).waiters)
    (hv : (s.proc w).pc.varWait = some v)
    (hrel : HasReleaser s l) :
    HasReleaser (s.after b p' e) l ∨ HasWaker (s.after b p' e) l := by
  obtain ⟨c, hlock, hr, hown⟩ := hrel
  by_cases hc : c = b
  · subst hc hlock
    cases hm with
    | next hn =>
        by_cases hsub : ∃ m, (s.proc c).pc = .subtract m
        · obtain ⟨m, hpc⟩ := hsub
          obtain ⟨hw, hlock'⟩ := h.subtract_wakes hS hn hpc hown hold hv
          exact Or.inr (.self hlock' hw)
        · obtain ⟨hr', hlock'⟩ := (next_releasing hn hr hown).resolve_right hsub
          have hown' := (owner_after (.next hn) hown).resolve_right
            fun hsub' => hsub ⟨_, hsub'.2.2⟩
          rw [after_proc_self] at hown'
          refine Or.inl ⟨c, ?_⟩
          rw [after_proc_self]
          exact ⟨hlock', hr', hown'⟩
    | signal | wait =>
        refine Or.inl ⟨c, ?_⟩
        rw [after_proc_self]
        exact ⟨rfl, hr, hown⟩
    | start hidle => rw [hidle] at hr; cases hr
  · refine Or.inl ⟨c, ?_⟩
    rw [after_proc_ne s hc]
    exact ⟨hlock, hr, hown⟩

theorem Watched.informed_after (h : Watched s) (hS : Sound s) (hok : Disciplined s (b, a))
    (hm : Move s b a p' e) (l : L) (w : B) (hmem : w ∈ ((s.after b p' e).lock l).waiters) (v : V)
    (hv : ((s.after b p' e).proc w).pc.varSleep = some v) :
    ((s.after b p' e).lock l).var = v ∨
      HasReleaser (s.after b p' e) l ∨ HasWaker (s.after b p' e) l := by
  obtain ⟨hold, hmode⟩ := varWait_before hS hm hmem (Pc.varWait_of_varSleep hv).1
  -- it slept before, or has just found the variable unchanged
  have hbefore : (s.proc w).pc.varSleep = some v ∨ (s.lock l).var = v := by
    by_cases hw : w = b
    · subst hw
      rw [after_proc_self] at hv
      cases hm with
      | next hn =>
          obtain ⟨_, _, hwas | hpc⟩ := next_varSleep hn hv
          · exact Or.inl hwas
          · rw [← (hS.queues.listed l w hold).1]
            exact Or.inr (h.reads w v true v hpc)
      | signal | wait => exact Or.inl hv
      | start hpc hs =>
          have hnone := (Pc.varWait_of_varSleep hv).1
          rw [(start_fresh hpc hs).1] at hnone
          cases hnone
    · rw [after_proc_ne s hw] at hv
      exact Or.inl hv
  have hvar : (s.lock l).var = v → ((s.after b p' e).lock l).var = v ∨
      HasReleaser (s.after b p' e) l ∨ HasWaker (s.after b p' e) l := by
    intro heq
    rcases h.var_after hok hm hmem hmode with hsame | hrel
    · exact Or.inl (hsame.trans heq)
    · exact Or.inr (Or.inl hrel)
  rcases hbefore with hwas | heq
  · rcases h.informed l w hold v hwas with heq | hrel | hwaker
    · exact hvar heq
    · exact Or.inr (h.releasing_after hS hm hold (Pc.varWait_of_varSleep hwas).1 hrel)
    · exact Or.inr (Or.inr (h.waker_after hm hmem hmode hwaker))
  · exact hvar heq

theorem Watched.of_move (h : Watched s) (hS : Sound s) (hok : Disciplined s (b, a))
    (hm : Move s b a p' e) : Watched (s.after b p' e) where
  front := h.front_after hS hm
  swept := h.swept_after hS hm
  releaseOk := h.releaseOk_after hS hm
  taken := h.taken_after hS hok hm
  clearsVar := h.clearsVar_after hok hm
  reads := h.reads_after hS hm
  informed := h.informed_after hS hok hm

/-! ## No change goes unnoticed -/

/-- In a state from which no backend can go on with its call, whoever sleeps in
`LWLockWaitForVar` sleeps rightly: some backend holds the lock exclusively, and the variable
still has the value the call was made with. -/
theorem wait_for_var_informed {tr : List (B × Act L V)} (h : s.Initial)
    (r : (lwlocks B L V).Run Disciplined s tr s') (hstuck : Stuck s') (b : B) (oldval : V)
    (dq : Bool) (hb : (s'.proc b).pc = .semLock (.waitForVar oldval) dq) :
    (s'.lock (s'.proc b).lock).var = oldval ∧
      ∃ c, ((s'.proc b).lock, .exclusive) ∈ (s'.proc c).held := by
  obtain ⟨hS, hW⟩ : Sound s' ∧ Watched s' := by
    refine invariant_of_moves (I := fun s => Sound s ∧ Watched s) ?_ r
      ⟨.of_initial h, .of_initial h⟩
    rintro s b a p' e hok hm ⟨hS, hW⟩
    exact ⟨hS.of_move hm, hW.of_move hS hok hm⟩
  have hne : (s'.proc b).pc ≠ .idle := by simp [hb]
  obtain ⟨hmem, call, hpc⟩ := hstuck.queued h r hne
  have hsleep : (s'.proc b).pc.varSleep = some oldval := by
    rw [hb] at hpc
    cases hpc
    rw [hb]
    rfl
  obtain ⟨hwait, hasleep⟩ := Pc.varWait_of_varSleep hsleep
  -- nobody is on the way to anything
  have hquiet : ∀ c, (s'.proc c).pc.waker = false ∧ (s'.proc c).pc.releasing = false ∧
      (s'.proc c).pc.pending = none := by
    intro c
    by_cases hc : (s'.proc c).pc = .idle
    · rw [hc]
      exact ⟨rfl, rfl, rfl⟩
    · obtain ⟨_, _, hpc'⟩ := hstuck.queued h r hc
      rw [hpc']
      exact ⟨rfl, rfl, rfl⟩
  constructor
  · rcases hW.informed _ b hmem oldval hsleep with heq | ⟨c, _, hr, _⟩ | ⟨c, _, hw⟩
    · exact heq
    · rw [(hquiet c).2.1] at hr
      cases hr
    · rw [(hquiet c).1] at hw
      cases hw
  · rcases hW.taken _ b hmem oldval hwait hasleep with ⟨c, hown⟩ | ⟨c, _, hw⟩
    · refine ⟨c, ?_⟩
      simpa [Proc.owned, (hquiet c).2.2] using hown
    · rw [(hquiet c).1] at hw
      cases hw

/-- One backend holds the lock, another waits for its variable. -/
def watching : List (Bool × Act Unit Bool) :=
  (false, .acquire () .exclusive) :: List.replicate 5 (false, .next) ++
    (true, .waitForVar () false) :: List.replicate 15 (true, .next)

theorem wait_for_var_informed_watching :
    ∃ s' : State Bool Unit Bool,
      (lwlocks Bool Unit Bool).Run Disciplined (.initial fun _ => false) watching s' ∧
      Stuck s' ∧ (s'.proc true).pc = .semLock (.waitForVar false) false ∧
      (s'.lock (s'.proc true).lock).var = false ∧
      ∃ c, ((s'.proc true).lock, .exclusive) ∈ (s'.proc c).held := by
  obtain ⟨s', run, hend⟩ := (lwlocks Bool Unit Bool).exists_runIn Disciplined watching
    (s := .initial fun _ => false)
    (p := fun s => (s.next false).isNone && (s.next true).isNone &&
      (match (s.proc true).pc with | .semLock (.waitForVar false) false => true | _ => false))
    (by decide +kernel)
  simp only [Bool.and_eq_true, Option.isNone_iff_eq_none] at hend
  obtain ⟨⟨hfalse, htrue⟩, hsleep⟩ := hend
  have hstuck : Stuck s' := Bool.forall_bool.mpr ⟨hfalse, htrue⟩
  have hpc : (s'.proc true).pc = .semLock (.waitForVar false) false := by
    split at hsleep
    · assumption
    · cases hsleep
  exact ⟨s', run, hstuck, hpc,
    wait_for_var_informed (State.initial_initial _) run hstuck true false false hpc⟩

end Moves

end BullFrog.Lmgr
