/-
# `BullFrog.Lmgr.Spot` — what the queues see of a backend

Most of the code a backend runs through is invisible to the queues.  What they see of it is
its `Spot`: the call it is queued for, whether it has already taken itself out, the waiters
it has taken out and still has to tell, and the semaphore counts it has absorbed.  Every
step changes the spot of its backend in one of thirteen ways (`SpotChange`), and the spinlock
of its queue in one of three (`SpinChange`); the invariants of the following modules are
derived from these and never look at the code again.
-/
import BullFrog.Lmgr.Owners

namespace BullFrog.Lmgr

variable {B L V : Type}

/-! ## The spinlock of a queue -/

/-- The backend holds the spinlock of the queue. -/
def Pc.critical : Pc B V → Bool
  | .queueFlag _ | .queuePush _ | .queueUnlock _ | .readVar _ _ | .readVarUnlock _ _ _
  | .dequeue _ | .dequeueFlag _ _ | .dequeueUnlock _ _ | .wakeCollect | .wakeRead _ _
  | .wakeSwap _ _ _ | .updateVar _ | .updateUnlock _ | .clearVar _ | .clearUnlock => true
  | _ => false

/-- What a step does to the spinlock of its queue. -/
inductive SpinChange (p p' : Proc B L V) (w w' : UInt32) : Prop
  | enter : p.pc.critical = false → p'.pc.critical = true → p'.lock = p.lock →
      has .locked w = false → has .locked w' = true → SpinChange p p' w w'
  | leave : p.pc.critical = true → p'.pc.critical = false → has .locked w' = false →
      SpinChange p p' w w'
  | keep : p'.pc.critical = p.pc.critical → (p.pc.critical = true → p'.lock = p.lock) →
      has .locked w' = has .locked w → SpinChange p p' w w'

theorem has_take {m : LWLockMode} {w : UInt32} (h : lockFree m w = true) (f : Flag) :
    has f (w + modeVal m) = has f w :=
  has_add (lockFree_fits h).1 f

theorem locked_wakeState (ws : List B) (ok : Bool) (w : UInt32) :
    has .locked (wakeState ws ok w) = false := by
  simp [wakeState]

section Next

variable [DecidableEq B] [DecidableEq L] [DecidableEq V]
  {b : B} {p p' : Proc B L V} {cell : Cell B V} {wt : Bool} {mode : B → LWLockMode} {sem : Nat}
  {e : Effect B V}

theorem next_spin (h : next b p cell wt mode sem = some (p', e))
    (hsub : ∀ m, p.pc = .subtract m → (modeVal m).toNat ≤ lockField cell.state) :
    SpinChange p p' cell.state (e.onCell b cell).state := by
  cases hpc : p.pc
  case swap t old =>
    simp only [next, hpc] at h
    split at h
    · cases h
      exact .keep (by simp [hpc, Pc.critical]) (by simp) rfl
    · rename_i hold
      obtain rfl : cell.state = old := not_not.mp hold
      split at h
      · rename_i hfree
        cases h
        exact .keep (by simp [hpc, Pc.critical]) (by simp) (has_take hfree _)
      · cases h
        exact .keep (by simp [hpc, Pc.critical]) (by simp) rfl
  case subtract m =>
    simp only [next, hpc] at h
    split at h <;> cases h <;>
      exact .keep (by simp [hpc, Pc.critical]) (by simp) (has_sub (hsub m hpc) _)
  case listLock t =>
    simp only [next, hpc] at h
    split at h
    · rename_i hlocked
      cases h
      exact .keep (by simp [hpc, Pc.critical]) (by simp) (by simp [hlocked])
    · rename_i hfree
      cases h
      refine .enter (by simp [hpc, Pc.critical]) ?_ rfl (by simpa using hfree) (by simp)
      cases t <;> rfl
  all_goals
    simp only [next, hpc] at h
    repeat' split at h
  all_goals cases h
  all_goals first
    | (refine .keep ?_ ?_ ?_ <;> simp [hpc, Pc.critical]; done)
    | (refine .leave ?_ ?_ ?_ <;> simp [hpc, Pc.critical, locked_wakeState])

end Next

/-! ## What the queues see of a backend -/

/-- The call of an attempt made in the queue. -/
def Try.waiting : Try → Option (Call V)
  | .conditional _ => none
  | .acquire m again => if again then some (.acquire m) else none
  | .acquireOrWait m again => if again then some (.acquireOrWait m) else none

/-- The call a backend is queued for when it goes for the spinlock. -/
def Task.waiting : Task V → Option (Call V)
  | .dequeueSelf c => some c
  | .readVar oldval again => if again then some (.waitForVar oldval) else none
  | .queueSelf _ | .wakeup | .updateVar _ | .clearVar _ => none

/-- The call a backend is queued for: from its entry into the queue until it has seen, or
made, its `lwWaiting` false. -/
def Pc.waiting : Pc B V → Option (Call V)
  | .attempt t | .swap t _ | .gotLock t | .mustWait t => t.waiting
  | .listLock t | .listSpin t => t.waiting
  | .queueUnlock c | .queued c | .semLock c _ | .semCheck c _ | .dequeue c | .dequeueFlag c _
  | .dequeueUnlock c _ | .dequeueClear c | .dequeueOk c => some c
  | .queueOk oldval => some (.waitForVar oldval)
  | .conflicts oldval again | .readVar oldval again | .readVarUnlock oldval again _ =>
      if again then some (.waitForVar oldval) else none
  | _ => none

/-- The backend has taken itself out of the queue, and `lwWaiting` is still set. -/
def Pc.gone : Pc B V → Bool
  | .dequeueFlag _ found | .dequeueUnlock _ found => found
  | .dequeueClear _ => true
  | _ => false

/-- The waiters it has taken out of the queue, and whose `lwWaiting` it has to clear. -/
def Pc.clears : Pc B V → List B
  | .wakeRead ws _ | .wakeSwap ws _ _ | .wakeNext ws | .wakePost _ ws | .updateUnlock ws => ws
  | _ => []

/-- The waiter whose semaphore it has to post next. -/
def Pc.posting : Pc B V → Option B
  | .wakePost w _ => some w
  | _ => none

/-- The semaphore has been taken and not yet accounted for. -/
def Pc.inHand : Pc B V → Nat
  | .semCheck _ _ => 1
  | _ => 0

/-- What the queues see of a backend. -/
structure Spot (B L V : Type) where
  lock : L
  waiting : Option (Call V)
  gone : Bool
  clears : List B
  posting : Option B
  /-- the semaphore counts it has absorbed and will give back -/
  tokens : Nat
  /-- the one it has just taken -/
  hand : Nat

/-- A backend that is in no queue and owes nobody anything. -/
def Spot.outside (l : L) : Spot B L V := ⟨l, none, false, [], none, 0, 0⟩

def Proc.spot (p : Proc B L V) : Spot B L V where
  lock := p.lock
  waiting := p.pc.waiting
  gone := p.pc.gone
  clears := p.pc.clears
  posting := p.pc.posting
  tokens := p.extraWaits + p.dequeueWaits
  hand := p.pc.inHand

/-- What a step does to the spot of the backend that makes it; `ws` is the queue of its
lock and `wt` its `lwWaiting`. -/
inductive SpotChange [DecidableEq B] (b : B) (q q' : Spot B L V) (ws : List B) (wt : Bool)
    (mode : B → LWLockMode) : Effect B V → Prop
  | quiet {e : Effect B V} : q' = q → (e = .skip ∨ (∃ w, e = .word w) ∨ ∃ v, e = .setVar v ws) →
      SpotChange b q q' ws wt mode e
  | relock (l : L) : q.waiting = none → q.clears = [] → q.posting = none →
      q' = { q with lock := l } → SpotChange b q q' ws wt mode .skip
  | push (c : Call V) : q.waiting = none → q' = { q with waiting := some c } →
      SpotChange b q q' ws wt mode (.push c.queueMode)
  | drop : q.waiting.isSome = true → q.gone = false → q' = { q with gone := decide (b ∈ ws) } →
      SpotChange b q q' ws wt mode (.queue (ws.erase b))
  | unwait : q.waiting.isSome = true → q.gone = true →
      q' = { q with waiting := none, gone := false } → SpotChange b q q' ws wt mode (.clear b)
  | absorb : wt = true → q.gone = false → q.hand = q'.hand + 1 →
      q' = { q with hand := q'.hand, tokens := q.tokens + 1 } → SpotChange b q q' ws wt mode .skip
  | wake (c : Call V) : q.gone = false → wt = false → q'.waiting = none →
      q = { q' with waiting := some c, hand := q'.hand + 1 } →
      SpotChange b q q' ws wt mode .skip
  | collect : q.waiting = none → q.clears = [] →
      q' = { q with clears := (collect mode false ws).2.1 } →
      SpotChange b q q' ws wt mode (.queue (collect mode false ws).1)
  | update (v : V) : q.waiting = none → q.clears = [] →
      q' = { q with clears := ws.takeWhile fun w => mode w == .waitUntilFree } →
      SpotChange b q q' ws wt mode (.setVar v (ws.dropWhile fun w => mode w == .waitUntilFree))
  | clear (w : B) : q.waiting = none → q.posting = none →
      q = { q' with clears := w :: q'.clears, posting := none } → q'.posting = some w →
      SpotChange b q q' ws wt mode (.clear w)
  | post (w : B) : q.posting = some w → q' = { q with posting := none } →
      SpotChange b q q' ws wt mode (.post w)
  | repay : q = { q' with tokens := q'.tokens + 1 } → SpotChange b q q' ws wt mode (.post b)
  | take : q' = { q with hand := q.hand + 1 } → SpotChange b q q' ws wt mode .take

/-! ### The counters of absorbed signals -/

/-- In the loop of `LWLockDequeueSelf`. -/
def Pc.dequeueLoop : Pc B V → Bool
  | .semLock _ dq | .semCheck _ dq => dq
  | .dequeueFix _ => true
  | _ => false

def Try.inCall : Try → Bool
  | .conditional _ => false
  | .acquire _ _ | .acquireOrWait _ _ => true

def Task.inCall : Task V → Bool
  | .queueSelf _ | .dequeueSelf _ | .readVar _ _ => true
  | .wakeup | .updateVar _ | .clearVar _ => false

/-- In a function with a variable `extraWaits`. -/
def Pc.inCall : Pc B V → Bool
  | .attempt t | .swap t _ | .gotLock t | .mustWait t => t.inCall
  | .listLock t | .listSpin t => t.inCall
  | .queueSelf _ | .panic | .queueFlag _ | .queuePush _ | .queueUnlock _ | .queued _ | .queueOk _
  | .conflicts _ _ | .readVar _ _ | .readVarUnlock _ _ _ | .semLock _ _ | .semCheck _ _
  | .awakened _ | .retry _ | .dequeue _ | .dequeueFlag _ _ | .dequeueUnlock _ _
  | .dequeueClear _ | .dequeueOk _ | .dequeueFix _ | .leave _ | .fix _ _ => true
  | _ => false

/-- A counter that is not in use is zero. -/
structure Proc.Tidy (p : Proc B L V) : Prop where
  dequeueWaits : p.pc.dequeueLoop = false → p.dequeueWaits = 0
  extraWaits : p.pc.inCall = false → p.extraWaits = 0

section Next

variable [DecidableEq B] [DecidableEq L] [DecidableEq V]
  {b : B} {p p' : Proc B L V} {cell : Cell B V} {wt : Bool} {mode : B → LWLockMode} {sem : Nat}
  {e : Effect B V}

theorem next_tidy (h : next b p cell wt mode sem = some (p', e)) (ht : p.Tidy) : p'.Tidy := by
  have hd := ht.dequeueWaits
  have hx := ht.extraWaits
  cases hpc : p.pc
  case' listLock t => cases t
  all_goals
    simp only [next, hpc, Task.enter] at h
    repeat' split at h
  all_goals cases h
  all_goals
    constructor <;>
      simp_all [Pc.dequeueLoop, Pc.inCall, Task.inCall, Try.inCall]

theorem next_spot (h : next b p cell wt mode sem = some (p', e)) (ht : p.Tidy) :
    SpotChange b p.spot p'.spot cell.waiters wt mode e := by
  have hd := ht.dequeueWaits
  cases hpc : p.pc
  case queuePush c =>
    simp only [next, hpc] at h
    cases h
    exact .push c (by simp [Proc.spot, hpc, Pc.waiting])
      (by simp [Proc.spot, hpc, Pc.waiting, Pc.gone, Pc.clears, Pc.posting, Pc.inHand])
  case semLock c dq =>
    simp only [next, hpc] at h
    split at h
    · cases h
    · cases h
      refine .take ?_
      simp [Proc.spot, hpc, Pc.waiting, Pc.gone, Pc.clears, Pc.posting, Pc.inHand]
  case semCheck c dq =>
    simp only [next, hpc] at h
    split at h
    · rename_i hwt
      split at h <;> cases h <;>
        refine .absorb hwt (by simp [Proc.spot, hpc, Pc.gone])
          (by simp [Proc.spot, hpc, Pc.inHand]) ?_ <;>
        simp [Proc.spot, hpc, Pc.waiting, Pc.gone, Pc.clears, Pc.posting, Pc.inHand] <;> omega
    · rename_i hwt
      split at h <;> cases h <;>
        refine .wake c (by simp [Proc.spot, hpc, Pc.gone]) (by simpa using hwt)
          (by simp [Proc.spot, Pc.waiting]) ?_ <;>
        simp [Proc.spot, hpc, Pc.waiting, Pc.gone, Pc.clears, Pc.posting, Pc.inHand]
  case dequeue c =>
    simp only [next, hpc] at h
    split at h <;> cases h <;>
      refine .drop (by simp [Proc.spot, hpc, Pc.waiting]) (by simp [Proc.spot, hpc, Pc.gone]) ?_ <;>
      simp [Proc.spot, hpc, Pc.waiting, Pc.gone, Pc.clears, Pc.posting, Pc.inHand]
  case dequeueClear c =>
    simp only [next, hpc] at h
    cases h
    refine .unwait (by simp [Proc.spot, hpc, Pc.waiting]) (by simp [Proc.spot, hpc, Pc.gone]) ?_
    simp [Proc.spot, hpc, Pc.waiting, Pc.gone, Pc.clears, Pc.posting, Pc.inHand]
  case dequeueOk c =>
    simp only [next, hpc] at h
    cases h
    refine .quiet ?_ (.inr (.inl ⟨_, rfl⟩))
    have hzero : p.dequeueWaits = 0 := hd (by simp [hpc, Pc.dequeueLoop])
    simp [Proc.spot, hpc, Pc.waiting, Pc.gone, Pc.clears, Pc.posting, Pc.inHand, hzero]
  case dequeueFix c =>
    simp only [next, hpc] at h
    split at h
    · cases h
      refine .quiet ?_ (.inl rfl)
      simp [Proc.spot, hpc, Pc.waiting, Pc.gone, Pc.clears, Pc.posting, Pc.inHand]
    · cases h
      refine .repay ?_
      simp [Proc.spot, hpc, Pc.waiting, Pc.gone, Pc.clears, Pc.posting, Pc.inHand]
      omega
  case fix c mustwait =>
    simp only [next, hpc] at h
    split at h
    · cases h
      refine .repay ?_
      simp [Proc.spot, hpc, Pc.waiting, Pc.gone, Pc.clears, Pc.posting, Pc.inHand]
      omega
    · repeat' split at h
      all_goals cases h
      all_goals refine .quiet ?_ (.inl rfl)
      all_goals simp [Proc.spot, hpc, Pc.waiting, Pc.gone, Pc.clears, Pc.posting, Pc.inHand]
  case wakeCollect =>
    simp only [next, hpc] at h
    cases h
    refine .collect (by simp [Proc.spot, hpc, Pc.waiting]) (by simp [Proc.spot, hpc, Pc.clears]) ?_
    simp [Proc.spot, hpc, Pc.waiting, Pc.gone, Pc.clears, Pc.posting, Pc.inHand]
  case wakeNext ws =>
    simp only [next, hpc] at h
    split at h
    · cases h
      refine .quiet ?_ (.inl rfl)
      simp [Proc.spot, hpc, Pc.waiting, Pc.gone, Pc.clears, Pc.posting, Pc.inHand]
    · rename_i w ws
      cases h
      refine .clear w (by simp [Proc.spot, hpc, Pc.waiting]) (by simp [Proc.spot, hpc, Pc.posting])
        ?_ (by simp [Proc.spot, Pc.posting])
      simp [Proc.spot, hpc, Pc.waiting, Pc.gone, Pc.clears, Pc.posting, Pc.inHand]
  case wakePost w ws =>
    simp only [next, hpc] at h
    cases h
    refine .post w (by simp [Proc.spot, hpc, Pc.posting]) ?_
    simp [Proc.spot, hpc, Pc.waiting, Pc.gone, Pc.clears, Pc.posting, Pc.inHand]
  case updateVar val =>
    simp only [next, hpc] at h
    cases h
    refine .update val (by simp [Proc.spot, hpc, Pc.waiting]) (by simp [Proc.spot, hpc, Pc.clears])
      ?_
    simp [Proc.spot, hpc, Pc.waiting, Pc.gone, Pc.clears, Pc.posting, Pc.inHand]
  case releaseLoop =>
    simp only [next, hpc] at h
    split at h
    · cases h
      refine .quiet ?_ (.inl rfl)
      simp [Proc.spot, hpc, Pc.waiting, Pc.gone, Pc.clears, Pc.posting, Pc.inHand]
    · rename_i l m _
      cases h
      refine .relock l (by simp [Proc.spot, hpc, Pc.waiting]) (by simp [Proc.spot, hpc, Pc.clears])
        (by simp [Proc.spot, hpc, Pc.posting]) ?_
      simp [Proc.spot, hpc, Pc.waiting, Pc.gone, Pc.clears, Pc.posting, Pc.inHand]
  case' listLock t => cases t
  -- the other steps are invisible to the queues
  all_goals
    simp only [next, hpc, Task.enter] at h
    repeat' split at h
  all_goals cases h
  all_goals refine .quiet ?_ (by simp)
  all_goals
    simp [Proc.spot, Pc.waiting, Try.waiting, Task.waiting, Pc.gone, Pc.clears, Pc.posting,
      Pc.inHand, *]

theorem next_take (h : next b p cell wt mode sem = some (p', .take)) : sem ≠ 0 := by
  cases hpc : p.pc
  case semLock c dq =>
    simp only [next, hpc] at h
    split at h
    · cases h
    · assumption
  all_goals
    simp only [next, hpc] at h
    repeat' split at h
  all_goals cases h

/-- `LWLockQueueSelf` panics when its caller is still waiting. -/
theorem next_panic (h : next b p cell wt mode sem = some (p', e)) (hp : p'.pc = .panic) :
    p.spot.waiting = none ∧ wt = true := by
  cases hpc : p.pc
  case queueSelf c =>
    simp only [next, hpc] at h
    split at h
    · rename_i hwt
      exact ⟨by simp [Proc.spot, hpc, Pc.waiting], hwt⟩
    · cases h
      cases hp
  case' listLock t => cases t
  all_goals
    simp only [next, hpc, Task.enter] at h
    repeat' split at h
  all_goals cases h
  all_goals simp at hp

end Next

/-- Entering a function is invisible to the queues. -/
theorem start_spot [DecidableEq B] {b : B} {p p' : Proc B L V} {wt : Bool} {mode : B → LWLockMode}
    {a : Act L V} (hpc : p.pc = .idle) (h : p.start a = some p') (ht : p.Tidy)
    (ws : List B) : SpotChange b p.spot p'.spot ws wt mode .skip ∧ p'.Tidy := by
  have hd : p.dequeueWaits = 0 := ht.dequeueWaits (by simp [hpc, Pc.dequeueLoop])
  have hx : p.extraWaits = 0 := ht.extraWaits (by simp [hpc, Pc.inCall])
  have hq : p.spot = .outside p.lock := by
    simp [Proc.spot, Spot.outside, hpc, hd, hx, Pc.waiting, Pc.gone, Pc.clears, Pc.posting,
      Pc.inHand]
  have hrelock : ∀ p'' : Proc B L V, p''.spot = .outside p''.lock → p''.extraWaits = 0 →
      p''.dequeueWaits = 0 → SpotChange b p.spot p''.spot ws wt mode .skip ∧ p''.Tidy := by
    intro p'' hq' hx' hd'
    rw [hq, hq']
    exact ⟨.relock p''.lock rfl rfl rfl rfl, fun _ => hd', fun _ => hx'⟩
  cases a with
  | acquire | conditionalAcquire | acquireOrWait =>
      cases h
      simp only [Proc.take]
      split <;> apply hrelock <;>
        simp [Proc.spot, Spot.outside, hpc, hd, hx, Pc.waiting, Try.waiting, Pc.gone, Pc.clears,
          Pc.posting, Pc.inHand]
  | waitForVar | updateVar | release | releaseClearVar | releaseAll =>
      cases h
      apply hrelock <;>
        simp [Proc.spot, Spot.outside, hd, hx, Pc.waiting, Task.waiting, Pc.gone, Pc.clears,
          Pc.posting, Pc.inHand]
  | next | signal | wait => cases h

end BullFrog.Lmgr
