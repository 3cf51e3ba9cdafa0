/-
# `BullFrog.Lmgr.LWLock` — the lightweight locks, instruction by instruction

Every backend runs the code of `lwlock.c` on its own local memory; what backends share is,
per lock, the state word, the queue and the variable of `LWLockWaitForVar`, and, per
backend, the fields `lwWaiting`, `lwWaitMode` and `sem` of its `PGPROC`.

A step is at most one access to shared memory: one atomic instruction on the word, one
store, one semaphore operation.  What a backend does to the queue between
`LWLockWaitListLock` and `LWLockWaitListUnlock` is one step per loop, because nobody else
reads or writes a queue without holding its spinlock.

    LWLockAcquire             attempt ─ swap ─┬─ fix ─ idle
                                 │            └─ listLock ─ queueFlag ─ queuePush ─ queueUnlock
                                 │                 ┌───────────────────────────────────┘
                               retry              attempt ─ swap ─┬─ semLock ─ semCheck ─ retry
                                                                  └─ listLock ─ dequeue ─ …
    LWLockRelease             subtract ─┬─ idle
                                        └─ listLock ─ wakeCollect ─ wakeRead ─ wakeSwap ─ wakeNext

The semaphore is shared with other users of the `PGPROC`, so it may be posted by anybody at
any time and taken by its owner outside this code: the labels `signal` and `wait`.
-/
import BullFrog.Lib.Machine
import BullFrog.Lmgr.Word

namespace BullFrog.Lmgr

/-! ## The data -/

/-- `LWLockMode`. -/
inductive LWLockMode where
  | exclusive | shared | waitUntilFree
  deriving DecidableEq, Repr

/-- `MAX_SIMUL_LWLOCKS`. -/
def maxSimulLWLocks : Nat := 200

/-- The shared part of a lock.  `var` is the `*valptr` its users keep beside it. -/
structure Cell (B V : Type) where
  state : UInt32
  waiters : List B
  var : V

/-- The functions that can put a backend into a queue. -/
inductive Call (V : Type) where
  /-- `LWLockAcquire` -/
  | acquire (m : LWLockMode)
  /-- `LWLockAcquireOrWait` -/
  | acquireOrWait (m : LWLockMode)
  /-- `LWLockWaitForVar` -/
  | waitForVar (oldval : V)
  deriving DecidableEq, Repr

/-- The mode `LWLockQueueSelf` is called with. -/
def Call.queueMode {V : Type} : Call V → LWLockMode
  | .acquire m => m
  | .acquireOrWait _ => .waitUntilFree
  | .waitForVar _ => .waitUntilFree

/-- The places `LWLockAttemptLock` is called from; `again` is the second attempt, made in
the queue. -/
inductive Try where
  /-- `LWLockConditionalAcquire` -/
  | conditional (m : LWLockMode)
  /-- `LWLockAcquire` -/
  | acquire (m : LWLockMode) (again : Bool)
  /-- `LWLockAcquireOrWait` -/
  | acquireOrWait (m : LWLockMode) (again : Bool)
  deriving DecidableEq, Repr

/-- The mode it is called with. -/
@[simp] def Try.mode : Try → LWLockMode
  | .conditional m | .acquire m _ | .acquireOrWait m _ => m

/-- What `LWLockWaitListLock` is called for. -/
inductive Task (V : Type) where
  | queueSelf (c : Call V)
  | dequeueSelf (c : Call V)
  | readVar (oldval : V) (again : Bool)
  | wakeup
  | updateVar (val : V)
  | clearVar (val : V)

/-- Where a backend is.  `again` tells the second check of `LWLockWaitForVar` from the
first, `dq` the wait in `LWLockDequeueSelf` from the regular one. -/
inductive Pc (B V : Type) where
  | idle
  -- LWLockAttemptLock
  | attempt (t : Try)
  | swap (t : Try) (oldState : UInt32)
  | gotLock (t : Try)
  | mustWait (t : Try)
  -- LWLockWaitListLock
  | listLock (t : Task V)
  | listSpin (t : Task V)
  -- LWLockQueueSelf
  | queueSelf (c : Call V)
  /-- `elog(PANIC, "queueing for lock while waiting on another one")` -/
  | panic
  | queueFlag (c : Call V)
  | queuePush (c : Call V)
  | queueUnlock (c : Call V)
  | queued (c : Call V)
  -- LWLockWaitForVar and LWLockConflictsWithVar
  | queueOk (oldval : V)
  | conflicts (oldval : V) (again : Bool)
  | readVar (oldval : V) (again : Bool)
  | readVarUnlock (oldval : V) (again : Bool) (value : V)
  -- the semaphore loops
  | semLock (c : Call V) (dq : Bool)
  | semCheck (c : Call V) (dq : Bool)
  | awakened (c : Call V)
  | retry (m : LWLockMode)
  -- LWLockDequeueSelf
  | dequeue (c : Call V)
  | dequeueFlag (c : Call V) (found : Bool)
  | dequeueUnlock (c : Call V) (found : Bool)
  | dequeueClear (c : Call V)
  | dequeueOk (c : Call V)
  | dequeueFix (c : Call V)
  -- after the loop of a call
  | leave (c : Call V)
  | fix (c : Call V) (mustwait : Bool)
  -- LWLockRelease
  | release
  | subtract (m : LWLockMode)
  | released
  -- LWLockWakeup
  | wakeCollect
  | wakeRead (wakeup : List B) (newReleaseOk : Bool)
  | wakeSwap (wakeup : List B) (newReleaseOk : Bool) (oldState : UInt32)
  | wakeNext (wakeup : List B)
  | wakePost (waiter : B) (wakeup : List B)
  -- LWLockUpdateVar
  | updateVar (val : V)
  | updateUnlock (wakeup : List B)
  -- LWLockReleaseClearVar
  | clearVar (val : V)
  | clearUnlock
  -- LWLockReleaseAll
  | releaseLoop

/-- In no call. -/
def Pc.isIdle {B V : Type} : Pc B V → Bool
  | .idle => true
  | _ => false

theorem Pc.eq_idle {B V : Type} {pc : Pc B V} (h : pc.isIdle = true) : pc = .idle := by
  cases pc <;> first | rfl | cases h

/-- The errors a call can end with. -/
inductive LWLockError where
  /-- "too many LWLocks taken" -/
  | tooMany
  /-- "lock %s is not held" -/
  | notHeld
  deriving DecidableEq, Repr

/-- The local memory of a backend. -/
structure Proc (B L V : Type) where
  pc : Pc B V
  /-- the lock the running call is about -/
  lock : L
  /-- `held_lwlocks`, oldest first -/
  held : List (L × LWLockMode)
  extraWaits : Nat
  /-- `extraWaits` of `LWLockDequeueSelf` -/
  dequeueWaits : Nat
  /-- inside `LWLockReleaseAll` -/
  all : Bool
  /-- what the last call returned -/
  result : Except LWLockError Bool
  /-- what `LWLockWaitForVar` stored in `*newval` -/
  newval : Option V

/-- All backends and all locks. -/
structure State (B L V : Type) where
  lock : L → Cell B V
  lwWaiting : B → Bool
  lwWaitMode : B → LWLockMode
  sem : B → Nat
  proc : B → Proc B L V

/-! ## The code -/

section Code

variable {B L V : Type}

/-- The pc after `LWLockWaitListLock`. -/
def Task.enter : Task V → Pc B V
  | .queueSelf c => .queueFlag c
  | .dequeueSelf c => .dequeue c
  | .readVar oldval again => .readVar oldval again
  | .wakeup => .wakeCollect
  | .updateVar val => .updateVar val
  | .clearVar val => .clearVar val

/-- One access to shared memory, by a backend and on the lock of its call. -/
inductive Effect (B V : Type) where
  | skip
  /-- the state word becomes `w` -/
  | word (w : UInt32)
  /-- `MyProc->lwWaiting = true`, `MyProc->lwWaitMode = mode`, and into the queue -/
  | push (mode : LWLockMode)
  /-- the queue becomes `ws` -/
  | queue (ws : List B)
  /-- `*valptr = v`, and the queue becomes `ws` -/
  | setVar (v : V) (ws : List B)
  /-- `waiter->lwWaiting = false` -/
  | clear (waiter : B)
  /-- `PGSemaphoreUnlock(waiter->sem)` -/
  | post (waiter : B)
  /-- `PGSemaphoreLock(MyProc->sem)` -/
  | take

/-- `lock_free` of `LWLockAttemptLock`. -/
def lockFree (m : LWLockMode) (oldState : UInt32) : Bool :=
  if m = .exclusive then oldState &&& lockMask == 0 else oldState &&& valExclusive == 0

/-- What a lock in mode `m` adds to the state word. -/
def modeVal (m : LWLockMode) : UInt32 :=
  if m = .exclusive then valExclusive else valShared

/-- The loop of `LWLockWakeup`: who stays in the queue, who is woken, and
`new_release_ok`.  `woken` is `wokeup_somebody`. -/
def collect (mode : B → LWLockMode) : (woken : Bool) → List B → List B × List B × Bool
  | _, [] => ([], [], true)
  | woken, w :: ws =>
      if woken && mode w == .exclusive then
        let (stay, wakeup, ok) := collect mode woken ws
        (w :: stay, wakeup, ok)
      else if mode w = .exclusive then (ws, [w], false)
      else if mode w = .waitUntilFree then
        let (stay, wakeup, ok) := collect mode woken ws
        (stay, w :: wakeup, ok)
      else
        let (stay, wakeup, _) := collect mode true ws
        (stay, w :: wakeup, false)

/-- `desired_state` of `LWLockWakeup`. -/
def wakeState (wakeup : List B) (newReleaseOk : Bool) (oldState : UInt32) : UInt32 :=
  let desired := if newReleaseOk then oldState ||| Flag.releaseOk.mask
    else oldState &&& ~~~Flag.releaseOk.mask
  let desired := if wakeup.isEmpty then desired &&& ~~~Flag.hasWaiters.mask else desired
  desired &&& ~~~Flag.locked.mask

/-- Go on at `pc`. -/
@[simp] def Proc.goto (p : Proc B L V) (pc : Pc B V) : Proc B L V := { p with pc := pc }

/-- `held_lwlocks` without the youngest entry for `l`, and the mode of that entry. -/
def removeHeld [DecidableEq L] (l : L) :
    List (L × LWLockMode) → Option (LWLockMode × List (L × LWLockMode))
  | [] => none
  | e :: held =>
      match removeHeld l held with
      | some (m, held') => some (m, e :: held')
      | none => if e.1 = l then some (e.2, held) else none

variable [DecidableEq B] [DecidableEq L] [DecidableEq V]

/-- The next step of backend `b` inside a call: what it does to shared memory, and its
local memory afterwards.  `none` where it has to wait for its semaphore, and outside any
call. -/
def next (b : B) (p : Proc B L V) (cell : Cell B V) (lwWaiting : Bool) (mode : B → LWLockMode)
    (sem : Nat) : Option (Proc B L V × Effect B V) :=
  match p.pc with
  | .idle => none
  | .attempt t => some (p.goto (.swap t cell.state), .skip)
  | .swap t oldState =>
      if cell.state ≠ oldState then some (p.goto (.swap t cell.state), .skip)
      else if lockFree t.mode oldState then
        some (p.goto (.gotLock t), .word (oldState + modeVal t.mode))
      else some (p.goto (.mustWait t), .word oldState)
  | .gotLock t =>
      match t with
      | .conditional m =>
          some ({ p with pc := .idle, held := p.held ++ [(p.lock, m)], result := .ok true }, .skip)
      | .acquire m again =>
          if again then some (p.goto (.listLock (.dequeueSelf (.acquire m))), .skip)
          else some (p.goto (.leave (.acquire m)), .skip)
      | .acquireOrWait m again =>
          if again then some (p.goto (.listLock (.dequeueSelf (.acquireOrWait m))), .skip)
          else some (p.goto (.leave (.acquireOrWait m)), .skip)
  | .mustWait t =>
      match t with
      | .conditional _ => some ({ p with pc := .idle, result := .ok false }, .skip)
      | .acquire m again =>
          if again then some (p.goto (.semLock (.acquire m) false), .skip)
          else some (p.goto (.queueSelf (.acquire m)), .skip)
      | .acquireOrWait m again =>
          if again then some (p.goto (.semLock (.acquireOrWait m) false), .skip)
          else some (p.goto (.queueSelf (.acquireOrWait m)), .skip)
  | .listLock t =>
      if has .locked cell.state then
        some (p.goto (.listSpin t), .word (cell.state ||| Flag.locked.mask))
      else some (p.goto t.enter, .word (cell.state ||| Flag.locked.mask))
  | .listSpin t =>
      if has .locked cell.state then some (p.goto (.listSpin t), .skip)
      else some (p.goto (.listLock t), .skip)
  | .queueSelf c =>
      if lwWaiting then some (p.goto .panic, .skip)
      else some (p.goto (.listLock (.queueSelf c)), .skip)
  | .panic => none
  | .queueFlag c => some (p.goto (.queuePush c), .word (cell.state ||| Flag.hasWaiters.mask))
  | .queuePush c => some (p.goto (.queueUnlock c), .push c.queueMode)
  | .queueUnlock c => some (p.goto (.queued c), .word (cell.state &&& ~~~Flag.locked.mask))
  | .queued c =>
      match c with
      | .acquire m => some (p.goto (.attempt (.acquire m true)), .skip)
      | .acquireOrWait m => some (p.goto (.attempt (.acquireOrWait m true)), .skip)
      | .waitForVar oldval => some (p.goto (.queueOk oldval), .skip)
  | .queueOk oldval =>
      some (p.goto (.conflicts oldval true), .word (cell.state ||| Flag.releaseOk.mask))
  | .conflicts oldval again =>
      if cell.state &&& valExclusive = 0 then
        if again then
          some ({ p with result := .ok true,
                         pc := .listLock (.dequeueSelf (.waitForVar oldval)) }, .skip)
        else some ({ p with result := .ok true, pc := .leave (.waitForVar oldval) }, .skip)
      else some ({ p with result := .ok false, pc := .listLock (.readVar oldval again) }, .skip)
  | .readVar oldval again => some (p.goto (.readVarUnlock oldval again cell.var), .skip)
  | .readVarUnlock oldval again value =>
      let unlock : Effect B V := .word (cell.state &&& ~~~Flag.locked.mask)
      if value ≠ oldval then
        if again then
          some ({ p with newval := some value,
                         pc := .listLock (.dequeueSelf (.waitForVar oldval)) }, unlock)
        else some ({ p with newval := some value, pc := .leave (.waitForVar oldval) }, unlock)
      else if again then some (p.goto (.semLock (.waitForVar oldval) false), unlock)
      else some (p.goto (.queueSelf (.waitForVar oldval)), unlock)
  | .semLock c dq => if sem = 0 then none else some (p.goto (.semCheck c dq), .take)
  | .semCheck c dq =>
      if lwWaiting then
        if dq then
          some ({ p with dequeueWaits := p.dequeueWaits + 1, pc := .semLock c true }, .skip)
        else some ({ p with extraWaits := p.extraWaits + 1, pc := .semLock c false }, .skip)
      else if dq then some (p.goto (.dequeueFix c), .skip)
      else some (p.goto (.awakened c), .skip)
  | .awakened c =>
      match c with
      | .acquire m => some (p.goto (.retry m), .skip)
      | .acquireOrWait m => some (p.goto (.fix (.acquireOrWait m) true), .skip)
      | .waitForVar oldval => some (p.goto (.conflicts oldval false), .skip)
  | .retry m =>
      some ({ p with result := .ok false, pc := .attempt (.acquire m false) },
        .word (cell.state ||| Flag.releaseOk.mask))
  | .dequeue c =>
      let waiters := cell.waiters.erase b
      if waiters.isEmpty && has .hasWaiters cell.state then
        some (p.goto (.dequeueFlag c (decide (b ∈ cell.waiters))), .queue waiters)
      else some (p.goto (.dequeueUnlock c (decide (b ∈ cell.waiters))), .queue waiters)
  | .dequeueFlag c found =>
      some (p.goto (.dequeueUnlock c found), .word (cell.state &&& ~~~Flag.hasWaiters.mask))
  | .dequeueUnlock c found =>
      if found then some (p.goto (.dequeueClear c), .word (cell.state &&& ~~~Flag.locked.mask))
      else some (p.goto (.dequeueOk c), .word (cell.state &&& ~~~Flag.locked.mask))
  | .dequeueClear c => some (p.goto (.leave c), .clear b)
  | .dequeueOk c =>
      some ({ p with dequeueWaits := 0, pc := .semLock c true },
        .word (cell.state ||| Flag.releaseOk.mask))
  | .dequeueFix c =>
      if p.dequeueWaits = 0 then some (p.goto (.leave c), .skip)
      else some ({ p with dequeueWaits := p.dequeueWaits - 1 }, .post b)
  | .leave c =>
      match c with
      | .acquire m =>
          some ({ p with held := p.held ++ [(p.lock, m)], pc := .fix (.acquire m) false }, .skip)
      | .acquireOrWait m => some (p.goto (.fix (.acquireOrWait m) false), .skip)
      | .waitForVar oldval => some (p.goto (.fix (.waitForVar oldval) false), .skip)
  | .fix c mustwait =>
      if p.extraWaits ≠ 0 then some ({ p with extraWaits := p.extraWaits - 1 }, .post b)
      else match c with
      | .acquire _ => some (p.goto .idle, .skip)
      | .acquireOrWait m =>
          if mustwait then some ({ p with pc := .idle, result := .ok false }, .skip)
          else some ({ p with pc := .idle, held := p.held ++ [(p.lock, m)], result := .ok true },
            .skip)
      | .waitForVar _ => some (p.goto .idle, .skip)
  | .release =>
      match removeHeld p.lock p.held with
      | none => some ({ p with pc := .idle, result := .error .notHeld }, .skip)
      | some (m, held) => some ({ p with held := held, pc := .subtract m }, .skip)
  | .subtract m =>
      let state := cell.state - modeVal m
      if has .hasWaiters state && has .releaseOk state && state &&& lockMask == 0 then
        some (p.goto (.listLock .wakeup), .word state)
      else some (p.goto .released, .word state)
  | .released =>
      if p.all then some (p.goto .releaseLoop, .skip) else some (p.goto .idle, .skip)
  | .wakeCollect =>
      let (stay, wakeup, newReleaseOk) := collect mode false cell.waiters
      some (p.goto (.wakeRead wakeup newReleaseOk), .queue stay)
  | .wakeRead wakeup newReleaseOk =>
      some (p.goto (.wakeSwap wakeup newReleaseOk cell.state), .skip)
  | .wakeSwap wakeup newReleaseOk oldState =>
      if cell.state ≠ oldState then
        some (p.goto (.wakeSwap wakeup newReleaseOk cell.state), .skip)
      else some (p.goto (.wakeNext wakeup), .word (wakeState wakeup newReleaseOk oldState))
  | .wakeNext wakeup =>
      match wakeup with
      | [] => some (p.goto .released, .skip)
      | w :: ws => some (p.goto (.wakePost w ws), .clear w)
  | .wakePost w ws => some (p.goto (.wakeNext ws), .post w)
  | .updateVar val =>
      some (p.goto (.updateUnlock (cell.waiters.takeWhile fun w => mode w == .waitUntilFree)),
        .setVar val (cell.waiters.dropWhile fun w => mode w == .waitUntilFree))
  | .updateUnlock wakeup =>
      some (p.goto (.wakeNext wakeup), .word (cell.state &&& ~~~Flag.locked.mask))
  | .clearVar val => some (p.goto .clearUnlock, .setVar val cell.waiters)
  | .clearUnlock => some (p.goto .release, .word (cell.state &&& ~~~Flag.locked.mask))
  | .releaseLoop =>
      match p.held.getLast? with
      | none => some ({ p with all := false, pc := .idle }, .skip)
      | some (l, _) => some ({ p with lock := l, pc := .release }, .skip)

/-- What a backend may do. -/
inductive Act (L V : Type) where
  /-- `LWLockAcquire` -/
  | acquire (l : L) (m : LWLockMode)
  /-- `LWLockConditionalAcquire` -/
  | conditionalAcquire (l : L) (m : LWLockMode)
  /-- `LWLockAcquireOrWait` -/
  | acquireOrWait (l : L) (m : LWLockMode)
  /-- `LWLockWaitForVar` -/
  | waitForVar (l : L) (oldval : V)
  /-- `LWLockUpdateVar` -/
  | updateVar (l : L) (val : V)
  /-- `LWLockRelease` -/
  | release (l : L)
  /-- `LWLockReleaseClearVar` -/
  | releaseClearVar (l : L) (val : V)
  /-- `LWLockReleaseAll` -/
  | releaseAll
  /-- the next step of the running call -/
  | next
  /-- somebody posts the backend's semaphore for a reason of his own -/
  | signal
  /-- the backend takes its semaphore, outside any call -/
  | wait
  deriving DecidableEq

/-- The start of the functions that take a lock. -/
def Proc.take (p : Proc B L V) (l : L) (t : Try) : Proc B L V :=
  if p.held.length ≥ maxSimulLWLocks then { p with result := .error .tooMany }
  else { p with lock := l, extraWaits := 0, result := .ok true, pc := .attempt t }

/-- Enter a function; `none` for what is not a call. -/
def Proc.start (p : Proc B L V) : Act L V → Option (Proc B L V)
  | .acquire l m => some (p.take l (.acquire m false))
  | .conditionalAcquire l m => some (p.take l (.conditional m))
  | .acquireOrWait l m => some (p.take l (.acquireOrWait m false))
  | .waitForVar l oldval =>
      some { p with lock := l, extraWaits := 0, newval := none, pc := .conflicts oldval false }
  | .updateVar l val => some { p with lock := l, pc := .listLock (.updateVar val) }
  | .release l => some { p with lock := l, pc := .release }
  | .releaseClearVar l val => some { p with lock := l, pc := .listLock (.clearVar val) }
  | .releaseAll => some { p with all := true, pc := .releaseLoop }
  | .next | .signal | .wait => none

/-- A backend enters the queue: those that only wait go to its front. -/
def pushWaiter (mode : LWLockMode) (b : B) (ws : List B) : List B :=
  if mode = .waitUntilFree then b :: ws else ws ++ [b]

namespace Effect

/-- The effect on the lock of the call. -/
@[simp] def onCell (b : B) (c : Cell B V) : Effect B V → Cell B V
  | .word w => { c with state := w }
  | .push mode => { c with waiters := pushWaiter mode b c.waiters }
  | .queue ws => { c with waiters := ws }
  | .setVar v ws => { c with var := v, waiters := ws }
  | .skip | .clear _ | .post _ | .take => c

/-- The effect on `lwWaiting`. -/
@[simp] def onWaiting (b : B) (lwWaiting : B → Bool) : Effect B V → B → Bool
  | .push _ => Function.update lwWaiting b true
  | .clear w => Function.update lwWaiting w false
  | .skip | .word _ | .queue _ | .setVar _ _ | .post _ | .take => lwWaiting

/-- The effect on `lwWaitMode`. -/
@[simp] def onMode (b : B) (lwWaitMode : B → LWLockMode) : Effect B V → B → LWLockMode
  | .push mode => Function.update lwWaitMode b mode
  | .skip | .word _ | .queue _ | .setVar _ _ | .clear _ | .post _ | .take => lwWaitMode

/-- The effect on the semaphores. -/
@[simp] def onSem (b : B) (sem : B → Nat) : Effect B V → B → Nat
  | .post w => Function.update sem w (sem w + 1)
  | .take => Function.update sem b (sem b - 1)
  | .skip | .word _ | .push _ | .queue _ | .setVar _ _ | .clear _ => sem

end Effect

namespace State

/-- The state after backend `b` has done `e` in its call and has `p'` in its memory. -/
def after (s : State B L V) (b : B) (p' : Proc B L V) (e : Effect B V) : State B L V where
  lock := Function.update s.lock (s.proc b).lock (e.onCell b (s.lock (s.proc b).lock))
  lwWaiting := e.onWaiting b s.lwWaiting
  lwWaitMode := e.onMode b s.lwWaitMode
  sem := e.onSem b s.sem
  proc := Function.update s.proc b p'

/-- `next`, on what backend `b` sees. -/
def next (s : State B L V) (b : B) : Option (Proc B L V × Effect B V) :=
  Lmgr.next b (s.proc b) (s.lock (s.proc b).lock) (s.lwWaiting b) s.lwWaitMode (s.sem b)

/-- One step of backend `b`. -/
def step (s : State B L V) : B × Act L V → Option (State B L V)
  | (b, .next) => (s.next b).map fun (p', e) => s.after b p' e
  | (b, .signal) => some (s.after b (s.proc b) (.post b))
  | (b, .wait) =>
      match (s.proc b).pc with
      | .idle => if s.sem b = 0 then none else some (s.after b (s.proc b) .take)
      | _ => none
  | (b, a) =>
      match (s.proc b).pc with
      | .idle => ((s.proc b).start a).map fun p' => s.after b p' .skip
      | _ => none

end State

end Code

/-- The lightweight locks as a machine: `B` names the backends, `L` the locks. -/
def lwlocks (B L V : Type) [DecidableEq B] [DecidableEq L] [DecidableEq V] :
    Machine (State B L V) (B × Act L V) :=
  ⟨State.step⟩

/-- Every lock as `LWLockInitialize` leaves it, and no backend in any call. -/
structure State.Initial {B L V : Type} (s : State B L V) : Prop where
  state : ∀ l, (s.lock l).state = Flag.releaseOk.mask
  waiters : ∀ l, (s.lock l).waiters = []
  idle : ∀ b, (s.proc b).pc = .idle
  held : ∀ b, (s.proc b).held = []
  waits : ∀ b, (s.proc b).extraWaits = 0 ∧ (s.proc b).dequeueWaits = 0
  lwWaiting : ∀ b, s.lwWaiting b = false

/-- Such a state: no semaphore counts anything, and the locks protect the variables `var`. -/
def State.initial {B L V : Type} [Inhabited L] (var : L → V) : State B L V where
  lock l := ⟨Flag.releaseOk.mask, [], var l⟩
  lwWaiting _ := false
  lwWaitMode _ := .exclusive
  sem _ := 0
  proc _ := ⟨.idle, default, [], 0, 0, false, .ok true, none⟩

theorem State.initial_initial {B L V : Type} [Inhabited L] (var : L → V) :
    (State.initial var : State B L V).Initial :=
  ⟨fun _ => rfl, fun _ => rfl, fun _ => rfl, fun _ => rfl, fun _ => ⟨rfl, rfl⟩, fun _ => rfl⟩

/-! ## Steps, as the proofs see them -/

section Moves

variable {B L V : Type} [DecidableEq B] [DecidableEq L] [DecidableEq V]

/-- `Move s b a p' e`: with the label `a`, backend `b` does `e` and has `p'` in its memory. -/
inductive Move (s : State B L V) (b : B) : Act L V → Proc B L V → Effect B V → Prop
  | next {p' : Proc B L V} {e : Effect B V} : s.next b = some (p', e) → Move s b .next p' e
  | signal : Move s b .signal (s.proc b) (.post b)
  | wait : (s.proc b).pc = .idle → s.sem b ≠ 0 → Move s b .wait (s.proc b) .take
  | start {a : Act L V} {p' : Proc B L V} :
      (s.proc b).pc = .idle → (s.proc b).start a = some p' → Move s b a p' .skip

/-- A step is a move of one backend. -/
theorem step_move {s s' : State B L V} {b : B} {a : Act L V}
    (h : (lwlocks B L V).step s (b, a) = some s') :
    ∃ p' e, Move s b a p' e ∧ s' = s.after b p' e := by
  change s.step (b, a) = some s' at h
  cases a with
  | next =>
      obtain ⟨⟨p', e⟩, hn, rfl⟩ := Option.map_eq_some_iff.mp h
      exact ⟨p', e, .next hn, rfl⟩
  | signal =>
      cases h
      exact ⟨_, _, .signal, rfl⟩
  | wait =>
      simp only [State.step] at h
      split at h
      · rename_i hpc
        split at h
        · cases h
        · rename_i hsem
          cases h
          exact ⟨_, _, .wait hpc hsem, rfl⟩
      · cases h
  | acquire | conditionalAcquire | acquireOrWait | waitForVar | updateVar | release
  | releaseClearVar | releaseAll =>
      simp only [State.step] at h
      split at h
      · rename_i hpc
        obtain ⟨p', hp, rfl⟩ := Option.map_eq_some_iff.mp h
        exact ⟨p', _, .start hpc hp, rfl⟩
      · cases h

/-- A move is a step. -/
theorem Move.step {s : State B L V} {b : B} {a : Act L V} {p' : Proc B L V} {e : Effect B V}
    (h : Move s b a p' e) : (lwlocks B L V).step s (b, a) = some (s.after b p' e) := by
  change s.step (b, a) = _
  cases h with
  | next hn =>
      rw [State.step, hn]
      rfl
  | signal => rfl
  | wait hpc hsem => simp [State.step, hpc, hsem]
  | start hpc hs => cases a <;> first | (simp [State.step, hpc, hs]; done) | cases hs

/-- What every move of every backend keeps, every run keeps. -/
theorem invariant_of_moves {I : State B L V → Prop} {ok : State B L V → B × Act L V → Prop}
    (hmove : ∀ s b a p' e, ok s (b, a) → Move s b a p' e → I s → I (s.after b p' e))
    {s s' : State B L V} {tr : List (B × Act L V)} (r : (lwlocks B L V).Run ok s tr s')
    (h : I s) : I s' := by
  refine r.invariant ?_ h
  rintro s ⟨b, a⟩ s' hok hstep hI
  obtain ⟨p', e, hm, rfl⟩ := step_move hstep
  exact hmove s b a p' e hok hm hI

end Moves

section After

variable {B L V : Type} [DecidableEq B] [DecidableEq L]

@[simp] theorem after_proc_self (s : State B L V) (b : B) (p' : Proc B L V) (e : Effect B V) :
    (s.after b p' e).proc b = p' := by
  simp [State.after]

theorem after_proc_ne (s : State B L V) {b c : B} (h : c ≠ b) (p' : Proc B L V) (e : Effect B V) :
    (s.after b p' e).proc c = s.proc c := by
  simp [State.after, h]

@[simp] theorem after_lock_self (s : State B L V) (b : B) (p' : Proc B L V) (e : Effect B V) :
    (s.after b p' e).lock (s.proc b).lock = e.onCell b (s.lock (s.proc b).lock) := by
  simp [State.after]

theorem after_lock_ne (s : State B L V) {b : B} {l : L} (h : l ≠ (s.proc b).lock)
    (p' : Proc B L V) (e : Effect B V) : (s.after b p' e).lock l = s.lock l := by
  simp [State.after, h]

end After

end BullFrog.Lmgr
