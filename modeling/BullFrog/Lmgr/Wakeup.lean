/-
# `BullFrog.Lmgr.Wakeup` — no wakeup is lost

A backend goes to sleep in the queue because it has seen the lock taken, and by then the lock
may be free again.  The code makes up for this in two ways: a backend tries once more after it
has entered the queue, and whoever frees the lock wakes the queue, unless somebody woken
before is still on its way and will do it later.  Together: where the lock is free and
somebody sleeps in its queue, there is a backend at work on the lock (`Lively`).

What is left when no backend can move: every sleeper is in the queue of its lock, and somebody
holds that lock (`no_lost_wakeup`).  If in addition all backends take their locks in one order,
somebody holds a lock and is in no call (`ordered_no_deadlock`).
-/
import BullFrog.Lmgr.Flags

namespace BullFrog.Lmgr

variable {B L V : Type}

/-! ## Sleepers, and those at work -/

def Try.again : Try → Bool
  | .acquire _ again | .acquireOrWait _ again => again
  | .conditional _ => false

def Task.asleep : Task V → Bool
  | .readVar _ again => again
  | .queueSelf _ | .dequeueSelf _ | .wakeup | .updateVar _ | .clearVar _ => false

def Task.active : Task V → Bool
  | .wakeup => true
  | .queueSelf _ | .dequeueSelf _ | .readVar _ _ | .updateVar _ | .clearVar _ => false

/-- In the queue, and told by the word that the lock is taken. -/
def Pc.asleep : Pc B V → Bool
  | .mustWait t => t.again
  | .listLock t | .listSpin t => t.asleep
  | .readVar _ again | .readVarUnlock _ again _ => again
  | .semLock _ dq | .semCheck _ dq => !dq
  | _ => false

/-- About to take the lock if it is free, or to wake the queue. -/
def Pc.active : Pc B V → Bool
  | .attempt _ | .swap _ _ | .wakeCollect | .wakeRead _ _ | .wakeSwap _ _ _ => true
  | .listLock t | .listSpin t => t.active
  | _ => false

section Next

variable [DecidableEq B] [DecidableEq L] [DecidableEq V]
  {b : B} {p p' : Proc B L V} {cell : Cell B V} {wt : Bool} {mode : B → LWLockMode} {sem : Nat}
  {e : Effect B V}

theorem lockFree_of_free {m : LWLockMode} {w : UInt32} (h : lockField w = 0) :
    lockFree m w = true := by
  have hzero := and_lockMask_eq_zero.mpr h
  have hex : w &&& valExclusive = 0 := and_valExclusive_eq_zero.mpr (by omega)
  rw [lockFree]
  split <;> simp [hzero, hex]

/-- A backend goes to sleep only when the lock is taken. -/
theorem next_asleep (h : next b p cell wt mode sem = some (p', e)) (ha : p'.pc.asleep = true) :
    p.pc.asleep = true ∨ lockField (e.onCell b cell).state ≠ 0 := by
  cases hpc : p.pc
  case swap t old =>
    simp only [next, hpc] at h
    split at h
    · cases h
      simp [Pc.asleep] at ha
    · rename_i hold
      obtain rfl : cell.state = old := not_not.mp hold
      split at h
      · cases h
        simp [Pc.asleep] at ha
      · rename_i hfree
        cases h
        exact Or.inr fun hzero => hfree (lockFree_of_free hzero)
  case conflicts oldval again =>
    simp only [next, hpc] at h
    split at h
    · split at h <;> cases h <;> simp [Pc.asleep, Task.asleep] at ha
    · rename_i hex
      cases h
      refine Or.inr fun hzero => hex (and_valExclusive_eq_zero.mpr ?_)
      rw [Effect.onCell] at hzero
      omega
  case' listLock t => cases t
  all_goals
    simp only [next, hpc, Task.enter] at h
    repeat' split at h
  all_goals cases h
  all_goals simp_all [Pc.asleep, Task.asleep, Try.again]

/-- Where the lock is free, a backend at work stays at work, takes the lock, or has woken the
queue. -/
theorem next_active (h : next b p cell wt mode sem = some (p', e)) (ha : p.pc.active = true)
    (hfree : lockField cell.state = 0) :
    p'.pc.active = true ∧ p'.lock = p.lock ∨ lockField (e.onCell b cell).state ≠ 0 ∨
      ∃ ws ok, p.pc = .wakeSwap ws ok cell.state ∧ (e.onCell b cell).waiters = cell.waiters ∧
        has .releaseOk (e.onCell b cell).state = ok := by
  cases hpc : p.pc
  all_goals simp only [hpc, Pc.active, Bool.false_eq_true] at ha
  case swap t old =>
    simp only [next, hpc] at h
    split at h
    · cases h
      exact Or.inl ⟨rfl, rfl⟩
    · rename_i hold
      obtain rfl : cell.state = old := not_not.mp hold
      rw [if_pos (lockFree_of_free hfree)] at h
      cases h
      right; left
      rw [Effect.onCell, lockField_add (lockFree_fits (lockFree_of_free hfree)).1]
      have hpos : 0 < (modeVal t.mode).toNat := by cases t.mode <;> decide
      omega
  case wakeSwap ws ok old =>
    simp only [next, hpc] at h
    split at h
    · cases h
      exact Or.inl ⟨rfl, rfl⟩
    · rename_i hold
      obtain rfl : cell.state = old := not_not.mp hold
      cases h
      exact Or.inr (Or.inr ⟨ws, ok, rfl, rfl, releaseOk_wakeState ..⟩)
  case' listLock t => cases t
  all_goals
    simp only [next, hpc, Task.enter] at h
    repeat' split at h
  all_goals cases h
  all_goals simp_all [Pc.active, Task.active]

/-- A backend that was taken out of the queue tries again before it sets `RELEASE_OK`, or has
the lock. -/
theorem next_retry (h : next b p cell wt mode sem = some (p', e)) (ho : p.pc.owes = true)
    (hmem : b ∉ cell.waiters) :
    p'.pc.owes = true ∧ p'.lock = p.lock ∨ p'.pc.active = true ∧ p'.lock = p.lock ∨
      p.pc.pending.isSome = true := by
  cases hpc : p.pc
  all_goals simp only [hpc, Pc.owes, Bool.false_eq_true] at ho
  case dequeue c =>
    simp only [next, hpc] at h
    split at h <;> cases h <;> simp [Pc.owes, hmem, ho]
  case dequeueOk c =>
    right; right
    cases c <;> simp_all [Call.retries, Pc.pending]
  case' listLock t => cases t
  all_goals
    simp only [next, hpc, Task.enter] at h
    repeat' split at h
  all_goals cases h
  all_goals simp_all [Pc.owes, Pc.active, Call.retries, Try.retries, Task.retries]

/-- The release that frees the lock wakes the queue, if the flags say so. -/
theorem next_frees (h : next b p cell wt mode sem = some (p', e))
    (hfree : lockField (e.onCell b cell).state = 0) :
    lockField cell.state = 0 ∨ p'.pc.active = true ∧ p'.lock = p.lock ∨
      has .hasWaiters (e.onCell b cell).state = false ∨
      has .releaseOk (e.onCell b cell).state = false := by
  cases hpc : p.pc
  case subtract m =>
    right
    simp only [next, hpc] at h
    split at h
    · cases h
      exact Or.inl ⟨rfl, rfl⟩
    · rename_i hflags
      cases h
      simp only [Effect.onCell] at hfree ⊢
      have hzero := and_lockMask_eq_zero.mpr hfree
      right
      by_contra hnot
      rw [not_or, Bool.not_eq_false, Bool.not_eq_false] at hnot
      simp_all
  case swap t old =>
    left
    simp only [next, hpc] at h
    split at h
    · cases h
      exact hfree
    · rename_i hold
      obtain rfl : cell.state = old := not_not.mp hold
      split at h
      · rename_i hlf
        cases h
        rw [Effect.onCell, lockField_add (lockFree_fits hlf).1] at hfree
        omega
      · cases h
        exact hfree
  all_goals left
  all_goals
    simp only [next, hpc] at h
    repeat' split at h
  all_goals cases h
  all_goals simp_all [lockField_wakeState]

end Next

/-! ## The invariant -/

/-- Backend `c` is at work on `l`, or has been taken out of its queue and will try again. -/
def Tends (s : State B L V) (l : L) (c : B) : Prop :=
  (s.proc c).lock = l ∧
    ((s.proc c).pc.active = true ∨ (s.proc c).pc.owes = true ∧ c ∉ (s.lock l).waiters)

/-- Where a lock is free and somebody sleeps in its queue, some backend tends to it. -/
def Lively (s : State B L V) : Prop :=
  ∀ l, lockField (s.lock l).state = 0 →
    ∀ b ∈ (s.lock l).waiters, (s.proc b).pc.asleep = true → ∃ c, Tends s l c

theorem Lively.of_initial {s : State B L V} (h : s.Initial) : Lively s := by
  intro l _ b hmem
  rw [h.waiters l] at hmem
  cases hmem

section Moves

variable [DecidableEq B] [DecidableEq L] [DecidableEq V] {s s' : State B L V} {b : B}
  {a : Act L V} {p' : Proc B L V} {e : Effect B V}

/-- A backend that enters a queue still has the spinlock. -/
theorem pc_of_push {call : Call V} (hm : Move s b a p' e) (hpc : (s.proc b).pc = .queuePush call) :
    p'.pc = .queueUnlock call ∨ p'.pc = .queuePush call := by
  cases hm with
  | next hn =>
      simp only [State.next, next, hpc] at hn
      cases hn
      exact Or.inl rfl
  | signal | wait => exact Or.inr hpc
  | start hidle => rw [hpc] at hidle; cases hidle

variable [Fintype B]

/-- The sleepers of a free lock slept before. -/
theorem asleep_before {c : B} {l : L} (h : Sound s) (hm : Move s b a p' e)
    (hfree : lockField ((s.after b p' e).lock l).state = 0)
    (hmem : c ∈ ((s.after b p' e).lock l).waiters)
    (hsleep : ((s.after b p' e).proc c).pc.asleep = true) :
    c ∈ (s.lock l).waiters ∧ (s.proc c).pc.asleep = true := by
  by_cases hc : c = b
  · subst hc
    rw [after_proc_self] at hsleep
    rcases h.queues.mem_after hm hmem with hold | ⟨_, call, hpc⟩
    · obtain ⟨rfl, hwait⟩ := h.queues.listed l c hold
      refine ⟨hold, ?_⟩
      rw [after_lock_self] at hfree
      cases hm with
      | next hn => exact (next_asleep hn hsleep).resolve_right (not_not.mpr hfree)
      | signal | wait => exact hsleep
      | start hidle => simp [Proc.spot, hidle, Pc.waiting] at hwait
    · rcases pc_of_push hm hpc with hpc' | hpc' <;> rw [hpc'] at hsleep <;> cases hsleep
  · rw [after_proc_ne s hc] at hsleep
    rcases h.queues.mem_after hm hmem with hold | ⟨hcb, _⟩
    · exact ⟨hold, hsleep⟩
    · exact absurd hcb hc

/-- A step that frees the lock leaves a backend at work, if somebody is in the queue. -/
theorem Sound.frees (h : Sound s) (hm : Move s b a p' e)
    (hheld : lockField (s.lock (s.proc b).lock).state ≠ 0)
    (hfree : lockField ((s.after b p' e).lock (s.proc b).lock).state = 0)
    (hne : ((s.after b p' e).lock (s.proc b).lock).waiters ≠ []) :
    ∃ c, Tends (s.after b p' e) (s.proc b).lock c := by
  have hflags := (h.of_move hm).flags
  have hw := hflags.hasWaiters _ hne
  have hcharged := hflags.charged (s.proc b).lock
  rw [after_lock_self] at hfree hw hcharged
  cases hm with
  | next hn =>
      rcases next_frees hn hfree with hold | ⟨hact, hlock⟩ | hno | hok
      · exact absurd hold hheld
      · refine ⟨b, ?_⟩
        rw [Tends, after_proc_self]
        exact ⟨hlock, Or.inl hact⟩
      · rw [hno] at hw
        cases hw
      · obtain ⟨c, hlock, howes, hout⟩ := hcharged hok
        refine ⟨c, hlock, Or.inr ⟨howes, ?_⟩⟩
        rw [after_lock_self]
        exact hout
  | signal | wait | start => exact absurd hfree hheld

/-- Where the lock is free, a backend at work on it, or charged with its queue, leaves it to
somebody when it stops. -/
theorem Sound.passes_on (h : Sound s) (hm : Move s b a p' e)
    (hfree : lockField (s.lock (s.proc b).lock).state = 0)
    (hfree' : lockField ((s.after b p' e).lock (s.proc b).lock).state = 0)
    (hne : ((s.after b p' e).lock (s.proc b).lock).waiters ≠ [])
    (htends : Tends s (s.proc b).lock b) :
    ∃ c, Tends (s.after b p' e) (s.proc b).lock c := by
  have hself : p'.lock = (s.proc b).lock → p'.pc.active = true ∨ p'.pc.owes = true ∧
      b ∉ ((s.after b p' e).lock (s.proc b).lock).waiters →
      ∃ c, Tends (s.after b p' e) (s.proc b).lock c := by
    intro hlock hwork
    refine ⟨b, ?_⟩
    rw [Tends, after_proc_self]
    exact ⟨hlock, hwork⟩
  obtain ⟨-, hwork⟩ := htends
  cases hm with
  | signal | wait =>
      refine hself rfl ?_
      rw [after_lock_self]
      exact hwork
  | start hidle => rw [hidle] at hwork; rcases hwork with hact | ⟨howes, _⟩ <;> contradiction
  | next hn =>
      rcases hwork with hact | ⟨howes, hout⟩
      · rw [after_lock_self] at hfree' hne
        rcases next_active hn hact hfree with ⟨hact', hlock⟩ | hheld | ⟨ws, ok, hpc, hws, hok⟩
        · exact hself hlock (Or.inl hact')
        · exact absurd hfree' hheld
        · -- the queue has been woken: it is empty now, or somebody woken will come
          cases ok with
          | true =>
              have hknows := h.flags.knows b
              rw [hpc] at hknows
              rw [hws, hknows (Or.inr rfl)] at hne
              exact absurd rfl hne
          | false =>
              have hcharged := (h.of_move (.next hn)).flags.charged (s.proc b).lock
              rw [after_lock_self] at hcharged
              obtain ⟨c, hlock, howes, hout⟩ := hcharged hok
              refine ⟨c, hlock, Or.inr ⟨howes, ?_⟩⟩
              rw [after_lock_self]
              exact hout
      · rcases next_retry hn howes hout with ⟨howes', hlock⟩ | ⟨hact, hlock⟩ | hpend
        · refine hself hlock (Or.inr ⟨howes', fun hmem => ?_⟩)
          rcases h.queues.mem_after (.next hn) hmem with hold | ⟨_, call, hpc⟩
          · exact hout hold
          · rw [hpc] at howes
            cases howes
        · exact hself hlock (Or.inl hact)
        · -- it has the lock
          obtain ⟨m, hm⟩ := Option.isSome_iff_exists.mp hpend
          refine absurd ?_ (h.counted.not_owned_of_free hfree b m)
          simp [Proc.owned, hm]

theorem Lively.of_move (h : Lively s) (hS : Sound s) (hm : Move s b a p' e) :
    Lively (s.after b p' e) := by
  intro l hfree d hmem hsleep
  obtain ⟨hold, hsleep'⟩ := asleep_before hS hm hfree hmem hsleep
  have hne : ((s.after b p' e).lock l).waiters ≠ [] := List.ne_nil_of_mem hmem
  -- a backend other than `b` stays what it is
  have hkeep : ∀ c ≠ b, Tends s l c → ∃ c, Tends (s.after b p' e) l c := by
    rintro c hc ⟨hlock, hwork⟩
    refine ⟨c, ?_⟩
    rw [Tends, after_proc_ne s hc]
    refine ⟨hlock, hwork.imp_right fun ⟨howes, hout⟩ => ⟨howes, fun hin => ?_⟩⟩
    rcases hS.queues.mem_after hm hin with hin | ⟨hcb, _⟩
    · exact hout hin
    · exact hc hcb
  by_cases hl : l = (s.proc b).lock
  · subst hl
    by_cases hheld : lockField (s.lock (s.proc b).lock).state = 0
    · obtain ⟨c, htends⟩ := h _ hheld d hold hsleep'
      by_cases hc : c = b
      · subst hc
        exact hS.passes_on hm hheld hfree hne htends
      · exact hkeep c hc htends
    · exact hS.frees hm hheld hfree hne
  · rw [after_lock_ne s hl] at hfree
    obtain ⟨c, htends⟩ := h l hfree d hold hsleep'
    have hc : c ≠ b := by
      rintro rfl
      exact hl htends.1.symm
    exact hkeep c hc htends

theorem Lively.of_run {ok : State B L V → B × Act L V → Prop} {tr : List (B × Act L V)}
    (h : s.Initial) (r : (lwlocks B L V).Run ok s tr s') : Sound s' ∧ Lively s' := by
  refine invariant_of_moves (I := fun s => Sound s ∧ Lively s) ?_ r
    ⟨.of_initial h, .of_initial h⟩
  rintro s b a p' e - hm ⟨hS, hL⟩
  exact ⟨hS.of_move hm, hL.of_move hS hm⟩

end Moves

/-! ## When nobody can move -/

section Stuck

variable [DecidableEq B] [DecidableEq L] [DecidableEq V]

/-- A call stops only at the semaphore. -/
theorem next_none {b : B} {p : Proc B L V} {cell : Cell B V} {wt : Bool} {mode : B → LWLockMode}
    {sem : Nat} (h : next b p cell wt mode sem = none) :
    p.pc = .idle ∨ p.pc = .panic ∨ ∃ c dq, p.pc = .semLock c dq ∧ sem = 0 := by
  cases hpc : p.pc
  case idle => exact Or.inl rfl
  case panic => exact Or.inr (Or.inl rfl)
  case semLock c dq =>
    simp only [next, hpc] at h
    split at h
    · exact Or.inr (Or.inr ⟨c, dq, rfl, ‹_›⟩)
    · cases h
  all_goals
    simp only [next, hpc] at h
    repeat' split at h
  all_goals cases h

variable [Fintype B] {s s' : State B L V} {tr : List (B × Act L V)}
  {ok : State B L V → B × Act L V → Prop}

/-- No backend can go on with its call. -/
def Stuck (s : State B L V) : Prop := ∀ b, s.next b = none

theorem Stuck.asleep (hstuck : Stuck s') (h : s.Initial) (r : (lwlocks B L V).Run ok s tr s')
    (b : B) : (s'.proc b).pc = .idle ∨ ∃ c dq, (s'.proc b).pc = .semLock c dq ∧ s'.sem b = 0 := by
  rcases next_none (hstuck b) with hidle | hpanic | hsem
  · exact Or.inl hidle
  · exact absurd hpanic (no_panic h r b)
  · exact Or.inr hsem

/-- Whoever sleeps when nobody can move is in the queue, and has not looked for itself there. -/
theorem Stuck.queued (hstuck : Stuck s') (h : s.Initial) (r : (lwlocks B L V).Run ok s tr s')
    {b : B} (hb : (s'.proc b).pc ≠ .idle) :
    b ∈ (s'.lock (s'.proc b).lock).waiters ∧ ∃ c, (s'.proc b).pc = .semLock c false := by
  obtain ⟨hS, _⟩ := Lively.of_run h r
  obtain ⟨c, dq, hpc, hsem⟩ := (hstuck.asleep h r b).resolve_left hb
  -- nobody has anybody to tell
  have hquiet : ∀ w, (s'.spot w).posts = [] := by
    intro w
    rcases hstuck.asleep h r w with hidle | ⟨_, _, hsleep, _⟩
    · simp [Spot.posts, Proc.spot, hidle, Pc.posting, Pc.clears]
    · simp [Spot.posts, Proc.spot, hsleep, Pc.posting, Pc.clears]
  have hposts : ∑ w, (s'.spot w).posts.count b = 0 :=
    Finset.sum_eq_zero fun w _ => by rw [hquiet w]; rfl
  have hhand : (s'.spot b).hand = 0 := by simp [Proc.spot, hpc, Pc.inHand]
  have hmem : b ∈ (s'.lock (s'.proc b).lock).waiters := by
    by_contra hout
    have htold := hS.told b (by simp [Proc.spot, hpc, Pc.waiting]) hout
      (by simp [Proc.spot, hpc, Pc.gone])
    omega
  refine ⟨hmem, c, ?_⟩
  cases dq with
  | false => exact hpc
  | true => exact absurd hmem (hS.flags.past b (by rw [hpc]; rfl))

theorem Stuck.exists_holder (hstuck : Stuck s') (h : s.Initial)
    (r : (lwlocks B L V).Run ok s tr s') {b : B} (hb : (s'.proc b).pc ≠ .idle) :
    ∃ c m, ((s'.proc b).lock, m) ∈ (s'.proc c).held := by
  obtain ⟨hS, hL⟩ := Lively.of_run h r
  obtain ⟨hmem, call, hpc⟩ := hstuck.queued h r hb
  have hheld : lockField (s'.lock (s'.proc b).lock).state ≠ 0 := by
    intro hfree
    obtain ⟨c, hlock, hwork⟩ := hL _ hfree b hmem (by rw [hpc]; rfl)
    by_cases hc : (s'.proc c).pc = .idle
    · rw [hc] at hwork
      rcases hwork with hact | ⟨howes, _⟩ <;> contradiction
    · obtain ⟨hin, _, hpc'⟩ := hstuck.queued h r hc
      rcases hwork with hact | ⟨_, hout⟩
      · rw [hpc'] at hact
        cases hact
      · exact hout (hlock ▸ hin)
  obtain ⟨c, m, hown⟩ := hS.counted.exists_owner hheld
  refine ⟨c, m, ?_⟩
  have hpend : (s'.proc c).pc.pending = none := by
    by_cases hc : (s'.proc c).pc = .idle
    · rw [hc]; rfl
    · obtain ⟨_, _, hpc'⟩ := hstuck.queued h r hc
      rw [hpc']; rfl
  simpa [Proc.owned, hpend] using hown

end Stuck

section Results

variable [Fintype B] [DecidableEq B] [DecidableEq L] [DecidableEq V] {s s' : State B L V}
  {tr : List (B × Act L V)}

/-- In a state from which no backend can go on with its call, every backend that is in a call
sleeps in the queue of its lock, and some backend holds that lock.  So nobody sleeps on a lock
that is free, or after it has been woken. -/
theorem no_lost_wakeup (h : s.Initial) (r : (lwlocks B L V).Run Machine.Any s tr s')
    (hstuck : Stuck s') (b : B) (hb : (s'.proc b).pc ≠ .idle) :
    (∃ c, (s'.proc b).pc = .semLock c false) ∧ b ∈ (s'.lock (s'.proc b).lock).waiters ∧
      ∃ c m, ((s'.proc b).lock, m) ∈ (s'.proc c).held :=
  ⟨(hstuck.queued h r hb).2, (hstuck.queued h r hb).1, hstuck.exists_holder h r hb⟩

theorem no_lost_wakeup_contended :
    ∃ s' : State Bool Unit Bool,
      (lwlocks Bool Unit Bool).Run Machine.Any (.initial fun _ => false) contended s' ∧
      Stuck s' ∧ true ∈ (s'.lock (s'.proc true).lock).waiters ∧
      ∃ c m, ((s'.proc true).lock, m) ∈ (s'.proc c).held := by
  obtain ⟨s', run, hend⟩ := (lwlocks Bool Unit Bool).exists_run contended
    (s := .initial fun _ => false)
    (p := fun s => (s.next false).isNone && (s.next true).isNone && (s.proc true).pc.asleep)
    (by decide +kernel)
  simp only [Bool.and_eq_true, Option.isNone_iff_eq_none] at hend
  obtain ⟨⟨hfalse, htrue⟩, hsleep⟩ := hend
  have hstuck : Stuck s' := Bool.forall_bool.mpr ⟨hfalse, htrue⟩
  have hne : (s'.proc true).pc ≠ .idle := by
    intro hidle
    rw [hidle] at hsleep
    cases hsleep
  have hlost := no_lost_wakeup (State.initial_initial _) run hstuck true hne
  exact ⟨s', run, hstuck, hlost.2⟩

end Results

/-! ## Locks taken in one order -/

section Order

variable {R : Type} [LinearOrder R] (rank : L → R)

/-- The lock a function may wait for. -/
def Act.waitsFor : Act L V → Option L
  | .acquire l _ | .acquireOrWait l _ | .waitForVar l _ => some l
  | .conditionalAcquire _ _ | .updateVar _ _ | .release _ | .releaseClearVar _ _ | .releaseAll
  | .next | .signal | .wait => none

/-- A backend waits only for locks that come after those it holds. -/
def Ordered (s : State B L V) (x : B × Act L V) : Prop :=
  ∀ l ∈ x.2.waitsFor, ∀ e ∈ (s.proc x.1).held, rank e.1 < rank l

instance (s : State B L V) (x : B × Act L V) : Decidable (Ordered rank s x) :=
  inferInstanceAs (Decidable (∀ l ∈ x.2.waitsFor, ∀ e ∈ (s.proc x.1).held, rank e.1 < rank l))

/-- In a call that may wait, before the lock is entered into `held_lwlocks`. -/
def Pc.ordered (pc : Pc B V) : Bool :=
  match pc with
  | .fix _ _ => false
  | _ => pc.inCall

/-- The lock of a call comes after the locks held. -/
def Ranked (s : State B L V) : Prop :=
  ∀ b, (s.proc b).pc.ordered = true → ∀ e ∈ (s.proc b).held, rank e.1 < rank (s.proc b).lock

variable [DecidableEq B] [DecidableEq L] [DecidableEq V]

theorem next_ordered {b : B} {p p' : Proc B L V} {cell : Cell B V} {wt : Bool}
    {mode : B → LWLockMode} {sem : Nat} {e : Effect B V}
    (h : next b p cell wt mode sem = some (p', e)) (ho : p'.pc.ordered = true) :
    p.pc.ordered = true ∧ p'.held = p.held ∧ p'.lock = p.lock := by
  cases hpc : p.pc
  case' listLock t => cases t
  all_goals
    simp only [next, hpc, Task.enter] at h
    repeat' split at h
  all_goals cases h
  all_goals simp_all [Pc.ordered, Pc.inCall, Try.inCall, Task.inCall]

variable {rank} {s s' : State B L V}

theorem Ranked.of_move {b : B} {a : Act L V} {p' : Proc B L V} {e : Effect B V}
    (h : Ranked rank s) (hok : Ordered rank s (b, a)) (hm : Move s b a p' e) :
    Ranked rank (s.after b p' e) := by
  intro c
  by_cases hc : c = b
  · subst hc
    rw [after_proc_self]
    intro ho
    cases hm with
    | next hn =>
        obtain ⟨hold, hheld, hlock⟩ := next_ordered hn ho
        rw [hheld, hlock]
        exact h c hold
    | signal | wait => exact h c ho
    | start hidle hs =>
        cases a with
        | acquire | acquireOrWait =>
            cases hs
            simp only [Proc.take] at ho ⊢
            split at ho
            · simp [hidle, Pc.ordered, Pc.inCall] at ho
            · rename_i hmany
              rw [if_neg hmany]
              exact hok _ rfl
        | waitForVar => cases hs; exact hok _ rfl
        | conditionalAcquire =>
            cases hs
            simp only [Proc.take] at ho
            split at ho <;> simp [hidle, Pc.ordered, Pc.inCall, Try.inCall] at ho
        | updateVar | release | releaseClearVar | releaseAll =>
            cases hs
            simp [Pc.ordered, Pc.inCall, Task.inCall] at ho
        | next | signal | wait => cases hs
  · rw [after_proc_ne s hc]
    exact h c

/-- Where all backends take their locks in one order, there is no deadlock: if nobody can go
on with its call and somebody sleeps, then somebody sleeps on a lock whose holder is in no
call at all. -/
theorem ordered_no_deadlock [Fintype B] {tr : List (B × Act L V)} (h : s.Initial)
    (r : (lwlocks B L V).Run (Ordered rank) s tr s') (hstuck : Stuck s') (b : B)
    (hb : (s'.proc b).pc ≠ .idle) :
    ∃ c d m, (s'.proc c).pc ≠ .idle ∧ (s'.proc d).pc = .idle ∧
      ((s'.proc c).lock, m) ∈ (s'.proc d).held := by
  have hranked : Ranked rank s' := by
    refine invariant_of_moves (fun _ _ _ _ _ hok hm hI => hI.of_move hok hm) r ?_
    intro b ho
    simp [h.idle b, Pc.ordered, Pc.inCall] at ho
  have hasleep : ∀ c, (s'.proc c).pc ≠ .idle → ∃ call, (s'.proc c).pc = .semLock call false :=
    fun c hc => (hstuck.queued h r hc).2
  -- the sleeper whose lock comes last
  obtain ⟨c, hc, hmax⟩ := Finset.exists_max_image
    (Finset.univ.filter fun c => (s'.proc c).pc.asleep = true) (fun c => rank (s'.proc c).lock)
    (by
      obtain ⟨call, hpc⟩ := hasleep b hb
      exact ⟨b, Finset.mem_filter.mpr ⟨Finset.mem_univ b, by rw [hpc]; rfl⟩⟩)
  have hc' : (s'.proc c).pc ≠ .idle := by
    intro hidle
    have hsleep := (Finset.mem_filter.mp hc).2
    rw [hidle] at hsleep
    cases hsleep
  obtain ⟨d, m, hheld⟩ := hstuck.exists_holder h r hc'
  refine ⟨c, d, m, hc', ?_, hheld⟩
  by_contra hd
  obtain ⟨call, hpc⟩ := hasleep d hd
  have hlt := hranked d (by rw [hpc]; rfl) _ hheld
  have hle := hmax d (Finset.mem_filter.mpr ⟨Finset.mem_univ d, by rw [hpc]; rfl⟩)
  exact absurd hle (not_le.mpr hlt)

theorem ordered_no_deadlock_contended :
    ∃ s' : State Bool Unit Bool,
      (lwlocks Bool Unit Bool).Run (Ordered fun _ => 0) (.initial fun _ => false) contended s' ∧
      Stuck s' ∧ ∃ c d m, (s'.proc c).pc ≠ .idle ∧ (s'.proc d).pc = .idle ∧
        ((s'.proc c).lock, m) ∈ (s'.proc d).held := by
  obtain ⟨s', run, hend⟩ := (lwlocks Bool Unit Bool).exists_runIn (Ordered fun _ => 0) contended
    (s := .initial fun _ => false)
    (p := fun s => (s.next false).isNone && (s.next true).isNone && (s.proc true).pc.asleep)
    (by decide +kernel)
  simp only [Bool.and_eq_true, Option.isNone_iff_eq_none] at hend
  obtain ⟨⟨hfalse, htrue⟩, hsleep⟩ := hend
  have hstuck : Stuck s' := Bool.forall_bool.mpr ⟨hfalse, htrue⟩
  refine ⟨s', run, hstuck, ordered_no_deadlock (State.initial_initial _) run hstuck true ?_⟩
  intro hidle
  rw [hidle] at hsleep
  cases hsleep

end Order

end BullFrog.Lmgr
